import Outpost.Proofs.Store.Recovery

/-!
# Walks through links

A path may lead through links to a directory elsewhere.  What is below it by name is found below
that directory.
-/

namespace Outpost.Store

variable {root : Node} {path rest real : Path} {node : Node}

theorem walkFrom_append (followLast : Bool) {links : Nat} {current : Path} (further : rest ≠ [])
    (h : walkFrom root true links current path = .ok (.present real node)) :
    ∃ left, walkFrom root followLast links current (path ++ rest) =
      walkFrom root followLast left real rest := by
  generalize hfollow : true = follow at h
  fun_induction walkFrom root follow links current path with
  | case1 links current last found =>
      cases h
      exact ⟨links, rfl⟩
  | case3 links current later entries there ih =>
      obtain ⟨left, onward⟩ := ih h
      rw [List.cons_append, walkFrom]
      simp only [there, onward, if_pos]
      exact ⟨left, rfl⟩
  | case4 links current later entries there _ ih =>
      obtain ⟨left, onward⟩ := ih h
      rw [List.cons_append, walkFrom]
      simp only [there, onward]
      exact ⟨left, rfl⟩
  | case8 links current name later entries _ _ _ _ target _ last =>
      rw [← hfollow] at last
      simp at last
  | case10 current name later entries there here up short target found _ links absolute
      components split ih =>
      obtain ⟨left, onward⟩ := ih h
      have goesOn : (decide (later ++ rest = []) && !followLast) = false := by simp [further]
      rw [List.cons_append, walkFrom]
      simp only [there, if_neg here, if_neg up, if_neg short, found, goesOn, split]
      rw [List.append_assoc] at onward
      exact ⟨left, onward⟩
  | case11 links current name later entries there here up short child unlinked found ih =>
      obtain ⟨left, onward⟩ := ih h
      rw [List.cons_append, walkFrom]
      simp only [there, if_neg here, if_neg up, if_neg short, found]
      cases child with
      | link target => exact absurd rfl (unlinked target)
      | _ => exact ⟨left, onward⟩
  | _ => cases h

theorem walkFrom_of_walk {followLast : Bool} {place : Place}
    (h : walk root followLast path = .ok place) :
    walkFrom root followLast 40 [] path = .ok place := by
  unfold walk at h
  split at h
  · cases h
  · split at h
    · cases h
    · exact h

theorem walk_append (followLast : Bool) (further : rest ≠ [])
    (h : walk root true path = .ok (.present real node)) :
    ∃ left, walk root followLast (path ++ rest) =
      if ((path ++ rest).any fun name => name.toList.contains '\x00') = true then
        .error .nulInName
      else if maxPathLength ≤ pathLength (path ++ rest) then .error .nameTooLong
      else walkFrom root followLast left real rest := by
  obtain ⟨left, onward⟩ := walkFrom_append followLast further (walkFrom_of_walk h)
  refine ⟨left, ?_⟩
  unfold walk
  rw [onward]

theorem isDirectoryAt_eq_true_iff : FileTree.isDirectoryAt root path = true ↔
    ∃ real entries, walk root true path = .ok (.present real (.directory entries)) := by
  unfold FileTree.isDirectoryAt FileTree.stat
  cases hwalk : walk root true path with
  | error error => simp [bind, Except.bind]
  | ok place =>
      cases place with
      | absent parent name => simp [bind, Except.bind]
      | present real node => cases node <;> simp [bind, Except.bind, Node.isDirectory]

theorem makeDirectory_ne_notFound {name : String} (there : FileTree.isDirectoryAt root path = true)
    (plain : name ≠ "." ∧ name ≠ "..") :
    FileTree.makeDirectory root (path ++ [name]) ≠ .error .notFound := by
  obtain ⟨real, entries, hwalk⟩ := isDirectoryAt_eq_true_iff.mp there
  obtain ⟨left, onward⟩ := walk_append false (List.cons_ne_nil name []) hwalk
  have here := get?_of_walk hwalk
  have found : walkFrom root false left real [name] ≠ .error .notFound := by
    rw [walkFrom]
    simp only [here, if_neg plain.1, if_neg plain.2]
    split
    · nofun
    · split
      · nofun
      · nofun
      · rename_i child _ named
        have below : root.get? (real ++ [name]) = some child := by
          rw [Node.get?_snoc, here]
          exact named
        rw [walkFrom, below]
        nofun
  intro missing
  unfold FileTree.makeDirectory at missing
  rw [onward] at missing
  cases hplace : walkFrom root false left real [name] with
  | error error =>
      rw [hplace] at found missing
      repeat' split at missing
      all_goals cases missing
      exact found rfl
  | ok place =>
      rw [hplace] at missing
      repeat' split at missing
      all_goals cases place <;> cases missing

/-! ## The directory that is really there -/

/-- The path leads to a directory, through links or not. -/
def LeadsTo (root : Node) (path real : Path) : Prop :=
  ∃ entries, walk root true path = .ok (.present real (.directory entries))

theorem clear_of_get? (found : root.get? path = some node)
    (unlinked : ∀ target, node ≠ .link target) : Clear root path := by
  rintro front target ⟨rest, rfl⟩ leaf
  cases rest with
  | nil =>
      rw [List.append_nil] at found
      unfold Node.leafAt? at leaf
      rw [found, Option.filter_eq_some_iff] at leaf
      exact unlinked target (Option.some.inj leaf.1)
  | cons name rest =>
      have there : root.surfaceAt? (front ++ name :: rest) ≠ none := by
        rw [Node.surfaceAt?_of_get? found]
        nofun
      rw [Node.leafAt?_of_directory (Node.surfaceAt?_above there (List.cons_ne_nil _ _))] at leaf
      cases leaf

theorem LeadsTo.walk_append (leads : LeadsTo root path real) (followLast : Bool)
    (found : root.get? (real ++ rest) = some node) (further : rest ≠ [])
    (unlinked : ∀ target, node ≠ .link target) (plain : IsPlain rest)
    (fits : Fits (path ++ rest)) :
    walk root followLast (path ++ rest) = .ok (.present (real ++ rest) node) := by
  obtain ⟨entries, hwalk⟩ := leads
  obtain ⟨left, onward⟩ := Store.walk_append followLast further hwalk
  have here := get?_of_walk hwalk
  have below : (Node.directory entries).get? rest = some node := by
    rw [Node.get?_append, here] at found
    exact found
  have short : ∀ name ∈ rest, name.utf8ByteSize ≤ maxNameLength :=
    fun name inside => fits.names name (List.mem_append_right _ inside)
  rw [onward, if_neg (by rw [fits.noNul]; nofun), if_neg (Nat.not_le_of_lt fits.length),
    walkFrom_eq_lead (clear_of_get? found unlinked) plain here]
  exact lead_of_get? short below

theorem isFile_of_walkFrom {tree child : Node} {followLast : Bool} {links : Nat} {current : Path}
    (here : tree.get? current = some child) (kept : node.isFile = false)
    (h : walkFrom tree followLast links current path = .ok (.present real node)) :
    child.isFile = false := by
  cases child with
  | file contents =>
      cases path with
      | nil =>
          rw [walkFrom, here] at h
          cases h
          cases kept
      | cons name rest =>
          rw [walkFrom] at h
          simp only [here] at h
          cases h
  | _ => rfl

/-- Everything but regular files is still there. -/
def Spares (before after : Node) : Prop :=
  ∀ path seen, before.surfaceAt? path = some seen → seen.isFile = false →
    after.surfaceAt? path = some seen

section Spares

variable {before after : Node} (spares : Spares before after)

include spares

theorem Spares.get? (found : before.get? path = some node) (kept : node.isFile = false) :
    ∃ other, after.get? path = some other ∧ other.surface = node.surface := by
  have seen := spares path _ (Node.surfaceAt?_of_get? found) ((Node.isFile_surface node).trans kept)
  exact Option.map_eq_some_iff.mp seen

theorem Spares.directory {entries : List (String × Node)}
    (found : before.get? path = some (.directory entries)) :
    ∃ others, after.get? path = some (.directory others) :=
  Node.surfaceAt?_eq_directory_iff.mp (spares path _ (Node.surfaceAt?_of_get? found) rfl)

theorem Spares.child {current : Path} {name : String} {entries : List (String × Node)}
    (there : before.get? current = some (.directory entries))
    (found : (Node.directory entries).child? name = some node) (kept : node.isFile = false) :
    ∃ others other, after.get? current = some (.directory others) ∧
      (Node.directory others).child? name = some other ∧ other.surface = node.surface := by
  have below : before.get? (current ++ [name]) = some node := by
    rw [Node.get?_snoc, there]
    exact found
  obtain ⟨others, again⟩ := spares.directory there
  obtain ⟨other, still, same⟩ := spares.get? below kept
  rw [Node.get?_snoc, again] at still
  exact ⟨others, other, again, still, same⟩

/-- The walks to anything but regular files are the same. -/
theorem walkFrom_of_spares {links : Nat} {current : Path} (kept : node.isFile = false)
    (h : walkFrom before true links current path = .ok (.present real node)) :
    ∃ other, walkFrom after true links current path = .ok (.present real other) ∧
      other.surface = node.surface := by
  generalize hfollow : true = follow at h
  fun_induction walkFrom before follow links current path with
  | case1 links current last found =>
      cases h
      obtain ⟨other, again, same⟩ := spares.get? found kept
      rw [walkFrom, again]
      exact ⟨other, rfl, same⟩
  | case3 links current later entries there ih =>
      obtain ⟨others, again⟩ := spares.directory there
      rw [walkFrom]
      simp only [again, if_pos]
      exact ih h
  | case4 links current later entries there _ ih =>
      obtain ⟨others, again⟩ := spares.directory there
      rw [walkFrom]
      simp only [again]
      exact ih h
  | case8 links current name later entries _ _ _ _ target _ last =>
      rw [← hfollow] at last
      simp at last
  | case10 current name later entries there here up short target found goesOn links absolute
      components split ih =>
      obtain ⟨others, other, again, still, same⟩ := spares.child there found rfl
      cases other with
      | link other =>
          cases same
          rw [walkFrom]
          simp only [again, if_neg here, if_neg up, if_neg short, still, split, if_neg goesOn]
          exact ih h
      | _ => cases same
  | case11 links current name later entries there here up short child unlinked found ih =>
      have notFile := isFile_of_walkFrom (by rw [Node.get?_snoc, there]; exact found) kept h
      obtain ⟨others, other, again, still, same⟩ := spares.child there found notFile
      rw [walkFrom]
      simp only [again, if_neg here, if_neg up, if_neg short, still]
      cases other with
      | link target =>
          cases child with
          | link other => exact absurd rfl (unlinked other)
          | _ => cases same
      | _ => exact ih h
  | _ => cases h

theorem LeadsTo.of_spares (leads : LeadsTo before path real) : LeadsTo after path real := by
  obtain ⟨entries, hwalk⟩ := leads
  obtain ⟨other, onward, same⟩ := walkFrom_of_spares spares rfl (walkFrom_of_walk hwalk)
  unfold LeadsTo
  unfold walk at hwalk ⊢
  cases other with
  | directory others =>
      rw [onward]
      split at hwalk
      · cases hwalk
      · rename_i noNul
        split at hwalk
        · cases hwalk
        · rename_i length
          rw [if_neg noNul, if_neg length]
          exact ⟨others, rfl⟩
  | _ => cases same

end Spares

end Outpost.Store
