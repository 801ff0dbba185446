import Outpost.Proofs.Store.Backend

/-!
# Answers of the disk

What a get answers is settled by what is seen at the path of its key and on the way there.  The
directories of other entries on the way do not matter, but for one thing: where the way used to
end early, a name that is too long for the system may now be met.
-/

namespace Outpost.Store

variable {root before after : Node} {path : Path}

/-! ## Seeking -/

/-- What is seen at the end of a path without links, or why it is not reached. -/
def seek : Node → Path → Except OsError Node
  | node, [] => .ok node.surface
  | .directory entries, name :: rest =>
      if maxNameLength < name.utf8ByteSize then .error .nameTooLong
      else
        match (Node.directory entries).child? name with
        | none => .error .notFound
        | some child => seek child rest
  | _, _ :: _ => .error .notDirectory

theorem seek_of_lead (current : Path) (node : Node) (rest : Path) :
    seek node rest = match lead current node rest with
      | .ok (.present _ found) => .ok found.surface
      | .ok (.absent _ _) => .error .notFound
      | .error error => .error error := by
  induction rest generalizing current node with
  | nil => rw [seek, lead]
  | cons name rest ih =>
      cases node with
      | directory entries =>
          rw [seek, lead]
          split
          · rfl
          · cases (Node.directory entries).child? name with
            | none => by_cases last : rest = [] <;> simp [last]
            | some child => exact ih (current ++ [name]) child
      | _ => rfl

theorem stat_surface (clear : Clear root path) (plain : IsPlain path) :
    (FileTree.stat root path).map Node.surface =
      if (path.any fun name => name.toList.contains '\x00') = true then .error .nulInName
      else if maxPathLength ≤ pathLength path then .error .nameTooLong
      else seek root path := by
  unfold FileTree.stat
  rw [walk_eq_lead clear plain, seek_of_lead [] root path]
  split
  · rfl
  · split
    · rfl
    · rcases lead [] root path with error | ⟨found, node⟩ | ⟨above, name⟩ <;> rfl

/-! ## Seeking where a tree has changed -/

theorem seek_of_open (open_ : ∀ front, front <+: path → root.leafAt? front = none) :
    root.surfaceAt? path = some .emptyDirectory ∨ seek root path = .error .notFound ∨
      seek root path = .error .nameTooLong ∧ ∃ name ∈ path, maxNameLength < name.utf8ByteSize := by
  induction path generalizing root with
  | nil =>
      cases root with
      | directory entries => exact .inl rfl
      | _ => cases open_ [] List.nil_prefix
  | cons name rest ih =>
      cases root with
      | directory entries =>
          rw [seek, Node.surfaceAt?_cons]
          split
          · rename_i long
            exact .inr (.inr ⟨rfl, name, List.mem_cons_self, long⟩)
          · cases hchild : (Node.directory entries).child? name with
            | none => exact .inr (.inl rfl)
            | some child =>
                refine (ih fun front isPrefix => ?_).imp_right (Or.imp_right ?_)
                · have above := open_ (name :: front) (List.cons_prefix_cons.mpr ⟨rfl, isPrefix⟩)
                  rwa [Node.leafAt?_cons, hchild] at above
                · rintro ⟨long, other, inside, tooLong⟩
                  exact ⟨long, other, List.mem_cons_of_mem _ inside, tooLong⟩
      | _ => cases open_ [] List.nil_prefix

theorem eq_or_directories {first second : Node} (h : first.surface = second.surface) :
    first = second ∨
      ∃ entries others, first = .directory entries ∧ second = .directory others := by
  cases first with
  | directory entries =>
      cases second with
      | directory others => exact .inr ⟨entries, others, rfl, rfl⟩
      | _ => cases h
  | _ =>
      cases second with
      | directory others => cases h
      | _ => exact .inl h

theorem seek_grown (grown : ∀ front, front <+: path → Grown front before after front)
    (same : after.surfaceAt? path = before.surfaceAt? path) :
    seek after path = seek before path ∨
      seek before path = .error .notFound ∧ seek after path = .error .nameTooLong ∧
        ∃ name ∈ path, maxNameLength < name.utf8ByteSize := by
  induction path generalizing before after with
  | nil => exact .inl (congrArg Except.ok (Option.some.inj same))
  | cons name rest ih =>
      have here : after.surface = before.surface := by
        rcases grown [] List.nil_prefix with kept | ⟨-, missing, -⟩
        · exact Option.some.inj kept
        · cases missing
      obtain rfl | ⟨others, entries, rfl, rfl⟩ := eq_or_directories here
      · exact .inl rfl
      have further : ∀ front, front <+: rest →
          Grown (name :: front) (.directory entries) (.directory others) (name :: front) :=
        fun front isPrefix => grown _ (List.cons_prefix_cons.mpr ⟨rfl, isPrefix⟩)
      simp only [Grown, Node.surfaceAt?_cons, List.prefix_rfl, true_and] at further same
      simp only [seek]
      split
      · exact .inl rfl
      cases hbefore : (Node.directory entries).child? name with
      | none =>
          rw [hbefore] at further same
          cases hafter : (Node.directory others).child? name with
          | none => exact .inl rfl
          | some child =>
              rw [hafter] at further same
              have open_ : ∀ front, front <+: rest → child.leafAt? front = none := by
                intro front isPrefix
                rw [Node.leafAt?_eq]
                rcases further front isPrefix with missing | ⟨-, made⟩
                · rw [Option.bind_some] at missing
                  rw [missing]
                  rfl
                · rw [Option.bind_some] at made
                  rw [made]
                  rfl
              rcases seek_of_open open_ with directory | missing | ⟨long, other, inside, tooLong⟩
              · cases same.symm.trans directory
              · exact .inl missing
              · exact .inr ⟨rfl, long, other, List.mem_cons_of_mem _ inside, tooLong⟩
      | some child =>
          rw [hbefore] at further same
          cases hafter : (Node.directory others).child? name with
          | none =>
              rw [hafter] at further
              rcases further [] List.nil_prefix with gone | ⟨missing, -⟩
              · cases gone
              · cases missing
          | some grownChild =>
              rw [hafter] at further same
              simp only [Option.bind_some] at further same
              refine (ih (fun front isPrefix => ?_) same).imp_right ?_
              · have either := further front isPrefix
                exact either.imp_right fun made => ⟨List.prefix_rfl, made⟩
              · rintro ⟨missing, long, other, inside, tooLong⟩
                exact ⟨missing, long, other, List.mem_cons_of_mem _ inside, tooLong⟩

/-! ## Gets -/

namespace DiskStore

variable {store other : DiskStore} {key : String}

def answer (key : String) : Except OsError Node → Except StoreError Bytes
  | .error .notFound => .error .notFound
  | .error error => .error (.system error)
  | .ok (.directory _) => .error .noContent
  | .ok (.file contents) => .ok contents
  | .ok _ => .error (.invalidKey key)

theorem answer_surface (key : String) (found : Except OsError Node) :
    answer key (found.map Node.surface) = answer key found := by
  rcases found with error | node
  · rfl
  · cases node <;> rfl

theorem get_eq_answer (sound : store.Sound) (hvalid : validateKey key = .ok ()) :
    store.get key = answer key
      (if ((store.pathOf key).any fun name => name.toList.contains '\x00') = true then
        .error .nulInName
      else if maxPathLength ≤ pathLength (store.pathOf key) then .error .nameTooLong
      else seek store.tree (store.pathOf key)) := by
  have clear : Clear store.tree (store.pathOf key) := sound.unlinked.clear (List.prefix_append _ _)
  rw [← stat_surface clear (sound.isPlain hvalid), answer_surface]
  unfold get
  rw [hvalid]
  rcases FileTree.stat store.tree (store.pathOf key) with error | node
  · cases error <;> rfl
  · cases node <;> rfl

theorem get_of_not_valid {error : StoreError} (h : validateKey key = .error error) :
    store.get key = .error error := by
  unfold get
  rw [h]
  rfl

theorem get_of_missing (sound : store.Sound) (hvalid : validateKey key = .ok ())
    (fits : Fits (store.pathOf key))
    (open_ : ∀ front, front <+: store.pathOf key → store.tree.leafAt? front = none)
    (missing : store.tree.surfaceAt? (store.pathOf key) = none) :
    store.get key = .error .notFound := by
  rw [get_eq_answer sound hvalid, if_neg (by rw [fits.noNul]; nofun),
    if_neg (Nat.not_le_of_lt fits.length)]
  rcases seek_of_open open_ with directory | notFound | ⟨-, name, inside, tooLong⟩
  · cases missing.symm.trans directory
  · rw [notFound]
    rfl
  · exact absurd tooLong (Nat.not_lt_of_le (fits.names name inside))

section Changed

variable (sound : store.Sound) (soundOther : other.Sound) (base : other.base = store.base)

include sound soundOther base

theorem get_of_seek
    (same : seek other.tree (store.pathOf key) = seek store.tree (store.pathOf key)) :
    other.get key = store.get key := by
  have path : other.pathOf key = store.pathOf key := congrArg (· ++ keySegments key) base
  cases hvalid : validateKey key with
  | error error => rw [get_of_not_valid hvalid, get_of_not_valid hvalid]
  | ok _ => rw [get_eq_answer sound hvalid, get_eq_answer soundOther hvalid, path, same]

/-- Where at most directories were made on the way to a key, a get answers the same, or that a
name is too long instead of that nothing was found. -/
theorem get_grown
    (grown : ∀ front, front <+: store.pathOf key → Grown front store.tree other.tree front)
    (same : other.tree.surfaceAt? (store.pathOf key) = store.tree.surfaceAt? (store.pathOf key)) :
    other.get key = store.get key ∨
      store.get key = .error .notFound ∧ other.get key = .error (.system .nameTooLong) ∧
        ∃ name ∈ store.pathOf key, maxNameLength < name.utf8ByteSize := by
  have path : other.pathOf key = store.pathOf key := congrArg (· ++ keySegments key) base
  rcases seek_grown grown same with unchanged | ⟨missing, long, name, inside, tooLong⟩
  · exact .inl (get_of_seek sound soundOther base unchanged)
  · cases hvalid : validateKey key with
    | error error =>
        rw [get_of_not_valid hvalid, get_of_not_valid hvalid]
        exact .inl rfl
    | ok _ =>
        rw [get_eq_answer sound hvalid, get_eq_answer soundOther hvalid, path, missing, long]
        split
        · exact .inl rfl
        · split
          · exact .inl rfl
          · exact .inr ⟨rfl, rfl, name, inside, tooLong⟩

end Changed

end DiskStore

end Outpost.Store
