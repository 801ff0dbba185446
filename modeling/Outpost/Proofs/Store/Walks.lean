import Outpost.Proofs.Store.Nodes

/-!
# Walks without links

Where no link is on the way, a path leads to the node at just this path, and the calls of a store
change the tree there and nowhere else.
-/

namespace Outpost.Store

def IsPlain (path : Path) : Prop := ∀ name ∈ path, name ≠ "." ∧ name ≠ ".."

instance (path : Path) : Decidable (IsPlain path) :=
  inferInstanceAs (Decidable (∀ name ∈ path, name ≠ "." ∧ name ≠ ".."))

def Clear (root : Node) (path : Path) : Prop :=
  ∀ front target, front <+: path → root.leafAt? front ≠ some (.link target)

/-- The system takes names and paths of this length. -/
structure Fits (path : Path) : Prop where
  names : ∀ name ∈ path, name.utf8ByteSize ≤ maxNameLength
  noNul : (path.any fun name => name.toList.contains '\x00') = false
  length : pathLength path < maxPathLength

instance (path : Path) : Decidable (Fits path) :=
  decidable_of_iff ((∀ name ∈ path, name.utf8ByteSize ≤ maxNameLength) ∧
      (path.any fun name => name.toList.contains '\x00') = false ∧ pathLength path < maxPathLength)
    ⟨fun ⟨names, noNul, length⟩ => ⟨names, noNul, length⟩,
      fun fits => ⟨fits.names, fits.noNul, fits.length⟩⟩

variable {root : Node} {path : Path}

theorem IsPlain.upTo {front : Path} (h : IsPlain path) (isPrefix : front <+: path) :
    IsPlain front := fun name hname => h name (isPrefix.subset hname)

theorem pathLength_append (path rest : Path) :
    pathLength (path ++ rest) = pathLength path + pathLength rest := by
  have from_ : ∀ (names : Path) (length : Nat),
      names.foldl (fun length name => length + name.utf8ByteSize + 1) length =
        length + pathLength names := by
    intro names
    induction names with
    | nil => exact fun length => rfl
    | cons name names ih =>
        intro length
        unfold pathLength
        rw [List.foldl_cons, List.foldl_cons, ih, ih]
        omega
  unfold pathLength
  rw [List.foldl_append]
  exact from_ rest _

theorem Fits.upTo {front : Path} (h : Fits path) (isPrefix : front <+: path) : Fits front where
  names name hname := h.names name (isPrefix.subset hname)
  noNul := by
    rw [List.any_eq_false]
    exact fun name hname => List.any_eq_false.mp h.noNul name (isPrefix.subset hname)
  length := by
    obtain ⟨rest, rfl⟩ := isPrefix
    have := h.length
    rw [pathLength_append] at this
    omega

theorem Fits.of_append {above : Path} {start name : String}
    (h : Fits (above ++ [start ++ name])) : Fits (above ++ [name]) := by
  have last := h.names _ (List.mem_append_right _ List.mem_cons_self)
  rw [String.utf8ByteSize_append] at last
  refine ⟨List.forall_mem_append.mpr ⟨fun other inside => h.names other ?_, ?_⟩, ?_, ?_⟩
  · exact List.mem_append_left _ inside
  · rw [List.forall_mem_singleton]
    omega
  · have noNul := h.noNul
    simp only [List.any_append, List.any_cons, List.any_nil, Bool.or_false, Bool.or_eq_false_iff,
      String.toList_append, List.contains_eq_mem, decide_eq_false_iff_not, List.mem_append,
      not_or] at noNul ⊢
    exact ⟨noNul.1, noNul.2.2⟩
  · have length := h.length
    rw [pathLength_append] at length ⊢
    unfold pathLength at length ⊢
    simp only [List.foldl_cons, List.foldl_nil, String.utf8ByteSize_append] at length ⊢
    omega

theorem Clear.upTo {front : Path} (h : Clear root path) (isPrefix : front <+: path) :
    Clear root front := fun other target hother => h other target (hother.trans isPrefix)

theorem Clear.not_link (h : Clear root path) {front : Path} (isPrefix : front <+: path)
    {target : String} : root.get? front ≠ some (.link target) := by
  intro found
  refine h front target isPrefix ?_
  unfold Node.leafAt?
  rw [found]
  rfl

/-- What a walk of the path may come to. -/
def Leads (root : Node) (path : Path) : Place → Prop
  | .present real node => real = path ∧ root.get? path = some node
  | .absent parent name => path = parent ++ [name] ∧ root.get? path = none ∧
      ∃ entries, root.get? parent = some (.directory entries)

section Walk

variable {followLast : Bool} {links : Nat} {current rest : Path}

theorem walkFrom_cons {name : String} {entries : List (String × Node)}
    (there : root.get? current = some (.directory entries)) (plain : name ≠ "." ∧ name ≠ "..")
    (short : name.utf8ByteSize ≤ maxNameLength)
    (clear : ∀ target, (Node.directory entries).child? name ≠ some (.link target)) :
    walkFrom root followLast links current (name :: rest) =
      match (Node.directory entries).child? name with
      | none => if rest = [] then .ok (.absent current name) else .error .notFound
      | some _ => walkFrom root followLast links (current ++ [name]) rest := by
  rw [walkFrom]
  simp only [there, if_neg plain.1, if_neg plain.2, if_neg (Nat.not_lt_of_le short)]
  split
  · rename_i missing
    rw [missing]
  · rename_i target found
    exact absurd found (clear target)
  · rename_i child found
    rw [found]

theorem child?_ne_link {name : String} {entries : List (String × Node)}
    (there : root.get? current = some (.directory entries))
    (clear : Clear root (current ++ name :: rest)) (target : String) :
    (Node.directory entries).child? name ≠ some (.link target) := by
  intro found
  have isPrefix : current ++ [name] <+: current ++ name :: rest := by
    rw [List.append_cons current name rest]
    exact List.prefix_append _ _
  refine clear.not_link isPrefix (?_ : _ = some (Node.link target))
  rw [Node.get?_snoc, there]
  exact found

def lead (current : Path) : Node → Path → Except OsError Place
  | node, [] => .ok (.present current node)
  | .directory entries, name :: rest =>
      if maxNameLength < name.utf8ByteSize then .error .nameTooLong
      else
        match (Node.directory entries).child? name with
        | none => if rest = [] then .ok (.absent current name) else .error .notFound
        | some child => lead (current ++ [name]) child rest
  | _, _ :: _ => .error .notDirectory

theorem walkFrom_eq_lead (clear : Clear root (current ++ rest)) (plain : IsPlain rest)
    {node : Node} (here : root.get? current = some node) :
    walkFrom root followLast links current rest = lead current node rest := by
  induction rest generalizing current node with
  | nil => rw [walkFrom, here, lead]
  | cons name rest ih =>
      have isPlain := plain name List.mem_cons_self
      have further : IsPlain rest := fun other hother => plain other (List.mem_cons_of_mem _ hother)
      cases node with
      | directory entries =>
          rw [lead]
          by_cases long : maxNameLength < name.utf8ByteSize
          · rw [walkFrom]
            simp only [here, if_neg isPlain.1, if_neg isPlain.2, if_pos long]
          rw [if_neg long, walkFrom_cons here isPlain (Nat.le_of_not_lt long)
            (child?_ne_link here clear)]
          cases hchild : (Node.directory entries).child? name with
          | none => rfl
          | some child =>
              rw [List.append_cons current name rest] at clear
              refine ih clear further ?_
              rw [Node.get?_snoc, here]
              exact hchild
      | _ =>
          rw [walkFrom]
          simp only [here, lead]

theorem leads_of_lead {node : Node} (here : root.get? current = some node) {place : Place}
    (h : lead current node rest = .ok place) :
    Leads root (current ++ rest) place ∧ ∀ name ∈ rest, name.utf8ByteSize ≤ maxNameLength := by
  induction rest generalizing current node with
  | nil =>
      rw [lead] at h
      cases h
      rw [List.append_nil]
      exact ⟨⟨rfl, here⟩, List.forall_mem_nil _⟩
  | cons name rest ih =>
      cases node with
      | directory entries =>
          rw [lead] at h
          split at h
          · cases h
          rename_i short
          rw [List.append_cons current name rest]
          have there : root.get? (current ++ [name]) = (Node.directory entries).child? name := by
            rw [Node.get?_snoc, here]
            rfl
          split at h
          · rename_i missing
            split at h
            · rename_i last
              cases h
              subst last
              rw [List.append_nil]
              exact ⟨⟨rfl, there.trans missing, entries, here⟩, by simpa using short⟩
            · cases h
          · rename_i child found
            obtain ⟨leads, shortRest⟩ := ih (there.trans found) h
            exact ⟨leads, List.forall_mem_cons.mpr ⟨Nat.le_of_not_lt short, shortRest⟩⟩
      | _ => cases h

theorem lead_of_get? {node found : Node}
    (short : ∀ name ∈ rest, name.utf8ByteSize ≤ maxNameLength)
    (there : node.get? rest = some found) :
    lead current node rest = .ok (.present (current ++ rest) found) := by
  induction rest generalizing current node with
  | nil =>
      cases there
      rw [lead, List.append_nil]
  | cons name rest ih =>
      obtain ⟨child, hchild, below⟩ := Option.bind_eq_some_iff.mp there
      have shortRest := fun other hother => short other (List.mem_cons_of_mem _ hother)
      cases node with
      | directory entries =>
          rw [lead, if_neg (Nat.not_lt_of_le (short name List.mem_cons_self)), hchild,
            List.append_cons current name rest]
          exact ih shortRest below
      | _ => cases hchild

theorem lead_of_missing {node : Node} {name : String} {entries : List (String × Node)}
    (short : ∀ other ∈ rest ++ [name], other.utf8ByteSize ≤ maxNameLength)
    (above : node.get? rest = some (.directory entries))
    (missing : (Node.directory entries).child? name = none) :
    lead current node (rest ++ [name]) = .ok (.absent (current ++ rest) name) := by
  induction rest generalizing current node with
  | nil =>
      cases above
      rw [List.nil_append, lead, if_neg (Nat.not_lt_of_le (short name List.mem_cons_self)),
        missing, List.append_nil]
      rfl
  | cons first rest ih =>
      obtain ⟨child, hchild, below⟩ := Option.bind_eq_some_iff.mp above
      have shortRest := fun other hother => short other (List.mem_cons_of_mem _ hother)
      cases node with
      | directory nodeEntries =>
          rw [List.cons_append, lead,
            if_neg (Nat.not_lt_of_le (short first List.mem_cons_self)), hchild,
            List.append_cons current first rest]
          exact ih shortRest below
      | _ => cases hchild

theorem lead_of_gap {node : Node} (gap : node.get? rest.dropLast = none)
    (short : ∀ name ∈ rest, name.utf8ByteSize ≤ maxNameLength)
    (open_ : ∀ front, front <+: rest → node.leafAt? front = none) :
    lead current node rest = .error .notFound := by
  induction rest generalizing current node with
  | nil => cases gap
  | cons name rest ih =>
      cases node with
      | directory entries =>
          rw [lead, if_neg (Nat.not_lt_of_le (short name List.mem_cons_self))]
          cases rest with
          | nil => cases gap
          | cons next rest =>
              rw [List.dropLast_cons_cons, Node.get?] at gap
              cases hchild : (Node.directory entries).child? name with
              | none => rfl
              | some child =>
                  rw [hchild] at gap
                  refine ih gap (fun other hother => short other (List.mem_cons_of_mem _ hother)) ?_
                  intro front isPrefix
                  have above := open_ (name :: front) (List.cons_prefix_cons.mpr ⟨rfl, isPrefix⟩)
                  rwa [Node.leafAt?_cons, hchild] at above
      | _ => cases open_ [] List.nil_prefix

end Walk

/-! ## Calls -/

theorem ok_of_bind {ε α β : Type} {first : Except ε α} {next : α → Except ε β} {result : β}
    (h : first >>= next = .ok result) : ∃ value, first = .ok value ∧ next value = .ok result := by
  cases first with
  | error error => cases h
  | ok value => exact ⟨value, rfl, h⟩

section Calls

variable (clear : Clear root path) (plain : IsPlain path)

include clear plain

theorem walk_eq_lead {followLast : Bool} :
    walk root followLast path =
      if (path.any fun name => name.toList.contains '\x00') = true then .error .nulInName
      else if maxPathLength ≤ pathLength path then .error .nameTooLong
      else lead [] root path := by
  have same := @walkFrom_eq_lead root followLast 40 [] path clear plain root rfl
  unfold walk
  rw [same]

theorem walk_of_fits {followLast : Bool} (fits : Fits path) :
    walk root followLast path = lead [] root path := by
  rw [walk_eq_lead clear plain, if_neg (by rw [fits.noNul]; nofun),
    if_neg (Nat.not_le_of_lt fits.length)]

theorem leads_of_walk {followLast : Bool} {place : Place}
    (h : walk root followLast path = .ok place) : Leads root path place ∧ Fits path := by
  rw [walk_eq_lead clear plain] at h
  split at h
  · cases h
  rename_i noNul
  split at h
  · cases h
  rename_i length
  obtain ⟨leads, names⟩ := leads_of_lead rfl h
  exact ⟨leads, names, by simpa using noNul, Nat.lt_of_not_le length⟩

theorem walk_of_get? {followLast : Bool} (fits : Fits path) {node : Node}
    (found : root.get? path = some node) :
    walk root followLast path = .ok (.present path node) := by
  rw [walk_of_fits clear plain fits]
  exact lead_of_get? fits.names found

theorem stat_eq_ok_iff {node : Node} :
    FileTree.stat root path = .ok node ↔ Fits path ∧ root.get? path = some node := by
  constructor
  · intro h
    unfold FileTree.stat at h
    obtain ⟨place, hwalk, hplace⟩ := ok_of_bind h
    obtain ⟨leads, fits⟩ := leads_of_walk clear plain hwalk
    cases place with
    | present real found =>
        cases hplace
        exact ⟨fits, leads.2⟩
    | absent parent name => cases hplace
  · rintro ⟨fits, found⟩
    unfold FileTree.stat
    rw [walk_of_get? clear plain fits found]
    rfl

theorem makeDirectory_ok {made : Node} (h : FileTree.makeDirectory root path = .ok made) :
    ∃ parent name entries, path = parent ++ [name] ∧
      root.get? parent = some (.directory entries) ∧ root.get? path = none ∧
      made = root.set path .emptyDirectory := by
  unfold FileTree.makeDirectory at h
  obtain ⟨place, hwalk, hplace⟩ := ok_of_bind h
  obtain ⟨leads, -⟩ := leads_of_walk clear plain hwalk
  cases place with
  | present real found => cases hplace
  | absent parent name =>
      obtain ⟨rfl, missing, entries, above⟩ := leads
      cases hplace
      exact ⟨parent, name, entries, rfl, above, missing, rfl⟩

theorem surfaceAt?_makeDirectory {made : Node}
    (h : FileTree.makeDirectory root path = .ok made) :
    root.surfaceAt? path = none ∧
      ∀ other, made.surfaceAt? other =
        if other = path then some .emptyDirectory else root.surfaceAt? other := by
  obtain ⟨parent, name, entries, rfl, above, missing, rfl⟩ := makeDirectory_ok clear plain h
  have absent := Node.surfaceAt?_eq_none_iff.mpr missing
  have free : root.surfaceAt? (parent ++ [name]) ≠ some .emptyDirectory := by
    rw [absent]
    nofun
  exact ⟨absent, Node.surfaceAt?_set_free free (Node.surfaceAt?_of_get? above) rfl⟩

theorem makeDirectory_of_absent {parent : Path} {name : String}
    {entries : List (String × Node)} (split : path = parent ++ [name]) (fits : Fits path)
    (above : root.get? parent = some (.directory entries)) (missing : root.get? path = none) :
    ∃ made, FileTree.makeDirectory root path = .ok made := by
  subst split
  rw [Node.get?_snoc, above] at missing
  unfold FileTree.makeDirectory
  rw [walk_of_fits clear plain fits, lead_of_missing fits.names above missing]
  exact ⟨_, rfl⟩

theorem isDirectoryAt_iff :
    FileTree.isDirectoryAt root path = true ↔
      Fits path ∧ root.surfaceAt? path = some .emptyDirectory := by
  unfold FileTree.isDirectoryAt
  rw [Node.surfaceAt?_eq_directory_iff]
  constructor
  · intro h
    split at h
    · rename_i node hstat
      obtain ⟨fits, found⟩ := (stat_eq_ok_iff clear plain).mp hstat
      cases node with
      | directory entries => exact ⟨fits, entries, found⟩
      | _ => cases h
    · cases h
  · rintro ⟨fits, entries, found⟩
    rw [(stat_eq_ok_iff clear plain).mpr ⟨fits, found⟩]
    rfl

theorem makeDirectories_of_directory (fits : Fits path)
    (there : root.surfaceAt? path = some .emptyDirectory) :
    FileTree.makeDirectories root path = (root, .ok ()) := by
  obtain ⟨entries, found⟩ := Node.surfaceAt?_eq_directory_iff.mp there
  have exists_ : FileTree.makeDirectory root path = .error .exists := by
    unfold FileTree.makeDirectory
    rw [walk_of_get? clear plain fits found]
    rfl
  rw [FileTree.makeDirectories.eq_def, exists_]
  simp only
  rw [if_pos ((isDirectoryAt_iff clear plain).mpr ⟨fits, there⟩)]

end Calls

/-! ## Directories on the way to a path -/

/-- Nothing has changed at the path, but that a directory may have been made there on the way to
`below`. -/
def Grown (below : Path) (before after : Node) (path : Path) : Prop :=
  after.surfaceAt? path = before.surfaceAt? path ∨
    path <+: below ∧ before.surfaceAt? path = none ∧ after.surfaceAt? path = some .emptyDirectory

namespace Grown

variable {below : Path} {before between after : Node}

theorem refl (below : Path) (before : Node) (path : Path) : Grown below before before path :=
  .inl rfl

theorem upTo {front : Path} (h : Grown front before after path) (isPrefix : front <+: below) :
    Grown below before after path :=
  h.imp_right fun made => ⟨made.1.trans isPrefix, made.2⟩

theorem here (h : Grown below before after path) : Grown path before after path :=
  h.imp_right fun made => ⟨List.prefix_rfl, made.2⟩

theorem trans (first : Grown below before between path) (second : Grown below between after path) :
    Grown below before after path := by
  rcases first with same | ⟨onTheWay, missing, made⟩
  · rcases second with still | ⟨onTheWay, missing, made⟩
    · exact .inl (still.trans same)
    · exact .inr ⟨onTheWay, same ▸ missing, made⟩
  · rcases second with still | ⟨-, absent, -⟩
    · exact .inr ⟨onTheWay, missing, still.trans made⟩
    · rw [made] at absent
      cases absent

theorem leafAt?_eq (h : Grown below before after path) :
    after.leafAt? path = before.leafAt? path := by
  rw [Node.leafAt?_eq, Node.leafAt?_eq]
  rcases h with same | ⟨-, missing, made⟩
  · rw [same]
  · rw [missing, made]
    rfl

theorem surfaceAt?_eq (h : Grown below before after path) (outside : ¬ path <+: below) :
    after.surfaceAt? path = before.surfaceAt? path :=
  h.resolve_right fun made => outside made.1

end Grown

theorem Clear.grown {below : Path} {after : Node} (h : Clear root path)
    (grown : ∀ other, Grown below root after other) : Clear after path :=
  fun front target isPrefix => (grown front).leafAt?_eq ▸ h front target isPrefix

theorem directory_of_open {node : Node} (found : root.get? path = some node)
    (open_ : root.leafAt? path = none) : ∃ entries, node = .directory entries := by
  cases node with
  | directory entries => exact ⟨entries, rfl⟩
  | _ =>
      unfold Node.leafAt? at open_
      rw [found] at open_
      cases open_

section Directories

variable (clear : Clear root path) (plain : IsPlain path)

include clear plain

theorem grown_makeDirectory {made : Node} (h : FileTree.makeDirectory root path = .ok made)
    (other : Path) : Grown path root made other := by
  obtain ⟨missing, surfaces⟩ := surfaceAt?_makeDirectory clear plain h
  unfold Grown
  rw [surfaces]
  split
  · rename_i here
    subst here
    exact .inr ⟨List.prefix_rfl, missing, rfl⟩
  · exact .inl rfl

theorem grown_makeDirectories (other : Path) :
    Grown path root (FileTree.makeDirectories root path).1 other := by
  induction hlength : path.length using Nat.strongRecOn generalizing path other with
  | ind length ih =>
      subst hlength
      rw [FileTree.makeDirectories.eq_def]
      split
      · rename_i made h
        exact grown_makeDirectory clear plain h other
      · cases path with
        | nil => exact .refl _ _ _
        | cons first rest =>
            have up : (first :: rest).dropLast <+: first :: rest := List.dropLast_prefix _
            have shorter : (first :: rest).dropLast.length < (first :: rest).length := by simp
            have grown := fun other =>
              (ih _ shorter (clear.upTo up) (plain.upTo up) other rfl).upTo up
            rcases hmade : FileTree.makeDirectories root (first :: rest).dropLast with
              ⟨above, result⟩
            rw [hmade] at grown
            simp only [hmade]
            cases result with
            | error error => exact grown other
            | ok _ =>
                simp only
                split
                · rename_i made hlast
                  exact (grown other).trans
                    (grown_makeDirectory (clear.grown grown) plain hlast other)
                · split <;> exact grown other
      · split <;> exact .refl _ _ _

theorem surfaceAt?_of_makeDirectories {made : Node}
    (h : FileTree.makeDirectories root path = (made, .ok ())) :
    Fits path ∧ made.surfaceAt? path = some .emptyDirectory := by
  have fresh : ∀ {tree after : Node}, Clear tree path →
      FileTree.makeDirectory tree path = .ok after →
      Fits path ∧ after.surfaceAt? path = some .emptyDirectory := by
    intro tree after treeClear hmade
    obtain ⟨-, surfaces⟩ := surfaceAt?_makeDirectory treeClear plain hmade
    unfold FileTree.makeDirectory at hmade
    obtain ⟨place, hwalk, -⟩ := ok_of_bind hmade
    exact ⟨(leads_of_walk treeClear plain hwalk).2, by rw [surfaces, if_pos rfl]⟩
  rw [FileTree.makeDirectories.eq_def] at h
  split at h
  · rename_i after hmade
    cases h
    exact fresh clear hmade
  · cases path with
    | nil => cases h
    | cons first rest =>
        have up : (first :: rest).dropLast <+: first :: rest := List.dropLast_prefix _
        have grown := grown_makeDirectories (clear.upTo up) (plain.upTo up)
        rcases habove : FileTree.makeDirectories root (first :: rest).dropLast with ⟨above, result⟩
        rw [habove] at grown
        simp only [habove] at h
        have clearAbove : Clear above (first :: rest) := clear.grown grown
        cases result with
        | error error => cases h
        | ok _ =>
            simp only at h
            split at h
            · rename_i after hlast
              cases h
              exact fresh clearAbove hlast
            · split at h
              · rename_i there
                cases h
                exact (isDirectoryAt_iff clearAbove plain).mp there
              · cases h
  · split at h
    · rename_i there
      cases h
      exact (isDirectoryAt_iff clear plain).mp there
    · cases h

theorem makeDirectories_of_open (fits : Fits path)
    (open_ : ∀ front, front <+: path → root.leafAt? front = none) :
    (FileTree.makeDirectories root path).2 = .ok () := by
  induction hlength : path.length using Nat.strongRecOn generalizing path with
  | ind length ih =>
      subst hlength
      cases hfound : root.get? path with
      | some node =>
          obtain ⟨entries, rfl⟩ := directory_of_open hfound (open_ path List.prefix_rfl)
          have there := Node.surfaceAt?_of_get? hfound
          rw [makeDirectories_of_directory clear plain fits there]
      | none =>
          cases path with
          | nil => cases hfound
          | cons first rest =>
              have split := (List.dropLast_concat_getLast (List.cons_ne_nil first rest)).symm
              have up : (first :: rest).dropLast <+: first :: rest := List.dropLast_prefix _
              have shorter : (first :: rest).dropLast.length < (first :: rest).length := by simp
              rw [FileTree.makeDirectories.eq_def]
              cases habove : root.get? (first :: rest).dropLast with
              | some node =>
                  obtain ⟨entries, rfl⟩ := directory_of_open habove (open_ _ up)
                  obtain ⟨made, hmade⟩ :=
                    makeDirectory_of_absent clear plain split fits habove hfound
                  rw [hmade]
              | none =>
                  have gap : FileTree.makeDirectory root (first :: rest) = .error .notFound := by
                    unfold FileTree.makeDirectory
                    rw [walk_of_fits clear plain fits, lead_of_gap habove fits.names open_]
                    rfl
                  have made := ih _ shorter (clear.upTo up) (plain.upTo up) (fits.upTo up)
                    (fun front isPrefix => open_ front (isPrefix.trans up)) rfl
                  have grown := grown_makeDirectories (clear.upTo up) (plain.upTo up)
                  rcases hup : FileTree.makeDirectories root (first :: rest).dropLast with
                    ⟨above, result⟩
                  rw [hup] at made grown
                  cases made
                  have there :=
                    (surfaceAt?_of_makeDirectories (clear.upTo up) (plain.upTo up) hup).2
                  obtain ⟨entries, directory⟩ := Node.surfaceAt?_eq_directory_iff.mp there
                  have outside : ¬ first :: rest <+: (first :: rest).dropLast := fun isPrefix =>
                    absurd isPrefix.length_le (Nat.not_le_of_lt shorter)
                  have missing : above.get? (first :: rest) = none := by
                    rw [← Node.surfaceAt?_eq_none_iff, (grown _).surfaceAt?_eq outside]
                    exact Node.surfaceAt?_eq_none_iff.mpr hfound
                  have clearAbove : Clear above (first :: rest) := clear.grown grown
                  obtain ⟨last, hlast⟩ :=
                    makeDirectory_of_absent clearAbove plain split fits directory missing
                  simp only [gap, hup, hlast]

end Directories

/-! ## Files -/

theorem directory_above {parent : Path} {name : String} {node : Node}
    (h : root.get? (parent ++ [name]) = some node) :
    ∃ entries, root.get? parent = some (.directory entries) := by
  rw [Node.get?_snoc] at h
  obtain ⟨above, there, child⟩ := Option.bind_eq_some_iff.mp h
  cases above with
  | directory entries => exact ⟨entries, there⟩
  | _ => cases child

theorem surfaceAt?_write {parent : Path} {name : String} {old : Bytes}
    (found : root.get? (parent ++ [name]) = some (.file old)) (contents : Bytes) (other : Path) :
    (FileTree.write root (parent ++ [name]) contents).surfaceAt? other =
      if other = parent ++ [name] then some (.file contents) else root.surfaceAt? other := by
  obtain ⟨entries, above⟩ := directory_above found
  have free : root.surfaceAt? (parent ++ [name]) ≠ some .emptyDirectory := by
    rw [Node.surfaceAt?_of_get? found]
    nofun
  unfold FileTree.write
  simp only [found]
  exact Node.surfaceAt?_set_free free (Node.surfaceAt?_of_get? above) rfl other

section Files

variable {parent : Path} {name : String} (clear : Clear root (parent ++ [name]))
  (plain : IsPlain (parent ++ [name]))

include clear plain

theorem create_ok {created : Node} {real : Path}
    (h : FileTree.create root (parent ++ [name]) = .ok (created, real)) :
    real = parent ++ [name] ∧ root.surfaceAt? (parent ++ [name]) ≠ some .emptyDirectory ∧
      ((∀ other, created.surfaceAt? other =
          if other = parent ++ [name] then some (.file []) else root.surfaceAt? other) ∨
        created = root ∧ root.get? (parent ++ [name]) = some .nullDevice) := by
  unfold FileTree.create at h
  obtain ⟨place, hwalk, hplace⟩ := ok_of_bind h
  obtain ⟨leads, -⟩ := leads_of_walk clear plain hwalk
  cases place with
  | present found node =>
      obtain ⟨rfl, found⟩ := leads
      have seen := Node.surfaceAt?_of_get? found
      cases node with
      | file contents =>
          cases hplace
          have free : root.surfaceAt? (parent ++ [name]) ≠ some .emptyDirectory := by
            rw [seen]
            nofun
          obtain ⟨entries, above⟩ := directory_above found
          exact ⟨rfl, free,
            .inl (Node.surfaceAt?_set_free free (Node.surfaceAt?_of_get? above) rfl)⟩
      | nullDevice =>
          cases hplace
          exact ⟨rfl, by rw [seen]; nofun, .inr ⟨rfl, found⟩⟩
      | _ => cases hplace
  | absent above last =>
      obtain ⟨same, missing, entries, directory⟩ := leads
      obtain ⟨rfl, -⟩ := List.append_inj' same rfl
      cases hplace
      rw [← same]
      have free : root.surfaceAt? (parent ++ [name]) ≠ some .emptyDirectory := by
        rw [Node.surfaceAt?_eq_none_iff.mpr missing]
        nofun
      exact ⟨rfl, free,
        .inl (Node.surfaceAt?_set_free free (Node.surfaceAt?_of_get? directory) rfl)⟩

theorem create_of_file (fits : Fits (parent ++ [name])) {contents : Bytes}
    (found : root.get? (parent ++ [name]) = some (.file contents)) :
    ∃ created, FileTree.create root (parent ++ [name]) = .ok (created, parent ++ [name]) := by
  unfold FileTree.create
  rw [walk_of_get? clear plain fits found]
  exact ⟨_, rfl⟩

theorem create_of_absent (fits : Fits (parent ++ [name])) {entries : List (String × Node)}
    (above : root.get? parent = some (.directory entries))
    (missing : root.get? (parent ++ [name]) = none) :
    ∃ created, FileTree.create root (parent ++ [name]) = .ok (created, parent ++ [name]) := by
  rw [Node.get?_snoc, above] at missing
  unfold FileTree.create
  rw [walk_of_fits clear plain fits, lead_of_missing fits.names above missing]
  exact ⟨_, rfl⟩

theorem remove_ok {removed : Node} (h : FileTree.remove root (parent ++ [name]) = .ok removed) :
    ∀ other, removed.surfaceAt? other =
      if other = parent ++ [name] then none else root.surfaceAt? other := by
  unfold FileTree.remove at h
  obtain ⟨place, hwalk, hplace⟩ := ok_of_bind h
  obtain ⟨leads, -⟩ := leads_of_walk clear plain hwalk
  cases place with
  | absent above last => cases hplace
  | present real node =>
      obtain ⟨rfl, found⟩ := leads
      simp only at hplace
      split at hplace
      · cases hplace
      · rename_i leaf
        rw [Bool.not_eq_true] at leaf
        cases hplace
        refine Node.surfaceAt?_erase_free ?_
        rw [Node.surfaceAt?_of_get? found, Node.surface_of_leaf leaf]
        rintro ⟨⟩
        cases leaf

theorem remove_of_file (fits : Fits (parent ++ [name])) {contents : Bytes}
    (found : root.get? (parent ++ [name]) = some (.file contents)) :
    ∃ removed, FileTree.remove root (parent ++ [name]) = .ok removed := by
  unfold FileTree.remove
  rw [walk_of_get? clear plain fits found]
  exact ⟨_, rfl⟩

section Rename

variable {target : String} (clearTarget : Clear root (parent ++ [target]))
  (plainTarget : IsPlain (parent ++ [target])) {contents : Bytes}
  (found : root.get? (parent ++ [name]) = some (.file contents))

include clearTarget plainTarget found

theorem rename_ok (differs : name ≠ target) {renamed : Node}
    (h : FileTree.rename root (parent ++ [name]) (parent ++ [target]) = .ok renamed) :
    Fits (parent ++ [target]) ∧ root.surfaceAt? (parent ++ [target]) ≠ some .emptyDirectory ∧
      ∀ other, renamed.surfaceAt? other =
        if other = parent ++ [target] then some (.file contents)
        else if other = parent ++ [name] then none else root.surfaceAt? other := by
  have paths : parent ++ [name] ≠ parent ++ [target] := fun same =>
    differs (List.singleton_inj.mp (List.append_cancel_left same))
  obtain ⟨entries, above⟩ := directory_above found
  have source : root.surfaceAt? (parent ++ [name]) ≠ some .emptyDirectory := by
    rw [Node.surfaceAt?_of_get? found]
    nofun
  have erased := Node.surfaceAt?_erase_free source
  have moved : root.surfaceAt? (parent ++ [target]) ≠ some .emptyDirectory →
      ∀ other, ((root.erase (parent ++ [name])).set (parent ++ [target])
          (.file contents)).surfaceAt? other =
        if other = parent ++ [target] then some (.file contents)
        else if other = parent ++ [name] then none else root.surfaceAt? other := by
    intro free other
    have kept : (root.erase (parent ++ [name])).surfaceAt? parent = some .emptyDirectory := by
      rw [erased, if_neg (by simp)]
      exact Node.surfaceAt?_of_get? above
    have stillFree : (root.erase (parent ++ [name])).surfaceAt? (parent ++ [target]) ≠
        some .emptyDirectory := by
      rwa [erased, if_neg paths.symm]
    rw [Node.surfaceAt?_set_free stillFree kept rfl, erased]
  unfold FileTree.rename at h
  obtain ⟨origin, hsource, hrest⟩ := ok_of_bind h
  obtain ⟨leads, -⟩ := leads_of_walk clear plain hsource
  cases origin with
  | absent directory last => cases hrest
  | present real node =>
      obtain ⟨rfl, there⟩ := leads
      cases found.symm.trans there
      obtain ⟨place, htarget, hplace⟩ := ok_of_bind hrest
      obtain ⟨leads, fits⟩ := leads_of_walk clearTarget plainTarget htarget
      cases place with
      | absent directory last =>
          obtain ⟨same, missing, -⟩ := leads
          cases hplace
          rw [← same]
          have free : root.surfaceAt? (parent ++ [target]) ≠ some .emptyDirectory := by
            rw [Node.surfaceAt?_eq_none_iff.mpr missing]
            nofun
          exact ⟨fits, free, moved free⟩
      | present destination existing =>
          obtain ⟨rfl, present⟩ := leads
          simp only [if_neg paths] at hplace
          split at hplace
          · cases hplace
          · rename_i leaf
            rw [Bool.not_eq_true] at leaf
            cases hplace
            have free : root.surfaceAt? (parent ++ [target]) ≠ some .emptyDirectory := by
              rw [Node.surfaceAt?_of_get? present, Node.surface_of_leaf leaf]
              rintro ⟨⟩
              cases leaf
            exact ⟨fits, free, moved free⟩

theorem rename_of_free (fits : Fits (parent ++ [name])) (fitsTarget : Fits (parent ++ [target]))
    (free : root.surfaceAt? (parent ++ [target]) ≠ some .emptyDirectory) :
    ∃ renamed, FileTree.rename root (parent ++ [name]) (parent ++ [target]) = .ok renamed := by
  obtain ⟨entries, above⟩ := directory_above found
  unfold FileTree.rename
  rw [walk_of_get? clear plain fits found]
  cases htarget : root.get? (parent ++ [target]) with
  | none =>
      rw [Node.get?_snoc, above] at htarget
      rw [walk_of_fits clearTarget plainTarget fitsTarget,
        lead_of_missing fitsTarget.names above htarget]
      exact ⟨_, rfl⟩
  | some existing =>
      rw [walk_of_get? clearTarget plainTarget fitsTarget htarget]
      have leaf : existing.isDirectory = false := by
        cases existing with
        | directory entries => exact absurd (Node.surfaceAt?_of_get? htarget) free
        | _ => rfl
      change ∃ renamed, (if existing.isDirectory then _ else _) = Except.ok renamed
      rw [leaf]
      simp only [Bool.false_eq_true, if_false]
      split
      · exact ⟨_, rfl⟩
      · exact ⟨_, rfl⟩

end Rename

end Files

end Outpost.Store
