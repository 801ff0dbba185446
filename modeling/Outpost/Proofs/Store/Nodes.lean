import Outpost.Store.FileTree

/-!
# Trees by path

What a change at one path of a tree does to the nodes at other paths.  Directories change with
all that is below them, so what is said is said of leaves: files, links and devices.
-/

namespace Outpost.Store.Node

/-! ## Entries -/

theorem child?_directory (entries : List (String × Node)) (name : String) :
    (directory entries).child? name =
      (entries.find? fun entry => entry.1 == name).map (·.2) := rfl

theorem child?_cons (name other : String) (node : Node) (rest : List (String × Node)) :
    (directory ((name, node) :: rest)).child? other =
      if name = other then some node else (directory rest).child? other := by
  rw [child?_directory, child?_directory]
  by_cases h : name = other <;> simp [h]

theorem child?_setEntry (entries : List (String × Node)) (name other : String) (node : Node) :
    (directory (setEntry name node entries)).child? other =
      if name = other then some node else (directory entries).child? other := by
  induction entries with
  | nil => exact child?_cons name other node []
  | cons entry rest ih =>
      obtain ⟨first, kept⟩ := entry
      unfold setEntry
      by_cases hfirst : first = name
      · rw [if_pos hfirst, child?_cons, child?_cons, hfirst]
        split <;> rfl
      · rw [if_neg hfirst, child?_cons, child?_cons, ih]
        by_cases hother : first = other
        · rw [if_pos hother, if_pos hother, if_neg (fun h => hfirst (hother.trans h.symm))]
        · rw [if_neg hother, if_neg hother]

theorem child?_filter (entries : List (String × Node)) (name other : String) :
    (directory (entries.filter fun entry => entry.1 ≠ name)).child? other =
      if name = other then none else (directory entries).child? other := by
  rw [child?_directory, child?_directory, List.find?_filter]
  split
  · rename_i same
    subst same
    simp
  · rename_i differs
    congr 2
    funext entry
    by_cases h : entry.1 = other <;> simp [h, Ne.symm differs]

/-! ## Paths -/

theorem get?_append (root : Node) (above below : Path) :
    root.get? (above ++ below) = (root.get? above).bind fun node => node.get? below := by
  induction above generalizing root with
  | nil => rfl
  | cons name rest ih =>
      simp only [List.cons_append, get?]
      cases root.child? name with
      | none => rfl
      | some child => exact ih child

theorem get?_snoc (root : Node) (above : Path) (name : String) :
    root.get? (above ++ [name]) = (root.get? above).bind fun node => node.child? name := by
  rw [get?_append]
  congr 1
  funext node
  simp only [get?]
  cases node.child? name <;> rfl

def leafAt? (root : Node) (path : Path) : Option Node :=
  (root.get? path).filter fun node => !node.isDirectory

theorem get?_eq_file_iff {root : Node} {path : Path} {contents : Bytes} :
    root.get? path = some (.file contents) ↔ root.leafAt? path = some (.file contents) := by
  unfold leafAt?
  rw [Option.filter_eq_some_iff]
  exact ⟨fun h => ⟨h, rfl⟩, fun h => h.1⟩

theorem leafAt?_cons (root : Node) (name : String) (rest : Path) :
    root.leafAt? (name :: rest) = (root.child? name).bind fun child => child.leafAt? rest := by
  unfold leafAt?
  simp only [get?]
  cases root.child? name <;> rfl

/-! ## What is seen at a path -/

def surface : Node → Node
  | .directory _ => emptyDirectory
  | other => other

def surfaceAt? (root : Node) (path : Path) : Option Node := (root.get? path).map surface

theorem surface_of_isDirectory {node : Node} (h : node.isDirectory = true) :
    node.surface = emptyDirectory := by
  cases node with
  | directory entries => rfl
  | _ => cases h

theorem surface_of_leaf {node : Node} (h : node.isDirectory = false) : node.surface = node := by
  cases node with
  | directory entries => cases h
  | _ => rfl

theorem surfaceAt?_cons (root : Node) (name : String) (rest : Path) :
    root.surfaceAt? (name :: rest) =
      (root.child? name).bind fun child => child.surfaceAt? rest := by
  unfold surfaceAt?
  simp only [get?]
  cases root.child? name <;> rfl

theorem surfaceAt?_of_get? {root node : Node} {path : Path} (h : root.get? path = some node) :
    root.surfaceAt? path = some node.surface := by
  unfold surfaceAt?
  rw [h]
  rfl

theorem surfaceAt?_eq_none_iff {root : Node} {path : Path} :
    root.surfaceAt? path = none ↔ root.get? path = none := Option.map_eq_none_iff

theorem surfaceAt?_eq_directory_iff {root : Node} {path : Path} :
    root.surfaceAt? path = some emptyDirectory ↔
      ∃ entries, root.get? path = some (.directory entries) := by
  unfold surfaceAt?
  cases root.get? path with
  | none => exact ⟨nofun, nofun⟩
  | some node =>
      cases node with
      | directory entries => exact ⟨fun _ => ⟨entries, rfl⟩, fun _ => rfl⟩
      | _ => exact ⟨nofun, nofun⟩

theorem surfaceAt?_eq_leaf_iff {root leaf : Node} {path : Path}
    (h : leaf.isDirectory = false) :
    root.surfaceAt? path = some leaf ↔ root.get? path = some leaf := by
  unfold surfaceAt?
  cases root.get? path with
  | none => exact ⟨nofun, nofun⟩
  | some node =>
      cases node with
      | directory entries =>
          constructor <;>
          · rintro ⟨⟩
            cases h
      | _ => exact Iff.rfl

theorem leafAt?_eq (root : Node) (path : Path) :
    root.leafAt? path = (root.surfaceAt? path).filter fun node => !node.isDirectory := by
  unfold leafAt? surfaceAt?
  cases root.get? path with
  | none => rfl
  | some node => cases node <;> rfl

theorem leafAt?_of_directory {root : Node} {path : Path}
    (h : root.surfaceAt? path = some emptyDirectory) : root.leafAt? path = none := by
  rw [leafAt?_eq, h]
  rfl

theorem surfaceAt?_below {root : Node} {path rest : Path}
    (leaf : root.surfaceAt? path ≠ some emptyDirectory) (below : rest ≠ []) :
    root.surfaceAt? (path ++ rest) = none := by
  rw [surfaceAt?_eq_none_iff, get?_append]
  cases found : root.get? path with
  | none => rfl
  | some node =>
      cases node with
      | directory entries => exact absurd (surfaceAt?_of_get? found) leaf
      | _ =>
          cases rest with
          | nil => exact absurd rfl below
          | cons name rest => rfl

theorem surfaceAt?_above {root : Node} {path rest : Path}
    (there : root.surfaceAt? (path ++ rest) ≠ none) (below : rest ≠ []) :
    root.surfaceAt? path = some emptyDirectory :=
  Classical.byContradiction fun leaf => there (surfaceAt?_below leaf below)

/-! ## Putting a node at a path -/

theorem set_cons_cons (entries : List (String × Node)) (name next : String) (rest : Path)
    (node : Node) :
    (directory entries).set (name :: next :: rest) node =
      match (directory entries).child? name with
      | none => directory entries
      | some child => directory (setEntry name (child.set (next :: rest) node) entries) := by
  rw [set]
  rfl

theorem child?_set (entries : List (String × Node)) (name other : String) (rest : Path)
    (node : Node) :
    ((directory entries).set (name :: rest) node).child? other =
      if name = other then
        if rest = [] then some node
        else ((directory entries).child? name).map fun child => child.set rest node
      else (directory entries).child? other := by
  cases rest with
  | nil => exact child?_setEntry entries name other node
  | cons next rest =>
      rw [set_cons_cons, if_neg (List.cons_ne_nil next rest)]
      cases hchild : (directory entries).child? name with
      | none =>
          simp only
          split
          · rename_i same
            exact same ▸ hchild
          · rfl
      | some child => exact child?_setEntry entries name other _

theorem isDirectory_set_cons (entries : List (String × Node)) (name : String) (rest : Path)
    (node : Node) : ((directory entries).set (name :: rest) node).isDirectory = true := by
  cases rest with
  | nil => rfl
  | cons next rest =>
      rw [set_cons_cons]
      split <;> rfl

theorem set_cons_of_not_isDirectory {root : Node} (h : root.isDirectory = false) (name : String)
    (rest : Path) (node : Node) : root.set (name :: rest) node = root := by
  cases root with
  | directory entries => cases h
  | _ => cases rest <;> rfl

theorem surfaceAt?_nil (root : Node) : root.surfaceAt? [] = some root.surface := rfl

theorem surfaceAt?_set {path other : Path} (h : ¬ path <+: other) (root node : Node) :
    (root.set path node).surfaceAt? other = root.surfaceAt? other := by
  induction path generalizing root other with
  | nil => exact absurd List.nil_prefix h
  | cons name rest ih =>
      cases root with
      | directory entries =>
          cases other with
          | nil =>
              have still := isDirectory_set_cons entries name rest node
              rw [surfaceAt?_nil, surfaceAt?_nil, surface_of_isDirectory still]
              rfl
          | cons first more =>
              rw [surfaceAt?_cons, surfaceAt?_cons, child?_set]
              by_cases hname : name = first
              · subst hname
                rw [List.cons_prefix_cons, not_and] at h
                have below := h rfl
                have inner : rest ≠ [] := fun hrest => below (hrest ▸ List.nil_prefix)
                rw [if_pos rfl, if_neg inner]
                cases (directory entries).child? name with
                | none => rfl
                | some child => exact ih below child
              · rw [if_neg hname]
      | _ => rw [set_cons_of_not_isDirectory rfl]

theorem get?_set {root : Node} {above : Path} {entries : List (String × Node)}
    (h : root.get? above = some (.directory entries)) (name : String) (node : Node)
    (below : Path) :
    (root.set (above ++ [name]) node).get? (above ++ [name] ++ below) = node.get? below := by
  induction above generalizing root with
  | nil =>
      cases h
      simp only [List.nil_append, List.cons_append, get?]
      rw [child?_set, if_pos rfl, if_pos rfl]
      rfl
  | cons first rest ih =>
      cases root with
      | directory rootEntries =>
          simp only [List.cons_append, get?] at h ⊢
          rw [child?_set, if_pos rfl, if_neg (by simp)]
          cases hchild : (directory rootEntries).child? first with
          | none =>
              rw [hchild] at h
              cases h
          | some child =>
              rw [hchild] at h
              exact ih h
      | _ => cases h

theorem get?_set_self {root : Node} {path : Path} (h : (root.get? path).isSome) (node : Node) :
    (root.set path node).get? path = some node := by
  induction path generalizing root with
  | nil => cases root <;> rfl
  | cons name rest ih =>
      cases root with
      | directory entries =>
          simp only [get?] at h ⊢
          rw [child?_set, if_pos rfl]
          by_cases last : rest = []
          · subst last
            rw [if_pos rfl]
            rfl
          · rw [if_neg last]
            cases hchild : (directory entries).child? name with
            | none =>
                rw [hchild] at h
                cases h
            | some child =>
                rw [hchild] at h
                exact ih h
      | _ => cases h

/-! ## Taking a node away -/

theorem erase_cons_cons (entries : List (String × Node)) (name next : String) (rest : Path) :
    (directory entries).erase (name :: next :: rest) =
      match (directory entries).child? name with
      | none => directory entries
      | some child => directory (setEntry name (child.erase (next :: rest)) entries) := by
  rw [erase]
  rfl

theorem child?_erase (entries : List (String × Node)) (name other : String) (rest : Path) :
    ((directory entries).erase (name :: rest)).child? other =
      if name = other then
        if rest = [] then none
        else ((directory entries).child? name).map fun child => child.erase rest
      else (directory entries).child? other := by
  cases rest with
  | nil => exact child?_filter entries name other
  | cons next rest =>
      rw [erase_cons_cons, if_neg (List.cons_ne_nil next rest)]
      cases hchild : (directory entries).child? name with
      | none =>
          simp only
          split
          · rename_i same
            exact same ▸ hchild
          · rfl
      | some child => exact child?_setEntry entries name other _

theorem isDirectory_erase_cons (entries : List (String × Node)) (name : String) (rest : Path) :
    ((directory entries).erase (name :: rest)).isDirectory = true := by
  cases rest with
  | nil => rfl
  | cons next rest =>
      rw [erase_cons_cons]
      split <;> rfl

theorem erase_cons_of_not_isDirectory {root : Node} (h : root.isDirectory = false)
    (name : String) (rest : Path) : root.erase (name :: rest) = root := by
  cases root with
  | directory entries => cases h
  | _ => cases rest <;> rfl

theorem surfaceAt?_erase {path other : Path} (h : ¬ path <+: other) (root : Node) :
    (root.erase path).surfaceAt? other = root.surfaceAt? other := by
  induction path generalizing root other with
  | nil => exact absurd List.nil_prefix h
  | cons name rest ih =>
      cases root with
      | directory entries =>
          cases other with
          | nil =>
              have still := isDirectory_erase_cons entries name rest
              rw [surfaceAt?_nil, surfaceAt?_nil, surface_of_isDirectory still]
              rfl
          | cons first more =>
              rw [surfaceAt?_cons, surfaceAt?_cons, child?_erase]
              by_cases hname : name = first
              · subst hname
                rw [List.cons_prefix_cons, not_and] at h
                have below := h rfl
                have inner : rest ≠ [] := fun hrest => below (hrest ▸ List.nil_prefix)
                rw [if_pos rfl, if_neg inner]
                cases (directory entries).child? name with
                | none => rfl
                | some child => exact ih below child
              · rw [if_neg hname]
      | _ => rw [erase_cons_of_not_isDirectory rfl]

theorem get?_erase (root : Node) (above : Path) (name : String) (below : Path) :
    (root.erase (above ++ [name])).get? (above ++ [name] ++ below) = none := by
  induction above generalizing root with
  | nil =>
      cases root with
      | directory entries =>
          simp only [List.nil_append, List.cons_append, get?]
          rw [child?_erase, if_pos rfl, if_pos rfl]
          rfl
      | _ => rfl
  | cons first rest ih =>
      cases root with
      | directory entries =>
          simp only [List.cons_append, get?]
          rw [child?_erase, if_pos rfl, if_neg (by simp)]
          cases (directory entries).child? first with
          | none => rfl
          | some child => exact ih child
      | _ =>
          rw [List.cons_append, erase_cons_of_not_isDirectory rfl]
          rfl

/-! ## Changes at one path only -/

section OnePath

variable {root : Node} {above : Path} {name : String}
  (free : root.surfaceAt? (above ++ [name]) ≠ some emptyDirectory)

include free

theorem surfaceAt?_set_free (there : root.surfaceAt? above = some emptyDirectory) {node : Node}
    (bare : node.surface = node) (other : Path) :
    (root.set (above ++ [name]) node).surfaceAt? other =
      if other = above ++ [name] then some node else root.surfaceAt? other := by
  by_cases below : above ++ [name] <+: other
  · obtain ⟨rest, rfl⟩ := below
    obtain ⟨entries, directory⟩ := surfaceAt?_eq_directory_iff.mp there
    have after := get?_set directory name node rest
    cases rest with
    | nil =>
        rw [List.append_nil] at after ⊢
        rw [if_pos rfl, surfaceAt?_of_get? after, bare]
    | cons first more =>
        rw [if_neg (by simp), surfaceAt?_below free (List.cons_ne_nil first more),
          surfaceAt?_eq_none_iff, after]
        cases node with
        | directory entries =>
            cases bare
            rfl
        | _ => rfl
  · have elsewhere : other ≠ above ++ [name] := fun same => below (same ▸ List.prefix_rfl)
    rw [surfaceAt?_set below, if_neg elsewhere]

theorem surfaceAt?_erase_free (other : Path) :
    (root.erase (above ++ [name])).surfaceAt? other =
      if other = above ++ [name] then none else root.surfaceAt? other := by
  by_cases below : above ++ [name] <+: other
  · obtain ⟨rest, rfl⟩ := below
    have gone := surfaceAt?_eq_none_iff.mpr (get?_erase root above name rest)
    cases rest with
    | nil => rw [gone, if_pos (List.append_nil _)]
    | cons first more =>
        rw [gone, if_neg (by simp), surfaceAt?_below free (List.cons_ne_nil first more)]
  · have elsewhere : other ≠ above ++ [name] := fun same => below (same ▸ List.prefix_rfl)
    rw [surfaceAt?_erase below, if_neg elsewhere]

end OnePath

end Outpost.Store.Node
