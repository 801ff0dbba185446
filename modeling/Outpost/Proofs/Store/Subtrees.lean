import Mathlib.Algebra.GroupWithZero.Nat
import Mathlib.Data.List.Nodup
import Outpost.Proofs.Store.Recovery

/-!
# Trees within trees

A change below a node of a tree is a change of this node.  So the directories of a tree can be
swept one entry at a time, in any order.
-/

namespace Outpost.Store.Node

variable {entries : List (String × Node)} {root node child : Node} {path : Path} {name : String}

/-! ## Changes below a node -/

theorem setEntry_setEntry (name : String) (first second : Node)
    (entries : List (String × Node)) :
    setEntry name second (setEntry name first entries) = setEntry name second entries := by
  induction entries with
  | nil => simp [setEntry]
  | cons entry rest ih =>
      obtain ⟨other, kept⟩ := entry
      by_cases same : other = name
      · simp [setEntry, same]
      · simp [setEntry, same, ih]

theorem setEntry_of_child? (found : (directory entries).child? name = some node) :
    setEntry name node entries = entries := by
  induction entries with
  | nil => cases found
  | cons entry rest ih =>
      obtain ⟨other, kept⟩ := entry
      rw [child?_cons] at found
      rw [setEntry]
      by_cases same : other = name
      · rw [if_pos same] at found ⊢
        cases found
        rw [same]
      · rw [if_neg same] at found ⊢
        rw [ih found]

theorem set_cons_of_child? (found : (directory entries).child? name = some child) (rest : Path)
    (new : Node) : (directory entries).set (name :: rest) new =
      directory (setEntry name (child.set rest new) entries) := by
  cases rest with
  | nil =>
      rw [set]
      cases child <;> rfl
  | cons next rest =>
      rw [set_cons_cons, found]

theorem erase_cons_of_child? (found : (directory entries).child? name = some child) {rest : Path}
    (below : rest ≠ []) : (directory entries).erase (name :: rest) =
      directory (setEntry name (child.erase rest) entries) := by
  cases rest with
  | nil => exact absurd rfl below
  | cons next rest => rw [erase_cons_cons, found]

theorem set_nil (node new : Node) : node.set [] new = new := by
  cases node <;> rfl

theorem set_append (found : root.get? path = some node) (below : Path) (new : Node) :
    root.set (path ++ below) new = root.set path (node.set below new) := by
  induction path generalizing root with
  | nil =>
      cases found
      rw [List.nil_append, set_nil]
  | cons name rest ih =>
      obtain ⟨child, named, later⟩ := Option.bind_eq_some_iff.mp found
      cases root with
      | directory entries =>
          rw [List.cons_append, set_cons_of_child? named, set_cons_of_child? named, ih later]
      | _ => cases named

theorem erase_append (found : root.get? path = some node) {below : Path} (some : below ≠ []) :
    root.erase (path ++ below) = root.set path (node.erase below) := by
  induction path generalizing root with
  | nil =>
      cases found
      rw [List.nil_append, set_nil]
  | cons name rest ih =>
      obtain ⟨child, named, later⟩ := Option.bind_eq_some_iff.mp found
      cases root with
      | directory entries =>
          rw [List.cons_append, erase_cons_of_child? named (by simp [some]),
            set_cons_of_child? named, ih later]
      | _ => cases named

theorem set_of_get? (found : root.get? path = some node) : root.set path node = root := by
  induction path generalizing root with
  | nil =>
      cases found
      exact set_nil _ _
  | cons name rest ih =>
      obtain ⟨child, named, later⟩ := Option.bind_eq_some_iff.mp found
      cases root with
      | directory entries =>
          rw [set_cons_of_child? named, ih later, setEntry_of_child? named]
      | _ => cases named

theorem set_set (there : (root.get? path).isSome) (first second : Node) :
    (root.set path first).set path second = root.set path second := by
  obtain ⟨node, found⟩ := Option.isSome_iff_exists.mp there
  induction path generalizing root with
  | nil => rw [set_nil, set_nil]
  | cons name rest ih =>
      obtain ⟨child, named, later⟩ := Option.bind_eq_some_iff.mp found
      cases root with
      | directory entries =>
          have again : (directory (setEntry name (child.set rest first) entries)).child? name =
              some (child.set rest first) := by rw [child?_setEntry, if_pos rfl]
          rw [set_cons_of_child? named, set_cons_of_child? again, setEntry_setEntry,
            ih (by rw [later]; rfl) later, ← set_cons_of_child? named]
      | _ => cases named

/-! ## Trees by their entries -/

mutual

/-- What holds of everything but directories, and of a directory if it holds of all its entries,
holds of every tree. -/
theorem byEntries {motive : Node → Prop} (leaf : ∀ node, node.isDirectory = false → motive node)
    (inner : ∀ entries, (∀ entry ∈ entries, motive entry.2) → motive (.directory entries)) :
    ∀ node, motive node
  | .directory entries => inner entries (byEachEntry leaf inner entries)
  | .file _ | .link _ | .nullDevice => leaf _ rfl

theorem byEachEntry {motive : Node → Prop} (leaf : ∀ node, node.isDirectory = false → motive node)
    (inner : ∀ entries, (∀ entry ∈ entries, motive entry.2) → motive (.directory entries)) :
    ∀ entries : List (String × Node), ∀ entry ∈ entries, motive entry.2
  | [] => List.forall_mem_nil _
  | (_, node) :: rest =>
      List.forall_mem_cons.mpr ⟨byEntries leaf inner node, byEachEntry leaf inner rest⟩

end

theorem child?_of_mem (distinct : DistinctEntries entries) {entry : String × Node}
    (inside : entry ∈ entries) : (directory entries).child? entry.1 = some entry.2 := by
  induction entries with
  | nil => cases inside
  | cons first rest ih =>
      rw [DistinctEntries] at distinct
      rw [child?_cons]
      rcases List.mem_cons.mp inside with rfl | later
      · rw [if_pos rfl]
      · rw [if_neg (distinct.1 entry later).symm, ih distinct.2.2 later]

theorem split_of_mem (distinct : DistinctEntries entries) {entry : String × Node}
    (inside : entry ∈ entries) : ∃ front back, entries = front ++ entry :: back ∧
      (∀ other ∈ front, other.1 ≠ entry.1) ∧ ∀ other ∈ back, other.1 ≠ entry.1 := by
  induction entries with
  | nil => cases inside
  | cons first rest ih =>
      rw [DistinctEntries] at distinct
      rcases List.mem_cons.mp inside with rfl | later
      · exact ⟨[], rest, rfl, List.forall_mem_nil _, distinct.1⟩
      · obtain ⟨front, back, rfl, before, behind⟩ := ih distinct.2.2 later
        exact ⟨first :: front, back, rfl,
          List.forall_mem_cons.mpr ⟨(distinct.1 entry later).symm, before⟩, behind⟩

theorem setEntry_append {front : List (String × Node)} (absent : ∀ other ∈ front, other.1 ≠ name)
    (new : Node) (back : List (String × Node)) :
    setEntry name new (front ++ back) = front ++ setEntry name new back := by
  induction front with
  | nil => rfl
  | cons first rest ih =>
      rw [List.forall_mem_cons] at absent
      rw [List.cons_append, setEntry, if_neg absent.1, ih absent.2, List.cons_append]

theorem mem_of_child? (found : (directory entries).child? name = some node) :
    (name, node) ∈ entries := by
  rw [child?_directory, Option.map_eq_some_iff] at found
  obtain ⟨entry, found, rfl⟩ := found
  have same : entry.1 = name := by simpa using List.find?_some found
  exact same ▸ List.mem_of_find?_eq_some found

/-! ## Sweeping entry by entry -/

def isLeftoverEntry (entry : String × Node) : Bool := entry.2.isFile && isUnfinished entry.1

def sweepEntry (entry : String × Node) : Option (String × Node) :=
  if isLeftoverEntry entry then none else some (entry.1, entry.2.sweep.1)

theorem sweepEntries_fst (entries : List (String × Node)) :
    (sweepEntries entries).1 = entries.filterMap sweepEntry := by
  induction entries with
  | nil => rfl
  | cons entry rest ih =>
      obtain ⟨name, node⟩ := entry
      rw [sweepEntries, List.filterMap_cons, sweepEntry, isLeftoverEntry]
      simp only
      split
      · exact ih
      · rw [ih]

/-- How many unfinished files an entry is or holds. -/
def burden (entry : String × Node) : Nat := if isLeftoverEntry entry then 1 else entry.2.sweep.2

theorem sweepEntries_snd (entries : List (String × Node)) :
    (sweepEntries entries).2 = (entries.map burden).sum := by
  induction entries with
  | nil => rfl
  | cons entry rest ih =>
      obtain ⟨name, node⟩ := entry
      rw [sweepEntries, List.map_cons, List.sum_cons, burden, isLeftoverEntry, ← ih]
      simp only
      split
      · rw [Nat.add_comm]
      · rfl

theorem sweep_of_leaf (leaf : node.isDirectory = false) : node.sweep = (node, 0) := by
  cases node with
  | directory entries => cases leaf
  | _ => rfl

def sweepIf (done : List String) (entry : String × Node) : Option (String × Node) :=
  if entry.1 ∈ done then sweepEntry entry else some entry

def sweepOnly (done : List String) (entries : List (String × Node)) : List (String × Node) :=
  entries.filterMap (sweepIf done)

section Entry

variable {done : List String} {entry other : String × Node}

theorem fst_sweepIf {swept : String × Node} (h : sweepIf done entry = some swept) :
    swept.1 = entry.1 := by
  unfold sweepIf sweepEntry at h
  repeat' split at h
  all_goals cases h
  · rfl
  · rfl

theorem sweepIf_cons_of_ne (differs : other.1 ≠ name) :
    sweepIf (name :: done) other = sweepIf done other := by
  simp [sweepIf, differs]

theorem sweepIf_cons_self : sweepIf (entry.1 :: done) entry = sweepEntry entry := by
  simp [sweepIf]

theorem sweepOnly_cons_of_absent (absent : ∀ other ∈ entries, other.1 ≠ name) :
    sweepOnly (name :: done) entries = sweepOnly done entries :=
  List.filterMap_congr fun _ inside => sweepIf_cons_of_ne (absent _ inside)

theorem sweepOnly_nil (entries : List (String × Node)) : sweepOnly [] entries = entries :=
  List.filterMap_some

theorem fst_of_mem_sweepOnly {swept : String × Node} (h : swept ∈ sweepOnly done entries) :
    ∃ entry ∈ entries, swept.1 = entry.1 := by
  obtain ⟨entry, inside, step⟩ := List.mem_filterMap.mp h
  exact ⟨entry, inside, fst_sweepIf step⟩

theorem sweepEntry_of_kept (kept : isLeftoverEntry entry = false) :
    sweepEntry entry = some (entry.1, entry.2.sweep.1) := by
  unfold sweepEntry
  rw [kept]
  rfl

theorem sweepOnly_all (all : ∀ entry ∈ entries, entry.1 ∈ done) :
    sweepOnly done entries = (sweepEntries entries).1 := by
  rw [sweepEntries_fst]
  exact List.filterMap_congr fun entry inside => if_pos (all entry inside)

end Entry

section Distinct

variable (distinct : DistinctEntries entries) {done : List String} {entry : String × Node}

include distinct

theorem child?_sweepOnly (fresh : name ∉ done) :
    (directory (sweepOnly done entries)).child? name = (directory entries).child? name := by
  induction entries with
  | nil => rfl
  | cons first rest ih =>
      rw [DistinctEntries] at distinct
      have later := ih distinct.2.2
      rw [sweepOnly, List.filterMap_cons]
      by_cases here : first.1 = name
      · rw [sweepIf, if_neg (here ▸ fresh)]
        simp only
        rw [child?_cons, child?_cons, if_pos here, if_pos here]
      · rw [child?_cons, if_neg here]
        split
        · exact later
        · rename_i swept hswept
          rw [child?_cons, if_neg (fst_sweepIf hswept ▸ here)]
          exact later

theorem sweepOnly_split (done : List String) (inside : entry ∈ entries) : ∃ front back,
    (∀ other ∈ front ++ back, other.1 ≠ entry.1) ∧
      sweepOnly done entries = front ++ ((sweepIf done entry).toList ++ back) ∧
      sweepOnly (entry.1 :: done) entries = front ++ ((sweepEntry entry).toList ++ back) := by
  obtain ⟨front, back, rfl, before, behind⟩ := split_of_mem distinct inside
  have around : ∀ names, sweepOnly names (front ++ entry :: back) =
      sweepOnly names front ++ ((sweepIf names entry).toList ++ sweepOnly names back) := by
    intro names
    unfold sweepOnly
    rw [List.filterMap_append, List.filterMap_cons]
    cases sweepIf names entry <;> rfl
  refine ⟨sweepOnly done front, sweepOnly done back, ?_, around done, ?_⟩
  · rw [List.forall_mem_append]
    constructor
    · intro swept among
      obtain ⟨other, there, same⟩ := fst_of_mem_sweepOnly among
      exact same ▸ before other there
    · intro swept among
      obtain ⟨other, there, same⟩ := fst_of_mem_sweepOnly among
      exact same ▸ behind other there
  · rw [around, sweepIf_cons_self, sweepOnly_cons_of_absent before,
      sweepOnly_cons_of_absent behind]

theorem filter_sweepOnly (inside : entry ∈ entries) (leftover : isLeftoverEntry entry = true) :
    ((sweepOnly done entries).filter fun other => other.1 ≠ entry.1) =
      sweepOnly (entry.1 :: done) entries := by
  obtain ⟨front, back, absent, before, after⟩ := sweepOnly_split distinct done inside
  rw [List.forall_mem_append] at absent
  have stays : ∀ others : List (String × Node), (∀ other ∈ others, other.1 ≠ entry.1) →
      (others.filter fun other => other.1 ≠ entry.1) = others := fun others absent =>
    List.filter_eq_self.mpr fun other among => decide_eq_true (absent other among)
  have goes : ((sweepIf done entry).toList.filter fun other => other.1 ≠ entry.1) = [] := by
    rw [List.filter_eq_nil_iff]
    intro swept among
    rw [fst_sweepIf (Option.mem_toList.mp among)]
    simp
  have gone : sweepEntry entry = none := by
    unfold sweepEntry
    rw [if_pos leftover]
  rw [before, after, List.filter_append, List.filter_append, stays _ absent.1, stays _ absent.2,
    goes, gone]
  rfl

theorem setEntry_sweepOnly (inside : entry ∈ entries) (kept : isLeftoverEntry entry = false) :
    setEntry entry.1 entry.2.sweep.1 (sweepOnly done entries) =
      sweepOnly (entry.1 :: done) entries := by
  obtain ⟨front, back, absent, before, after⟩ := sweepOnly_split distinct done inside
  have there : ∃ node, sweepIf done entry = some (entry.1, node) := by
    unfold sweepIf
    split
    · exact ⟨_, sweepEntry_of_kept kept⟩
    · exact ⟨entry.2, rfl⟩
  obtain ⟨node, step⟩ := there
  rw [before, after, setEntry_append (List.forall_mem_append.mp absent).1, step,
    sweepEntry_of_kept kept]
  simp [setEntry]

theorem sweepOnly_cons_of_leaf (inside : entry ∈ entries)
    (kept : isLeftoverEntry entry = false) (leaf : entry.2.isDirectory = false) :
    sweepOnly (entry.1 :: done) entries = sweepOnly done entries := by
  obtain ⟨front, back, -, before, after⟩ := sweepOnly_split distinct done inside
  have unchanged : sweepEntry entry = some entry := by
    rw [sweepEntry_of_kept kept, sweep_of_leaf leaf]
  have step : sweepIf done entry = some entry := by
    unfold sweepIf
    rw [unchanged, ite_self]
  rw [before, after, step, unchanged]

end Distinct

/-! ## Unfinished files by path -/

mutual

def leftovers : Node → List Path
  | .directory entries => leftoversOf entries
  | _ => []

def leftoversOf : List (String × Node) → List Path
  | [] => []
  | (name, node) :: rest =>
      (if isLeftoverEntry (name, node) then [[name]] else node.leftovers.map (name :: ·)) ++
        leftoversOf rest

end

mutual

theorem length_leftovers : ∀ node : Node, node.leftovers.length = node.sweep.2
  | .directory entries => by
      rw [leftovers, length_leftoversOf entries, sweep]
  | .file _ | .link _ | .nullDevice => rfl

theorem length_leftoversOf : ∀ entries : List (String × Node),
    (leftoversOf entries).length = (sweepEntries entries).2
  | [] => rfl
  | (name, node) :: rest => by
      rw [leftoversOf, List.length_append, length_leftoversOf rest, sweepEntries_snd,
        sweepEntries_snd, List.map_cons, List.sum_cons, burden]
      split
      · rfl
      · rw [List.length_map, length_leftovers node]

end

theorem mem_leftoversOf {path : Path} : path ∈ leftoversOf entries ↔
    ∃ entry ∈ entries, ∃ rest, path = entry.1 :: rest ∧
      if isLeftoverEntry entry then rest = [] else rest ∈ entry.2.leftovers := by
  induction entries with
  | nil => simp [leftoversOf]
  | cons first others ih =>
      obtain ⟨name, node⟩ := first
      rw [leftoversOf, List.mem_append, ih, List.exists_mem_cons_iff]
      refine or_congr ?_ Iff.rfl
      by_cases leftover : isLeftoverEntry (name, node) = true
      · simp only [if_pos leftover, List.mem_singleton, exists_eq_right]
      · simp only [if_neg leftover, List.mem_map]
        constructor
        · rintro ⟨rest, inside, rfl⟩
          exact ⟨rest, rfl, inside⟩
        · rintro ⟨rest, rfl, inside⟩
          exact ⟨rest, inside, rfl⟩

theorem mem_leftoversOf_cons (distinct : DistinctEntries entries) {rest : Path} :
    name :: rest ∈ leftoversOf entries ↔
      ∃ child, (directory entries).child? name = some child ∧
        if isLeftoverEntry (name, child) then rest = [] else rest ∈ child.leftovers := by
  rw [mem_leftoversOf]
  constructor
  · rintro ⟨⟨_, child⟩, inside, _, same, below⟩
    cases same
    exact ⟨child, child?_of_mem distinct inside, below⟩
  · rintro ⟨child, found, below⟩
    exact ⟨(name, child), mem_of_child? found, rest, rfl, below⟩

theorem mem_leftovers (distinct : node.Distinct) {path : Path} : path ∈ node.leftovers ↔
    ∃ contents, node.get? path = some (.file contents) ∧
      path.getLast?.any isUnfinished = true := by
  induction path generalizing node with
  | nil =>
      have nowhere : [] ∉ node.leftovers := by
        cases node with
        | directory entries =>
            rw [leftovers, mem_leftoversOf]
            rintro ⟨entry, -, rest, same, -⟩
            cases same
        | _ => exact List.not_mem_nil
      simp [nowhere]
  | cons name rest ih =>
      cases node with
      | directory entries =>
          rw [leftovers, mem_leftoversOf_cons (distinct_directory.mp distinct), get?]
          cases found : (directory entries).child? name with
          | none => simp
          | some child =>
              have below := ih (distinct.child found)
              simp only [Option.some.injEq, exists_eq_left', Option.bind_some]
              cases hleft : isLeftoverEntry (name, child) with
              | true =>
                  obtain ⟨isFile, unfinished⟩ := Bool.and_eq_true_iff.mp hleft
                  cases child with
                  | file contents => cases rest <;> simp_all [get?, child?]
                  | _ => cases isFile
              | false =>
                  cases rest with
                  | nil =>
                      have kept : ∀ contents, child = .file contents →
                          isUnfinished name = false := by
                        rintro contents rfl
                        exact hleft
                      simp only [below, get?, Option.some.injEq]
                      constructor
                      · rintro ⟨contents, -, ⟨⟩⟩
                      · rintro ⟨contents, here, unfinished⟩
                        cases (kept contents here).symm.trans unfinished
                  | cons next more => simpa [List.getLast?_cons_cons] using below
      | _ => simp [leftovers, get?, child?]

mutual

theorem nodup_leftovers : ∀ node : Node, node.Distinct → node.leftovers.Nodup
  | .directory entries, distinct => nodup_leftoversOf entries (distinct_directory.mp distinct)
  | .file _, _ | .link _, _ | .nullDevice, _ => List.nodup_nil

theorem nodup_leftoversOf : ∀ entries : List (String × Node),
    DistinctEntries entries → (leftoversOf entries).Nodup
  | [], _ => List.nodup_nil
  | (name, node) :: rest, distinct => by
      rw [DistinctEntries] at distinct
      obtain ⟨unlike, nodeDistinct, restDistinct⟩ := distinct
      rw [leftoversOf, List.nodup_append]
      refine ⟨?_, nodup_leftoversOf rest restDistinct, ?_⟩
      · split
        · exact List.nodup_singleton _
        · exact (nodup_leftovers node nodeDistinct).map fun _ _ same => (List.cons.inj same).2
      · rintro path here other there rfl
        obtain ⟨entry, inside, below, rfl, -⟩ := mem_leftoversOf.mp there
        refine unlike entry inside ?_
        split at here
        · exact (List.cons.inj (List.mem_singleton.mp here)).1
        · obtain ⟨_, -, same⟩ := List.mem_map.mp here
          exact (List.cons.inj same).1.symm

end

/-! ## Swept trees -/

theorem isFile_sweep (node : Node) : node.sweep.1.isFile = node.isFile := by
  rw [← isFile_surface, surface_sweep, isFile_surface]

mutual

theorem sweep_sweep : ∀ node : Node, node.sweep.1.sweep = (node.sweep.1, 0)
  | .directory entries => by
      rw [sweep_directory, sweep, sweepEntries_sweepEntries entries]
  | .file _ | .link _ | .nullDevice => rfl

theorem sweepEntries_sweepEntries : ∀ entries : List (String × Node),
    sweepEntries (sweepEntries entries).1 = ((sweepEntries entries).1, 0)
  | [] => rfl
  | (name, node) :: rest => by
      have ih := sweepEntries_sweepEntries rest
      have own := sweep_sweep node
      rw [sweepEntries]
      simp only
      split
      · exact ih
      · rename_i kept
        rw [← isFile_sweep] at kept
        rw [sweepEntries]
        simp only [if_neg kept, ih, own]

end

end Outpost.Store.Node
