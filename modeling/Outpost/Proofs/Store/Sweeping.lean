import Mathlib.Logic.Relation
import Outpost.Proofs.Store.Links
import Outpost.Proofs.Store.Subtrees

/-!
# Sweeping directories

A recovery goes through the directories with a stack of those that it has not read yet, and removes
the unfinished files of each while the rest of the tree is still there.  In whatever order the
system lists a directory, the loop ends with the tree that has lost all unfinished files at once.
-/

namespace Outpost.Store

open Node

/-! ## The loop -/

def FileTree.readDirectory (root : Node) (path : Path) : Except OsError (List (String × Node)) :=
  match FileTree.stat root path with
  | .ok (.directory entries) => .ok entries
  | .ok _ => .error .notDirectory
  | .error error => .error error

/-- The order in which the system gives the entries of a directory. -/
structure Listing where
  order : Path → List (String × Node) → List (String × Node)
  perm : ∀ path entries, (order path entries).Perm entries

def located (path : Path) (entries : List (String × Node)) : List (Path × Node) :=
  entries.map fun entry => (path ++ [entry.1], entry.2)

structure Sweeping where
  tree : Node
  unread : List Path
  entries : List (Path × Node)
  removed : Nat

namespace Sweeping

/-- The next turn of the loop, or how it ends. -/
def step (listing : Listing) (sweeping : Sweeping) :
    Except (Node × Except StoreError Nat) Sweeping :=
  match sweeping.entries with
  | (path, node) :: entries =>
      if node.isDirectory then .ok { sweeping with entries, unread := path :: sweeping.unread }
      else if node.isFile && path.getLast?.any isUnfinished then
        match FileTree.remove sweeping.tree path with
        | .ok tree => .ok { sweeping with tree, entries, removed := sweeping.removed + 1 }
        | .error error => .error (sweeping.tree, .error (.system error))
      else .ok { sweeping with entries }
  | [] =>
      match sweeping.unread with
      | [] => .error (sweeping.tree, .ok sweeping.removed)
      | path :: unread =>
          match FileTree.readDirectory sweeping.tree path with
          | .ok found =>
              .ok { sweeping with unread, entries := located path (listing.order path found) }
          | .error error => .error (sweeping.tree, .error (.system error))

def Reaches (listing : Listing) : Sweeping → Sweeping → Prop :=
  Relation.ReflTransGen fun before after => before.step listing = .ok after

def Ends (listing : Listing) (sweeping : Sweeping)
    (outcome : Node × Except StoreError Nat) : Prop :=
  ∃ last, Reaches listing sweeping last ∧ last.step listing = .error outcome

/-! ## Calls below the base directory -/

section Calls

variable {tree node : Node} {base real below : Path} (leads : LeadsTo tree base real)

include leads

theorem readDirectory_below {entries : List (String × Node)}
    (found : tree.get? (real ++ below) = some (.directory entries)) (plain : IsPlain below)
    (fits : Fits (base ++ below)) :
    FileTree.readDirectory tree (base ++ below) = .ok entries := by
  have hwalk : walk tree true (base ++ below) =
      .ok (.present (real ++ below) (.directory entries)) := by
    cases below with
    | nil =>
        obtain ⟨others, hwalk⟩ := leads
        have here := get?_of_walk hwalk
        rw [List.append_nil] at found ⊢
        rw [found] at here
        cases here
        rw [List.append_nil]
        exact hwalk
    | cons name rest =>
        exact leads.walk_append true found (List.cons_ne_nil _ _) (fun _ => nofun) plain fits
  unfold FileTree.readDirectory FileTree.stat
  rw [hwalk]
  rfl

variable {contents : Bytes} (found : tree.get? (real ++ below) = some (.file contents))

include found

theorem remove_below (some : below ≠ []) (plain : IsPlain below) (fits : Fits (base ++ below)) :
    FileTree.remove tree (base ++ below) = .ok (tree.erase (real ++ below)) := by
  unfold FileTree.remove
  rw [leads.walk_append false found some (fun _ => nofun) plain fits]
  rfl

theorem leadsTo_erase : LeadsTo (tree.erase (real ++ below)) base real := by
  refine leads.of_spares fun path seen there kept => ?_
  by_cases at_ : real ++ below <+: path
  · obtain ⟨rest, rfl⟩ := at_
    have file := surfaceAt?_of_get? found
    cases rest with
    | nil =>
        rw [List.append_nil, file] at there
        cases there
        cases kept
    | cons name rest =>
        rw [surfaceAt?_below (by rw [file]; nofun) (List.cons_ne_nil _ _)] at there
        cases there
  · rw [surfaceAt?_erase at_, there]

end Calls

/-! ## One directory -/

section Directory

variable {listing : Listing} {tree : Node} {base real below : Path}
  {entries : List (String × Node)} {unread : List Path} {removed : Nat}

section Turns

variable {path : Path} {entry : String × Node}

theorem step_directory (directory : entry.2.isDirectory = true) :
    step listing ⟨tree, unread, located path (entry :: entries), removed⟩ =
      .ok ⟨tree, (path ++ [entry.1]) :: unread, located path entries, removed⟩ := by
  simp only [step, located, List.map_cons, if_pos directory]

theorem step_leftover {after : Node} (leftover : isLeftoverEntry entry = true)
    (removes : FileTree.remove tree (path ++ [entry.1]) = .ok after) :
    step listing ⟨tree, unread, located path (entry :: entries), removed⟩ =
      .ok ⟨after, unread, located path entries, removed + 1⟩ := by
  obtain ⟨name, node⟩ := entry
  cases node with
  | file contents =>
      have unfinished : isUnfinished name = true := leftover
      simp [step, located, Node.isDirectory, Node.isFile, unfinished, removes]
  | _ => cases leftover

theorem step_kept (kept : isLeftoverEntry entry = false) (leaf : entry.2.isDirectory = false) :
    step listing ⟨tree, unread, located path (entry :: entries), removed⟩ =
      .ok ⟨tree, unread, located path entries, removed⟩ := by
  have kept' : (entry.2.isFile && (path ++ [entry.1]).getLast?.any isUnfinished) = false := by
    rw [List.getLast?_concat]
    exact kept
  simp only [step, located, List.map_cons, leaf, kept', Bool.false_eq_true, if_false]

end Turns

structure Nameable (base below : Path) (entries : List (String × Node)) : Prop where
  plain : ∀ entry ∈ entries, IsPlain (below ++ [entry.1])
  fits : ∀ entry ∈ entries, Fits (base ++ (below ++ [entry.1]))

/-- The directory is there, and the entries of some names are swept. -/
structure Half (tree : Node) (base real below : Path) (entries : List (String × Node))
    (done : List String) : Prop where
  leads : LeadsTo tree base real
  found : tree.get? (real ++ below) = some (.directory (sweepOnly done entries))

def halfSwept (tree : Node) (path : Path) (entries : List (String × Node)) (done : List String) :
    Node := tree.set path (.directory (sweepOnly done entries))

variable {done : List String} {todo : List (String × Node)}

theorem Half.get?_entry (half : Half tree base real below entries done)
    (distinct : DistinctEntries entries) {entry : String × Node} (inside : entry ∈ entries)
    (fresh : entry.1 ∉ done) : tree.get? (real ++ (below ++ [entry.1])) = some entry.2 := by
  rw [← List.append_assoc, get?_snoc, half.found]
  exact (child?_sweepOnly distinct fresh).trans (child?_of_mem distinct inside)

theorem Half.halfSwept_halfSwept (half : Half tree base real below entries done)
    (first second : List String) :
    halfSwept (halfSwept tree (real ++ below) entries first) (real ++ below) entries second =
      halfSwept tree (real ++ below) entries second :=
  set_set (Option.isSome_of_mem half.found) _ _

theorem Half.halfSwept_self (half : Half tree base real below entries done) :
    halfSwept tree (real ++ below) entries done = tree := set_of_get? half.found

theorem Half.of_leads (half : Half tree base real below entries done) {more : List String}
    (leads : LeadsTo (halfSwept tree (real ++ below) entries more) base real) :
    Half (halfSwept tree (real ++ below) entries more) base real below entries more :=
  ⟨leads, get?_set_self (Option.isSome_of_mem half.found) _⟩

theorem Half.remove (half : Half tree base real below entries done)
    (distinct : DistinctEntries entries) (nameable : Nameable base below entries)
    {entry : String × Node} (inside : entry ∈ entries) (fresh : entry.1 ∉ done)
    (leftover : isLeftoverEntry entry = true) :
    FileTree.remove tree (base ++ below ++ [entry.1]) =
        .ok (halfSwept tree (real ++ below) entries (entry.1 :: done)) ∧
      Half (halfSwept tree (real ++ below) entries (entry.1 :: done)) base real below entries
        (entry.1 :: done) := by
  obtain ⟨name, node⟩ := entry
  have found := half.get?_entry distinct inside fresh
  cases node with
  | file contents =>
      have erased : tree.erase (real ++ (below ++ [name])) =
          halfSwept tree (real ++ below) entries (name :: done) := by
        rw [← List.append_assoc, erase_append half.found (List.cons_ne_nil _ _), erase,
          filter_sweepOnly distinct inside leftover]
        rfl
      have removed := remove_below half.leads found (by simp) (nameable.plain _ inside)
        (nameable.fits _ inside)
      have leads := leadsTo_erase half.leads found
      rw [erased] at removed leads
      rw [List.append_assoc]
      exact ⟨removed, half.of_leads leads⟩
  | _ => cases leftover

theorem Half.skip (half : Half tree base real below entries done)
    (distinct : DistinctEntries entries) {entry : String × Node} (inside : entry ∈ entries)
    (kept : isLeftoverEntry entry = false) (leaf : entry.2.isDirectory = false) :
    Half tree base real below entries (entry.1 :: done) := by
  refine ⟨half.leads, ?_⟩
  rw [sweepOnly_cons_of_leaf distinct inside kept leaf]
  exact half.found

theorem not_leftover_of_isDirectory {entry : String × Node}
    (directory : entry.2.isDirectory = true) : isLeftoverEntry entry = false := by
  obtain ⟨name, node⟩ := entry
  cases node with
  | directory entries => rfl
  | _ => cases directory

def innerEntries (entries : List (String × Node)) : List (String × Node) :=
  (entries.filter fun entry => entry.2.isDirectory).reverse

theorem mem_innerEntries {entry : String × Node} :
    entry ∈ innerEntries entries ↔ entry ∈ entries ∧ entry.2.isDirectory = true := by
  unfold innerEntries
  rw [List.mem_reverse, List.mem_filter]

theorem innerEntries_cons (entry : String × Node) (entries : List (String × Node)) :
    innerEntries (entry :: entries) =
      innerEntries entries ++ if entry.2.isDirectory then [entry] else [] := by
  unfold innerEntries
  rw [List.filter_cons]
  split
  · rw [List.reverse_cons]
  · rw [List.append_nil]

def inner (path : Path) (entries : List (String × Node)) : List Path :=
  (innerEntries entries).map fun entry => path ++ [entry.1]

theorem inner_cons_of_directory (path : Path) {entry : String × Node}
    (directory : entry.2.isDirectory = true) (entries : List (String × Node)) :
    inner path (entry :: entries) = inner path entries ++ [path ++ [entry.1]] := by
  unfold inner
  rw [innerEntries_cons, if_pos directory, List.map_append, List.map_singleton]

theorem inner_cons_of_leaf (path : Path) {entry : String × Node}
    (leaf : entry.2.isDirectory = false) (entries : List (String × Node)) :
    inner path (entry :: entries) = inner path entries := by
  unfold inner
  rw [innerEntries_cons, leaf, if_neg nofun, List.append_nil]

theorem fresh_cons {entry : String × Node} (unlike : entry.1 ∉ todo.map (·.1))
    (fresh : ∀ other ∈ todo, other.1 ∉ done) : ∀ other ∈ todo, other.1 ∉ entry.1 :: done := by
  intro other there
  rw [List.mem_cons, not_or]
  exact ⟨fun same => unlike (same ▸ List.mem_map_of_mem there), fresh other there⟩

/-- All entries of a directory are gone through: what is in it is swept, but for the directories
in it, which are put on the stack. -/
theorem reaches_entries (listing : Listing) (distinct : DistinctEntries entries)
    (nameable : Nameable base below entries) (among : ∀ entry ∈ todo, entry ∈ entries)
    (nodup : (todo.map (·.1)).Nodup) (fresh : ∀ entry ∈ todo, entry.1 ∉ done)
    (half : Half tree base real below entries done) (unread : List Path) (removed : Nat) :
    ∃ more, (∀ name, name ∈ more ↔
        name ∈ done ∨ ∃ entry ∈ todo, entry.1 = name ∧ entry.2.isDirectory = false) ∧
      Half (halfSwept tree (real ++ below) entries more) base real below entries more ∧
      Reaches listing ⟨tree, unread, located (base ++ below) todo, removed⟩
        ⟨halfSwept tree (real ++ below) entries more, inner (base ++ below) todo ++ unread, [],
          removed + todo.countP isLeftoverEntry⟩ := by
  induction todo generalizing tree unread removed done with
  | nil =>
      refine ⟨done, by simp, ?_, ?_⟩ <;> rw [half.halfSwept_self]
      · exact half
      · exact .refl
  | cons entry todo ih =>
      rw [List.forall_mem_cons] at among fresh
      rw [List.map_cons, List.nodup_cons] at nodup
      obtain ⟨inside, later⟩ := among
      obtain ⟨new, laterNew⟩ := fresh
      obtain ⟨unlike, laterUnlike⟩ := nodup
      have others := fresh_cons unlike laterNew
      cases directory : entry.2.isDirectory with
      | true =>
          have kept := not_leftover_of_isDirectory directory
          obtain ⟨more, names, after, reaches⟩ := ih later laterUnlike laterNew half
            ((base ++ below ++ [entry.1]) :: unread) removed
          refine ⟨more, fun name => ?_, after, .head (step_directory directory) ?_⟩
          · rw [names, List.exists_mem_cons_iff]
            simp [directory]
          · rw [inner_cons_of_directory _ directory, List.append_assoc (inner _ _),
              List.countP_cons_of_neg (by rw [kept]; nofun)]
            exact reaches
      | false =>
          have done' : ∀ name, (name ∈ entry.1 :: done ∨
                ∃ other ∈ todo, other.1 = name ∧ other.2.isDirectory = false) ↔
              name ∈ done ∨
                ∃ other ∈ entry :: todo, other.1 = name ∧ other.2.isDirectory = false := by
            intro name
            rw [List.exists_mem_cons_iff, List.mem_cons]
            simp only [directory, and_true, eq_comm (a := name)]
            tauto
          rw [inner_cons_of_leaf _ directory]
          cases leftover : isLeftoverEntry entry with
          | true =>
              obtain ⟨removes, half'⟩ := half.remove distinct nameable inside new leftover
              obtain ⟨more, names, after, reaches⟩ :=
                ih later laterUnlike others half' unread (removed + 1)
              rw [half.halfSwept_halfSwept] at after reaches
              refine ⟨more, fun name => (names name).trans (done' name), after,
                .head (step_leftover leftover removes) ?_⟩
              rw [List.countP_cons_of_pos leftover, Nat.add_comm (todo.countP _) 1, ← Nat.add_assoc]
              exact reaches
          | false =>
              have half' := half.skip distinct inside leftover directory
              obtain ⟨more, names, after, reaches⟩ :=
                ih later laterUnlike others half' unread removed
              refine ⟨more, fun name => (names name).trans (done' name), after,
                .head (step_kept leftover directory) ?_⟩
              rw [List.countP_cons_of_neg (by rw [leftover]; nofun)]
              exact reaches

theorem Half.set_entry (half : Half tree base real below entries done)
    (distinct : DistinctEntries entries) {entry : String × Node} (inside : entry ∈ entries)
    (kept : isLeftoverEntry entry = false) :
    tree.set (real ++ (below ++ [entry.1])) entry.2.sweep.1 =
      halfSwept tree (real ++ below) entries (entry.1 :: done) := by
  rw [← List.append_assoc, set_append half.found]
  unfold halfSwept
  rw [Node.set, setEntry_sweepOnly distinct inside kept]

end Directory

/-! ## All directories -/

section Tree

variable {listing : Listing} {tree node : Node} {base real below : Path}
  {entries todo : List (String × Node)} {done : List String}

structure Named (base below : Path) (node : Node) : Prop where
  plain : ∀ path found, node.get? path = some found → IsPlain (below ++ path)
  fits : ∀ path found, node.get? path = some found → Fits (base ++ (below ++ path))

theorem Named.entry (named : Named base below (.directory entries))
    (distinct : DistinctEntries entries) {entry : String × Node} (inside : entry ∈ entries) :
    Named base (below ++ [entry.1]) entry.2 := by
  have onward : ∀ path found, entry.2.get? path = some found →
      (Node.directory entries).get? (entry.1 :: path) = some found := by
    intro path found there
    rw [get?, child?_of_mem distinct inside]
    exact there
  refine ⟨fun path found there => ?_, fun path found there => ?_⟩ <;>
    rw [List.append_assoc, List.singleton_append]
  · exact named.plain _ found (onward path found there)
  · exact named.fits _ found (onward path found there)

theorem named_leaf (leaf : node.isDirectory = false) (plain : IsPlain below)
    (fits : Fits (base ++ below)) : Named base below node := by
  have only : ∀ path found, node.get? path = some found → path = [] := by
    intro path found there
    cases path with
    | nil => rfl
    | cons name rest =>
        cases node with
        | directory entries => cases leaf
        | _ => cases there
  constructor <;> intro path found there <;> rw [only path found there, List.append_nil]
  · exact plain
  · exact fits

theorem named_directory (plain : IsPlain below) (fits : Fits (base ++ below))
    (inside : ∀ entry ∈ entries, Named base (below ++ [entry.1]) entry.2) :
    Named base below (.directory entries) := by
  have onward : ∀ name rest found, (Node.directory entries).get? (name :: rest) = some found →
      ∃ child, Named base (below ++ [name]) child ∧ child.get? rest = some found := by
    intro name rest found there
    obtain ⟨child, named, later⟩ := Option.bind_eq_some_iff.mp there
    exact ⟨child, inside _ (mem_of_child? named), later⟩
  constructor <;> intro path found there <;> cases path with
  | nil =>
      rw [List.append_nil]
      assumption
  | cons name rest =>
      obtain ⟨child, named, later⟩ := onward name rest found there
      rw [List.append_cons below name rest]
      first
        | exact named.plain rest found later
        | exact named.fits rest found later

theorem Named.nameable (named : Named base below (.directory entries))
    (distinct : DistinctEntries entries) : Nameable base below entries := by
  refine ⟨fun entry inside => ?_, fun entry inside => ?_⟩
  · simpa using (named.entry distinct inside).plain [] entry.2 rfl
  · simpa using (named.entry distinct inside).fits [] entry.2 rfl

/-- Wherever the directory is on the stack, the loop comes to the turn at which it is swept and all
that is above it on the stack is gone. -/
def IsSwept (listing : Listing) (base real : Path) (node : Node) : Prop :=
  ∀ (tree : Node) (below : Path) (unread : List Path) (removed : Nat), node.isDirectory = true →
    LeadsTo tree base real → tree.get? (real ++ below) = some node → Named base below node →
    node.Distinct →
    Reaches listing ⟨tree, (base ++ below) :: unread, [], removed⟩
      ⟨tree.set (real ++ below) node.sweep.1, unread, [], removed + node.sweep.2⟩ ∧
    LeadsTo (tree.set (real ++ below) node.sweep.1) base real

theorem reaches_directories (listing : Listing) (distinct : DistinctEntries entries)
    (named : Named base below (.directory entries))
    (isSwept : ∀ entry ∈ todo, IsSwept listing base real entry.2)
    (among : ∀ entry ∈ todo, entry ∈ entries ∧ entry.2.isDirectory = true)
    (children : ∀ entry ∈ todo, entry.2.Distinct) (nodup : (todo.map (·.1)).Nodup)
    (fresh : ∀ entry ∈ todo, entry.1 ∉ done) (half : Half tree base real below entries done)
    (unread : List Path) (removed : Nat) :
    ∃ more, (∀ name, name ∈ more ↔ name ∈ done ∨ ∃ entry ∈ todo, entry.1 = name) ∧
      Half (halfSwept tree (real ++ below) entries more) base real below entries more ∧
      Reaches listing
        ⟨tree, (todo.map fun entry => base ++ below ++ [entry.1]) ++ unread, [], removed⟩
        ⟨halfSwept tree (real ++ below) entries more, unread, [],
          removed + (todo.map (·.2.sweep.2)).sum⟩ := by
  induction todo generalizing tree removed done with
  | nil =>
      refine ⟨done, by simp, ?_, ?_⟩ <;> rw [half.halfSwept_self]
      · exact half
      · exact .refl
  | cons entry todo ih =>
      rw [List.forall_mem_cons] at isSwept among children fresh
      rw [List.map_cons, List.nodup_cons] at nodup
      obtain ⟨⟨inside, directory⟩, later⟩ := among
      obtain ⟨new, laterNew⟩ := fresh
      obtain ⟨unlike, laterUnlike⟩ := nodup
      have others := fresh_cons unlike laterNew
      obtain ⟨first, leads⟩ := isSwept.1 tree (below ++ [entry.1])
        ((todo.map fun entry => base ++ below ++ [entry.1]) ++ unread) removed directory half.leads
        (half.get?_entry distinct inside new) (named.entry distinct inside) children.1
      rw [half.set_entry distinct inside (not_leftover_of_isDirectory directory)] at first leads
      obtain ⟨more, names, after, reaches⟩ := ih isSwept.2 later children.2 laterUnlike others
        (half.of_leads leads) (removed + entry.2.sweep.2)
      rw [half.halfSwept_halfSwept] at after reaches
      refine ⟨more, fun name => ?_, after, ?_⟩
      · rw [names, List.exists_mem_cons_iff, List.mem_cons, eq_comm (a := name)]
        tauto
      · have count : removed + ((entry :: todo).map (·.2.sweep.2)).sum =
            removed + entry.2.sweep.2 + (todo.map (·.2.sweep.2)).sum := by
          rw [List.map_cons, List.sum_cons, Nat.add_assoc]
        rw [count]
        rw [← List.append_assoc] at first
        exact .trans first reaches

theorem nodup_names (distinct : DistinctEntries entries) : (entries.map (·.1)).Nodup := by
  induction entries with
  | nil => exact List.nodup_nil
  | cons first rest ih =>
      rw [DistinctEntries] at distinct
      rw [List.map_cons, List.nodup_cons]
      refine ⟨fun inside => ?_, ih distinct.2.2⟩
      obtain ⟨entry, there, same⟩ := List.mem_map.mp inside
      exact distinct.1 entry there same

theorem sum_burden (entries : List (String × Node)) : (entries.map burden).sum =
    entries.countP isLeftoverEntry +
      ((entries.filter fun entry => entry.2.isDirectory).map (·.2.sweep.2)).sum := by
  induction entries with
  | nil => rfl
  | cons entry rest ih =>
      rw [List.map_cons, List.sum_cons, ih, burden, List.countP_cons, List.filter_cons]
      cases directory : entry.2.isDirectory with
      | true =>
          simp only [not_leftover_of_isDirectory directory, if_true, Bool.false_eq_true, if_false,
            List.map_cons, List.sum_cons]
          omega
      | false =>
          simp only [sweep_of_leaf directory, Bool.false_eq_true, if_false]
          omega

theorem eq_of_name (distinct : DistinctEntries entries) {entry other : String × Node}
    (inside : entry ∈ entries) (among : other ∈ entries) (same : other.1 = entry.1) :
    other = entry := by
  have found := child?_of_mem distinct among
  rw [same, child?_of_mem distinct inside] at found
  exact Prod.ext same (Option.some.inj found).symm

theorem isSwept (listing : Listing) (base real : Path) :
    ∀ node, IsSwept listing base real node := by
  refine byEntries (fun node leaf => ?_) fun entries ih => ?_
  · intro tree below unread removed directory
    cases leaf.symm.trans directory
  · intro tree below unread removed _ leads found named distinct
    rw [distinct_directory] at distinct
    have half : Half tree base real below entries [] := ⟨leads, by rw [sweepOnly_nil]; exact found⟩
    have perm := listing.perm (base ++ below) entries
    have read : step listing ⟨tree, (base ++ below) :: unread, [], removed⟩ = .ok ⟨tree, unread,
        located (base ++ below) (listing.order (base ++ below) entries), removed⟩ := by
      have plain := named.plain [] _ rfl
      have fits := named.fits [] _ rfl
      rw [List.append_nil] at plain fits
      simp only [step, readDirectory_below leads found plain fits]
    generalize listing.order (base ++ below) entries = todo at perm read
    have nodup : (todo.map (·.1)).Nodup := (perm.map _).nodup_iff.mpr (nodup_names distinct)
    obtain ⟨more, names, between, first⟩ := reaches_entries listing distinct
      (named.nameable distinct) (fun entry inside => perm.mem_iff.mp inside) nodup
      (fun _ _ => List.not_mem_nil) half unread removed
    have directories : ∀ entry ∈ innerEntries todo,
        entry ∈ entries ∧ entry.2.isDirectory = true := fun entry inside =>
      (mem_innerEntries.mp inside).imp_left perm.mem_iff.mp
    have children : ∀ entry ∈ innerEntries todo, entry.2.Distinct := fun entry inside =>
      (distinct_directory.mpr distinct).child (child?_of_mem distinct (directories entry inside).1)
    have nodup' : ((innerEntries todo).map (·.1)).Nodup := by
      rw [innerEntries, List.map_reverse, List.nodup_reverse]
      exact nodup.sublist (List.filter_sublist.map _)
    have fresh : ∀ entry ∈ innerEntries todo, entry.1 ∉ more := by
      intro entry inside done
      obtain ⟨there, directory⟩ := directories entry inside
      obtain ⟨other, among, same, leaf⟩ := ((names _).mp done).resolve_left List.not_mem_nil
      rw [eq_of_name distinct there (perm.mem_iff.mp among) same, directory] at leaf
      cases leaf
    obtain ⟨all, allNames, after, second⟩ := reaches_directories listing distinct named
      (fun entry inside => ih entry (directories entry inside).1) directories children nodup' fresh
      between unread (removed + todo.countP isLeftoverEntry)
    rw [half.halfSwept_halfSwept] at after second
    have swept : halfSwept tree (real ++ below) entries all =
        tree.set (real ++ below) (directory entries).sweep.1 := by
      unfold halfSwept
      rw [sweep_directory, sweepOnly_all fun entry inside => ?_]
      rw [allNames, names]
      have among := perm.mem_iff.mpr inside
      cases directory : entry.2.isDirectory with
      | true => exact .inr ⟨entry, mem_innerEntries.mpr ⟨among, directory⟩, rfl⟩
      | false => exact .inl (.inr ⟨entry, among, rfl, directory⟩)
    have count : removed + todo.countP isLeftoverEntry +
        ((innerEntries todo).map (·.2.sweep.2)).sum = removed + (directory entries).sweep.2 := by
      rw [innerEntries, List.map_reverse, List.sum_reverse, Nat.add_assoc, ← sum_burden,
        (perm.map burden).sum_nat, ← sweepEntries_snd, sweep]
    rw [swept] at after
    rw [swept, count] at second
    exact ⟨.head read (.trans first second), after.leads⟩

end Tree

theorem ends_now (listing : Listing) (tree : Node) (removed : Nat) :
    step listing ⟨tree, [], [], removed⟩ = .error (tree, .ok removed) := rfl

/-- The loop has one end. -/
theorem Ends.unique {listing : Listing} {start : Sweeping}
    {first second : Node × Except StoreError Nat} (one : Ends listing start first)
    (other : Ends listing start second) : first = second := by
  obtain ⟨last, reaches, stops⟩ := one
  obtain ⟨last', reaches', stops'⟩ := other
  have stuck : ∀ {before after : Sweeping} {outcome : Node × Except StoreError Nat},
      before.step listing = .error outcome → Reaches listing before after → after = before := by
    intro before after outcome stops reaches
    rcases Relation.ReflTransGen.cases_head reaches with same | ⟨next, step, -⟩
    · exact same.symm
    · cases stops.symm.trans step
  have functional : Relator.RightUnique
      fun before after : Sweeping => before.step listing = .ok after := by
    intro before after after' step step'
    exact Except.ok.inj (step.symm.trans step')
  have same : last' = last := by
    rcases Relation.ReflTransGen.total_of_right_unique functional reaches reaches' with on | on
    · exact stuck stops on
    · exact (stuck stops' on).symm
  rw [same] at stops'
  exact Except.error.inj (stops.symm.trans stops')

end Sweeping

/-! ## Recovery -/

theorem getLast?_any_isUnfinished {path : Path} : path.getLast?.any isUnfinished = true ↔
    ∃ above name, path = above ++ [unfinishedMark ++ name] := by
  constructor
  · intro marked
    rcases List.eq_nil_or_concat path with rfl | ⟨above, last, rfl⟩
    · cases marked
    · rw [List.concat_eq_append, List.getLast?_concat] at marked
      obtain ⟨name, rfl⟩ := DiskStore.isUnfinished_iff.mp marked
      exact ⟨above, name, List.concat_eq_append⟩
  · rintro ⟨above, name, rfl⟩
    rw [List.getLast?_concat]
    exact DiskStore.isUnfinished_append name

/-- The base directory is there, no directory below it has two entries of one name, and the system
takes the paths of all entries.  To refuse one would be a fault of the file system. -/
structure Sweepable (tree : Node) (base real : Path) (entries : List (String × Node)) : Prop where
  there : walk tree true base = .ok (.present real (.directory entries))
  distinct : (Node.directory entries).Distinct
  named : Sweeping.Named base [] (.directory entries)

section Sweepable

variable {tree : Node} {base real : Path} {entries : List (String × Node)}
  (sweepable : Sweepable tree base real entries)

include sweepable

theorem Sweepable.get? : tree.get? real = some (.directory entries) := get?_of_walk sweepable.there

theorem Sweepable.reaches (listing : Listing) :
    Sweeping.Reaches listing ⟨tree, [base], [], 0⟩
      ⟨tree.set real (directory entries).sweep.1, [], [], (directory entries).sweep.2⟩ ∧
    LeadsTo (tree.set real (directory entries).sweep.1) base real := by
  have found := sweepable.get?
  rw [← List.append_nil real] at found
  have swept := Sweeping.isSwept listing base real (directory entries) tree [] [] 0 rfl
    ⟨entries, sweepable.there⟩ found sweepable.named sweepable.distinct
  rw [List.append_nil, List.append_nil, Nat.zero_add] at swept
  exact swept

theorem Sweepable.ends_iff (listing : Listing) (outcome : Node × Except StoreError Nat) :
    Sweeping.Ends listing ⟨tree, [base], [], 0⟩ outcome ↔
      outcome = (tree.set real (directory entries).sweep.1, .ok (directory entries).sweep.2) := by
  have ends : Sweeping.Ends listing ⟨tree, [base], [], 0⟩
      (tree.set real (directory entries).sweep.1, .ok (directory entries).sweep.2) :=
    ⟨_, (sweepable.reaches listing).1, Sweeping.ends_now _ _ _⟩
  constructor
  · exact fun other => other.unique ends
  · rintro rfl
    exact ends

theorem Sweepable.recover_eq (pending : PendingKeys) :
    DiskStore.recover ⟨tree, base, pending⟩ =
      (⟨tree.set real (directory entries).sweep.1, base, pending⟩,
        .ok (directory entries).sweep.2) := by
  unfold DiskStore.recover
  rw [sweepable.there]
  rfl

theorem Sweepable.swept : Sweepable (tree.set real (directory entries).sweep.1) base real
    (sweepEntries entries).1 := by
  have unordered : Listing := ⟨fun _ entries => entries, fun _ _ => .refl _⟩
  obtain ⟨others, there⟩ := (sweepable.reaches unordered).2
  have found := get?_of_walk there
  rw [get?_set_self (Option.isSome_of_mem sweepable.get?), sweep_directory] at found
  have before : ∀ path left, (directory (sweepEntries entries).1).get? path = some left →
      ∃ found, (directory entries).get? path = some found := by
    intro path left there
    have seen := surfaceAt?_of_get? there
    rw [← sweep_directory, surfaceAt?_sweep sweepable.distinct, Option.filter_eq_some_iff] at seen
    obtain ⟨found, here, -⟩ := Option.map_eq_some_iff.mp seen.1
    exact ⟨found, here⟩
  refine ⟨Option.some.inj found ▸ there, sweep_directory entries ▸ sweepable.distinct.sweep,
    fun path left there => ?_, fun path left there => ?_⟩
  · obtain ⟨found, here⟩ := before path left there
    exact sweepable.named.plain path found here
  · obtain ⟨found, here⟩ := before path left there
    exact sweepable.named.fits path found here

theorem Sweepable.mem_leftovers_iff (path : Path) :
    path ∈ (directory entries).leftovers.map (real ++ ·) ↔
      ∃ above name contents, path = real ++ (above ++ ["tmp_" ++ name]) ∧
        tree.get? path = some (.file contents) := by
  have below : ∀ rest, tree.get? (real ++ rest) = (directory entries).get? rest := by
    intro rest
    rw [get?_append, sweepable.get?]
    rfl
  rw [List.mem_map]
  constructor
  · rintro ⟨rest, inside, rfl⟩
    obtain ⟨contents, found, marked⟩ := (mem_leftovers sweepable.distinct).mp inside
    obtain ⟨above, name, rfl⟩ := getLast?_any_isUnfinished.mp marked
    exact ⟨above, name, contents, rfl, (below _).trans found⟩
  · rintro ⟨above, name, contents, rfl, found⟩
    refine ⟨_, (mem_leftovers sweepable.distinct).mpr ⟨contents, (below _).symm.trans found, ?_⟩,
      rfl⟩
    exact getLast?_any_isUnfinished.mpr ⟨above, name, rfl⟩

theorem Sweepable.surfaceAt?_swept (path : Path) :
    (tree.set real (directory entries).sweep.1).surfaceAt? path =
      if path ∈ (directory entries).leftovers.map (real ++ ·) then none
      else tree.surfaceAt? path := by
  rw [surfaceAt?_set_sweep sweepable.get? sweepable.distinct]
  split
  · rename_i inside
    obtain ⟨above, name, contents, rfl, found⟩ := (sweepable.mem_leftovers_iff path).mp inside
    have leftover :
        isLeftover real (real ++ (above ++ ["tmp_" ++ name])) (.file contents) = true := by
      unfold isLeftover
      rw [List.isPrefixOf_iff_prefix.mpr (List.prefix_append _ _), ← List.append_assoc,
        List.getLast?_concat]
      exact DiskStore.isUnfinished_append name
    rw [surfaceAt?_of_get? found, Option.filter_some, surface_of_leaf rfl, leftover]
    rfl
  · rename_i outside
    cases seen : tree.surfaceAt? path with
    | none => rfl
    | some node =>
        suffices kept : isLeftover real path node = false by rw [Option.filter_some, kept]; rfl
        rw [Bool.eq_false_iff]
        intro leftover
        unfold isLeftover at leftover
        rw [Bool.and_eq_true, Bool.and_eq_true, List.isPrefixOf_iff_prefix] at leftover
        obtain ⟨⟨isFile, rest, rfl⟩, marked⟩ := leftover
        cases node with
        | file contents =>
            rw [surfaceAt?_eq_leaf_iff rfl] at seen
            cases rest with
            | nil =>
                rw [List.append_nil, sweepable.get?] at seen
                cases seen
            | cons first rest =>
                rw [List.getLast?_append_of_ne_nil _ (List.cons_ne_nil _ _)] at marked
                obtain ⟨above, name, same⟩ := getLast?_any_isUnfinished.mp marked
                rw [same] at seen outside
                exact outside
                  ((sweepable.mem_leftovers_iff _).mpr ⟨above, name, contents, rfl, seen⟩)
        | _ => cases isFile

end Sweepable

namespace DiskStore

/-- A recovery removes just the unfinished files below the base directory, and says how many there
were; and the loop comes to the same end in whatever order directories are listed.  A second one
finds nothing to do. -/
theorem recover_removesUnfinished (store : DiskStore) {real : Path}
    {entries : List (String × Node)}
    (sweepable : Sweepable store.tree store.base real entries) :
    ∃ (after : Node) (files : List Path),
      store.recover = ({ store with tree := after }, .ok files.length) ∧
      (∀ listing outcome, Sweeping.Ends listing ⟨store.tree, [store.base], [], 0⟩ outcome ↔
        outcome = (after, .ok files.length)) ∧
      files.Nodup ∧
      (∀ path, path ∈ files ↔
        ∃ above name contents, path = real ++ (above ++ ["tmp_" ++ name]) ∧
          store.tree.get? path = some (.file contents)) ∧
      (∀ path, after.surfaceAt? path =
        if path ∈ files then none else store.tree.surfaceAt? path) ∧
      ({ store with tree := after } : DiskStore).recover = ({ store with tree := after }, .ok 0) ∧
      ∀ listing outcome, Sweeping.Ends listing ⟨after, [store.base], [], 0⟩ outcome ↔
        outcome = (after, .ok 0) := by
  have again : (store.tree.set real (directory entries).sweep.1).set real
      (directory (sweepEntries entries).1).sweep.1 =
        store.tree.set real (directory entries).sweep.1 ∧
      (directory (sweepEntries entries).1).sweep.2 = 0 := by
    rw [← sweep_directory, sweep_sweep, set_set (Option.isSome_of_mem sweepable.get?)]
    exact ⟨rfl, rfl⟩
  refine ⟨_, (directory entries).leftovers.map (real ++ ·), ?_, ?_,
    (nodup_leftovers _ sweepable.distinct).map fun _ _ => List.append_cancel_left,
    sweepable.mem_leftovers_iff, sweepable.surfaceAt?_swept, ?_, ?_⟩
  · rw [List.length_map, length_leftovers]
    exact sweepable.recover_eq store.pending
  · rw [List.length_map, length_leftovers]
    exact sweepable.ends_iff
  · rw [sweepable.swept.recover_eq store.pending, again.1, again.2]
  · intro listing outcome
    rw [sweepable.swept.ends_iff, again.1, again.2]

/-! ### A base directory behind a link -/

def strewnEntries : List (String × Node) :=
  [("tmp_one", .file [0x31]), ("pods", .file [0x32]),
    ("tmp_more", .directory [("tmp_two", .file [0x33]), ("web", .file [0x34])]),
    ("out", .link "/etc"), ("tmp_out", .link "/etc/tmp_three")]

def strewnTree : Node :=
  .directory [("srv", .directory strewnEntries), ("etc", .directory [("tmp_three", .file [0x35])]),
    ("cache", .link "/srv")]

theorem sweepable_strewnTree : Sweepable strewnTree ["cache"] ["srv"] strewnEntries where
  there := by
    have linked : walkFrom strewnTree true 39 [] ["srv"] =
        .ok (.present ["srv"] (.directory strewnEntries)) := by
      have found : strewnTree.get? ["srv"] = some (.directory strewnEntries) := rfl
      have clear : Clear strewnTree ["srv"] :=
        clear_of_get? found fun target same => by cases same
      exact (walkFrom_eq_lead clear (by decide) rfl).trans rfl
    unfold walk
    rw [if_neg (by decide), if_neg (by decide), walkFrom]
    exact linked
  distinct := by simp [strewnEntries, Distinct, DistinctEntries]
  named := by
    have leaf : ∀ below node, node.isDirectory = false → IsPlain below →
        Fits (["cache"] ++ below) → Sweeping.Named ["cache"] below node :=
      fun _ _ => Sweeping.named_leaf
    refine Sweeping.named_directory (by decide) (by decide) ?_
    simp only [strewnEntries, List.forall_mem_cons]
    refine ⟨leaf _ _ rfl (by decide) (by decide), leaf _ _ rfl (by decide) (by decide), ?_,
      leaf _ _ rfl (by decide) (by decide), leaf _ _ rfl (by decide) (by decide),
      List.forall_mem_nil _⟩
    refine Sweeping.named_directory (by decide) (by decide) ?_
    simp only [List.forall_mem_cons]
    exact ⟨leaf _ _ rfl (by decide) (by decide), leaf _ _ rfl (by decide) (by decide),
      List.forall_mem_nil _⟩

theorem recover_removesUnfinished_strewn :
    Sweepable strewnTree ["cache"] ["srv"] strewnEntries ∧
      ∃ after files, recover ⟨strewnTree, ["cache"], .empty⟩ =
          (⟨after, ["cache"], .empty⟩, .ok (List.length files)) ∧
        ["srv", "tmp_more", "tmp_two"] ∈ files ∧ ["etc", "tmp_three"] ∉ files ∧
        after.surfaceAt? ["etc", "tmp_three"] = some (.file [0x35]) ∧
        recover ⟨after, ["cache"], .empty⟩ = (⟨after, ["cache"], .empty⟩, .ok 0) := by
  obtain ⟨after, files, recovers, -, -, member, surfaces, again, -⟩ :=
    recover_removesUnfinished ⟨strewnTree, ["cache"], .empty⟩ sweepable_strewnTree
  have outside : ["etc", "tmp_three"] ∉ files := by
    rw [member]
    rintro ⟨above, name, contents, path, -⟩
    exact absurd (List.cons.inj path).1 (by decide)
  refine ⟨sweepable_strewnTree, after, files, recovers, ?_, outside, ?_, again⟩
  · exact (member _).mpr ⟨["tmp_more"], "two", [0x33], by decide, rfl⟩
  · rw [surfaces, if_neg outside]
    rfl

end DiskStore

end Outpost.Store
