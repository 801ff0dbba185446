import Outpost.Proofs.Store.Walks
import Outpost.Store.Disk

/-!
# Distinct names

A directory has at most one entry of a name.  Trees are lists of entries that say nothing of this,
and no call needs it, since the first entry of a name is the one that is found; but only where
names are distinct does an entry that is taken away leave nothing behind.  All calls keep names
distinct.
-/

namespace Outpost.Store

namespace Node

mutual

def Distinct : Node → Prop
  | .directory entries => DistinctEntries entries
  | _ => True

def DistinctEntries : List (String × Node) → Prop
  | [] => True
  | (name, node) :: rest => (∀ entry ∈ rest, entry.1 ≠ name) ∧ node.Distinct ∧ DistinctEntries rest

end

variable {entries : List (String × Node)} {root node : Node} {path : Path} {name : String}

theorem distinct_directory : (directory entries).Distinct ↔ DistinctEntries entries := by
  rw [Distinct]

theorem distinct_emptyDirectory : emptyDirectory.Distinct := distinct_directory.mpr trivial

theorem distinct_file (contents : Bytes) : (file contents).Distinct := trivial

theorem Distinct.child (distinct : root.Distinct) (found : root.child? name = some node) :
    node.Distinct := by
  cases root with
  | directory entries =>
      rw [distinct_directory] at distinct
      induction entries with
      | nil => cases found
      | cons entry rest ih =>
          obtain ⟨first, kept⟩ := entry
          rw [DistinctEntries] at distinct
          rw [child?_cons] at found
          split at found
          · cases found
            exact distinct.2.1
          · exact ih distinct.2.2 found
  | _ => cases found

theorem Distinct.get? (distinct : root.Distinct) (found : root.get? path = some node) :
    node.Distinct := by
  induction path generalizing root with
  | nil =>
      cases found
      exact distinct
  | cons name rest ih =>
      obtain ⟨child, hchild, below⟩ := Option.bind_eq_some_iff.mp found
      exact ih (distinct.child hchild) below

/-! ## Changed trees -/

theorem mem_setEntry {entry : String × Node} (h : entry ∈ setEntry name node entries) :
    entry.1 = name ∨ entry ∈ entries := by
  induction entries with
  | nil =>
      cases List.mem_singleton.mp h
      exact .inl rfl
  | cons first rest ih =>
      obtain ⟨other, kept⟩ := first
      unfold setEntry at h
      split at h
      · rcases List.mem_cons.mp h with rfl | inside
        · exact .inl rfl
        · exact .inr (List.mem_cons_of_mem _ inside)
      · rcases List.mem_cons.mp h with rfl | inside
        · exact .inr List.mem_cons_self
        · exact (ih inside).imp_right (List.mem_cons_of_mem _)

theorem DistinctEntries.setEntry (distinct : DistinctEntries entries) (new : node.Distinct) :
    DistinctEntries (setEntry name node entries) := by
  induction entries with
  | nil =>
      rw [Node.setEntry, DistinctEntries]
      exact ⟨List.forall_mem_nil _, new, distinct⟩
  | cons first rest ih =>
      obtain ⟨other, kept⟩ := first
      rw [DistinctEntries] at distinct
      obtain ⟨unlike, keptDistinct, restDistinct⟩ := distinct
      unfold Node.setEntry
      split
      · rename_i same
        subst same
        rw [DistinctEntries]
        exact ⟨unlike, new, restDistinct⟩
      · rename_i differs
        rw [DistinctEntries]
        refine ⟨fun entry inside => ?_, keptDistinct, ih restDistinct⟩
        rcases mem_setEntry inside with here | before
        · exact here ▸ Ne.symm differs
        · exact unlike entry before

theorem DistinctEntries.filter (distinct : DistinctEntries entries)
    (keeps : String × Node → Bool) : DistinctEntries (entries.filter keeps) := by
  induction entries with
  | nil => exact distinct
  | cons first rest ih =>
      obtain ⟨other, kept⟩ := first
      rw [DistinctEntries] at distinct
      obtain ⟨unlike, keptDistinct, restDistinct⟩ := distinct
      rw [List.filter_cons]
      split
      · rw [DistinctEntries]
        exact ⟨fun entry inside => unlike entry ((List.mem_filter.mp inside).1), keptDistinct,
          ih restDistinct⟩
      · exact ih restDistinct

theorem Distinct.set (distinct : root.Distinct) (new : node.Distinct) (path : Path) :
    (root.set path node).Distinct := by
  induction path generalizing root with
  | nil => cases root <;> exact new
  | cons name rest ih =>
      cases root with
      | directory entries =>
          cases rest with
          | nil =>
              rw [Node.set, distinct_directory]
              exact (distinct_directory.mp distinct).setEntry new
          | cons next rest =>
              rw [set_cons_cons]
              split
              · exact distinct
              · rename_i child found
                rw [distinct_directory]
                exact (distinct_directory.mp distinct).setEntry (ih (distinct.child found))
      | _ => rwa [set_cons_of_not_isDirectory rfl]

theorem Distinct.erase (distinct : root.Distinct) (path : Path) : (root.erase path).Distinct := by
  induction path generalizing root with
  | nil => cases root <;> exact distinct
  | cons name rest ih =>
      cases root with
      | directory entries =>
          cases rest with
          | nil =>
              rw [Node.erase, distinct_directory]
              exact (distinct_directory.mp distinct).filter _
          | cons next rest =>
              rw [erase_cons_cons]
              split
              · exact distinct
              · rename_i child found
                rw [distinct_directory]
                exact (distinct_directory.mp distinct).setEntry (ih (distinct.child found))
      | _ => rwa [erase_cons_of_not_isDirectory rfl]

/-! ## Swept trees -/

theorem mem_sweepEntries {entry : String × Node} (h : entry ∈ (sweepEntries entries).1) :
    ∃ before ∈ entries, before.1 = entry.1 := by
  induction entries with
  | nil =>
      rw [sweepEntries] at h
      cases h
  | cons first rest ih =>
      obtain ⟨other, kept⟩ := first
      rw [sweepEntries] at h
      simp only at h
      split at h
      · obtain ⟨before, inside, same⟩ := ih h
        exact ⟨before, List.mem_cons_of_mem _ inside, same⟩
      · rcases List.mem_cons.mp h with rfl | inside
        · exact ⟨(other, kept), List.mem_cons_self, rfl⟩
        · obtain ⟨before, inside, same⟩ := ih inside
          exact ⟨before, List.mem_cons_of_mem _ inside, same⟩

theorem sweep_directory (entries : List (String × Node)) :
    (directory entries).sweep.1 = directory (sweepEntries entries).1 := by
  rw [sweep]

mutual

theorem Distinct.sweep : ∀ node : Node, node.Distinct → node.sweep.1.Distinct
  | .directory entries, distinct => by
      rw [sweep_directory, distinct_directory]
      exact DistinctEntries.sweep entries (distinct_directory.mp distinct)
  | .file _, distinct | .link _, distinct | .nullDevice, distinct => distinct

theorem DistinctEntries.sweep : ∀ entries : List (String × Node),
    DistinctEntries entries → DistinctEntries (sweepEntries entries).1
  | [], distinct => distinct
  | (name, node) :: rest, distinct => by
      rw [DistinctEntries] at distinct
      obtain ⟨unlike, nodeDistinct, restDistinct⟩ := distinct
      rw [sweepEntries]
      simp only
      split
      · exact DistinctEntries.sweep rest restDistinct
      · rw [DistinctEntries]
        refine ⟨fun entry inside => ?_, Distinct.sweep node nodeDistinct,
          DistinctEntries.sweep rest restDistinct⟩
        obtain ⟨before, there, same⟩ := mem_sweepEntries inside
        exact same ▸ unlike before there

end

end Node

/-! ## Calls -/

section Calls

variable {root : Node} {path : Path}

theorem get?_of_walkFrom {followLast : Bool} {links : Nat} {current rest real : Path} {node : Node}
    (h : walkFrom root followLast links current rest = .ok (.present real node)) :
    root.get? real = some node := by
  fun_induction walkFrom root followLast links current rest with
  | case1 links current last found =>
      cases h
      exact found
  | case3 _ _ _ _ _ ih | case4 _ _ _ _ _ _ ih => exact ih h
  | case8 links current name rest entries there _ _ _ target found _ =>
      cases h
      rw [Node.get?_snoc, there]
      exact found
  | case10 _ _ _ _ _ _ _ _ _ _ _ _ _ _ _ ih | case11 _ _ _ _ _ _ _ _ _ _ _ _ ih => exact ih h
  | _ => cases h

theorem get?_of_walk {followLast : Bool} {real : Path} {node : Node}
    (h : walk root followLast path = .ok (.present real node)) : root.get? real = some node := by
  unfold walk at h
  split at h
  · cases h
  split at h
  · cases h
  exact get?_of_walkFrom h

variable (distinct : root.Distinct)

include distinct

theorem distinct_makeDirectory {made : Node} (h : FileTree.makeDirectory root path = .ok made) :
    made.Distinct := by
  unfold FileTree.makeDirectory at h
  obtain ⟨place, -, hplace⟩ := ok_of_bind h
  cases place with
  | present real node => cases hplace
  | absent parent name =>
      cases hplace
      exact distinct.set Node.distinct_emptyDirectory _

theorem distinct_makeDirectories (path : Path) :
    (FileTree.makeDirectories root path).1.Distinct := by
  induction hlength : path.length using Nat.strongRecOn generalizing path with
  | ind length ih =>
      subst hlength
      rw [FileTree.makeDirectories.eq_def]
      split
      · rename_i made hmade
        exact distinct_makeDirectory distinct hmade
      · cases path with
        | nil => exact distinct
        | cons first rest =>
            have shorter : (first :: rest).dropLast.length < (first :: rest).length := by simp
            have up := ih _ shorter _ rfl
            rcases habove : FileTree.makeDirectories root (first :: rest).dropLast with
              ⟨above, result⟩
            rw [habove] at up
            simp only [habove]
            cases result with
            | error error => exact up
            | ok _ =>
                simp only
                split
                · rename_i made hmade
                  exact distinct_makeDirectory up hmade
                · split <;> exact up
      · split <;> exact distinct

theorem distinct_create {created : Node} {real : Path}
    (h : FileTree.create root path = .ok (created, real)) : created.Distinct := by
  unfold FileTree.create at h
  obtain ⟨place, -, hplace⟩ := ok_of_bind h
  cases place with
  | present found node =>
      cases node <;> cases hplace
      · exact distinct.set (Node.distinct_file _) _
      · exact distinct
  | absent parent name =>
      cases hplace
      exact distinct.set (Node.distinct_file _) _

theorem distinct_write (contents : Bytes) : (FileTree.write root path contents).Distinct := by
  unfold FileTree.write
  split
  · exact distinct.set (Node.distinct_file _) _
  · exact distinct

theorem distinct_remove {removed : Node} (h : FileTree.remove root path = .ok removed) :
    removed.Distinct := by
  unfold FileTree.remove at h
  obtain ⟨place, -, hplace⟩ := ok_of_bind h
  cases place with
  | present real node =>
      simp only at hplace
      split at hplace <;> cases hplace
      exact distinct.erase _
  | absent parent name => cases hplace

theorem distinct_rename {target : Path} {renamed : Node}
    (h : FileTree.rename root path target = .ok renamed) : renamed.Distinct := by
  unfold FileTree.rename at h
  obtain ⟨origin, hsource, hrest⟩ := ok_of_bind h
  cases origin with
  | absent parent name => cases hrest
  | present real node =>
      have moved := distinct.get? (get?_of_walk hsource)
      obtain ⟨place, -, hplace⟩ := ok_of_bind hrest
      cases place with
      | absent parent name =>
          cases hplace
          exact (distinct.erase _).set moved _
      | present destination existing =>
          simp only at hplace
          split at hplace
          · cases hplace
          · split at hplace <;> cases hplace
            · exact distinct
            · exact (distinct.erase _).set moved _

end Calls

namespace DiskStore

variable {tree : Node} (distinct : tree.Distinct)

include distinct

theorem distinct_abandon (write : Write) : (write.abandon tree).Distinct := by
  unfold Write.abandon
  split
  · rename_i removed h
    exact distinct_remove distinct h
  · exact distinct

theorem distinct_step (write : Write) : (write.step tree).1.Distinct := by
  unfold Write.step
  split
  · have made := distinct_makeDirectories distinct write.parent
    split <;> rename_i h <;> rwa [h] at made
  · split
    · rename_i h
      exact distinct_create distinct h
    · exact distinct
  · exact distinct_write distinct _
  · split
    · exact distinct
    · exact distinct_abandon distinct write
  · split
    · rename_i h
      exact distinct_rename distinct h
    · exact distinct_abandon distinct write

theorem distinct_run (write : Write) : (write.run tree).1.Distinct := by
  fun_induction Write.run tree write with
  | case1 tree write after result hstep =>
      have kept := distinct_step distinct write
      rwa [hstep] at kept
  | case2 tree write after next hstep remaining ih =>
      have kept := distinct_step distinct write
      rw [hstep] at kept
      exact ih kept

end DiskStore

end Outpost.Store
