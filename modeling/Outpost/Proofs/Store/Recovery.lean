import Outpost.Proofs.Store.Answers
import Outpost.Proofs.Store.Distinct

/-!
# Recovery

Opening a store takes the unfinished files below its base directory away.  Every other path is
seen as before, also one below a directory with the name of an unfinished file.
-/

namespace Outpost.Store

namespace Node

variable {entries : List (String × Node)} {root : Node}

theorem child?_sweepEntries (distinct : DistinctEntries entries) (name : String) :
    (directory (sweepEntries entries).1).child? name =
      ((directory entries).child? name).bind fun child =>
        if child.isFile && isUnfinished name then none else some child.sweep.1 := by
  induction entries with
  | nil => rfl
  | cons entry rest ih =>
      obtain ⟨first, node⟩ := entry
      rw [DistinctEntries] at distinct
      obtain ⟨unlike, -, restDistinct⟩ := distinct
      have later := ih restDistinct
      rw [child?_cons, sweepEntries]
      by_cases here : first = name
      · subst here
        have missing : (directory rest).child? first = none := by
          rw [child?_directory, List.find?_eq_none.mpr]
          · rfl
          · intro entry inside same
            exact unlike entry inside (beq_iff_eq.mp same)
        rw [missing] at later
        rw [if_pos rfl, Option.bind_some]
        simp only
        split
        · exact later
        · rw [child?_cons, if_pos rfl]
      · rw [if_neg here]
        simp only
        split
        · exact later
        · rw [child?_cons, if_neg here, later]

theorem surface_sweep (node : Node) : node.sweep.1.surface = node.surface := by
  cases node with
  | directory entries =>
      rw [sweep_directory]
      rfl
  | _ => rfl

theorem isFile_surface (node : Node) : node.surface.isFile = node.isFile := by
  cases node <;> rfl

theorem surfaceAt?_sweep (distinct : root.Distinct) (path : Path) :
    root.sweep.1.surfaceAt? path =
      (root.surfaceAt? path).filter fun seen =>
        !(seen.isFile && path.getLast?.any isUnfinished) := by
  induction path generalizing root with
  | nil =>
      rw [surfaceAt?_nil, surfaceAt?_nil, surface_sweep, Option.filter_some, if_pos]
      rw [List.getLast?_nil, Option.any_none, Bool.and_false]
      rfl
  | cons name rest ih =>
      cases root with
      | directory entries =>
          rw [sweep_directory, surfaceAt?_cons, surfaceAt?_cons,
            child?_sweepEntries (distinct_directory.mp distinct)]
          cases hchild : (directory entries).child? name with
          | none => rfl
          | some child =>
              have below := ih (distinct.child hchild)
              simp only [Option.bind_some]
              cases rest with
              | nil =>
                  rw [surfaceAt?_nil, Option.filter_some, List.getLast?_singleton, Option.any_some,
                    isFile_surface]
                  split
                  · rename_i leftover
                    rw [leftover]
                    rfl
                  · rename_i kept
                    rw [Bool.not_eq_true] at kept
                    rw [kept, Option.bind_some, surfaceAt?_nil, surface_sweep]
                    rfl
              | cons next more =>
                  rw [List.getLast?_cons_cons, ← below]
                  split
                  · rename_i leftover
                    cases child with
                    | file contents => rfl
                    | _ => cases leftover
                  · rfl
      | _ => rfl

end Node

/-! ## Reopening -/

def isLeftover (base path : Path) (seen : Node) : Bool :=
  seen.isFile && base.isPrefixOf path && path.getLast?.any isUnfinished

structure Opened (tree : Node) (base : Path) : Prop where
  unlinked : Unlinked tree base
  distinct : tree.Distinct
  plain : IsPlain base
  fits : Fits base
  there : tree.surfaceAt? base = some .emptyDirectory

def recovered (tree : Node) (base : Path) : Node :=
  match tree.get? base with
  | some node => tree.set base node.sweep.1
  | none => tree

variable {tree after : Node} {base : Path}

theorem Opened.kept {below : Path} (opened : Opened tree base) (unlinked : Unlinked after base)
    (distinct : after.Distinct) (grown : Grown below tree after base) : Opened after base where
  unlinked := unlinked
  distinct := distinct
  plain := opened.plain
  fits := opened.fits
  there := by
    rcases grown with same | ⟨-, missing, -⟩
    · exact same.trans opened.there
    · cases missing.symm.trans opened.there

theorem Opened.leafAt?_above (opened : Opened tree base) {front : Path} (above : front <+: base) :
    tree.leafAt? front = none := by
  obtain ⟨rest, rfl⟩ := above
  refine Node.leafAt?_of_directory ?_
  cases rest with
  | nil => exact List.append_nil front ▸ opened.there
  | cons name rest =>
      exact Node.surfaceAt?_above (by rw [opened.there]; nofun) (List.cons_ne_nil name rest)

theorem isLeftover_of_not_below {path : Path} (h : ¬ base <+: path) (seen : Node) :
    isLeftover base path seen = false := by
  unfold isLeftover
  rw [Bool.eq_false_iff.mpr fun isPrefix => h (List.isPrefixOf_iff_prefix.mp isPrefix)]
  simp

theorem surfaceAt?_set_sweep {entries : List (String × Node)}
    (found : tree.get? base = some (.directory entries))
    (distinct : (Node.directory entries).Distinct) (path : Path) :
    (tree.set base (Node.directory entries).sweep.1).surfaceAt? path =
      (tree.surfaceAt? path).filter fun seen => !isLeftover base path seen := by
  by_cases below : base <+: path
  · obtain ⟨rest, rfl⟩ := below
    have after : (tree.set base (Node.directory entries).sweep.1).surfaceAt? (base ++ rest) =
        (Node.directory entries).sweep.1.surfaceAt? rest := by
      unfold Node.surfaceAt?
      rw [Node.get?_append, Node.get?_set_self (Option.isSome_of_mem found)]
      rfl
    have before : tree.surfaceAt? (base ++ rest) = (Node.directory entries).surfaceAt? rest := by
      unfold Node.surfaceAt?
      rw [Node.get?_append, found]
      rfl
    rw [after, before, Node.surfaceAt?_sweep distinct]
    cases rest with
    | nil => rfl
    | cons name rest =>
        congr 1
        funext seen
        unfold isLeftover
        rw [List.isPrefixOf_iff_prefix.mpr (List.prefix_append _ _), Bool.and_true,
          List.getLast?_append, List.getLast?_cons, Option.some_or]
  · rw [Node.surfaceAt?_set below]
    cases tree.surfaceAt? path with
    | none => rfl
    | some seen =>
        rw [Option.filter_some, isLeftover_of_not_below below]
        rfl

theorem surfaceAt?_recovered (opened : Opened tree base) (path : Path) :
    (recovered tree base).surfaceAt? path =
      (tree.surfaceAt? path).filter fun seen => !isLeftover base path seen := by
  obtain ⟨entries, found⟩ := Node.surfaceAt?_eq_directory_iff.mp opened.there
  unfold recovered
  rw [found]
  exact surfaceAt?_set_sweep found (opened.distinct.get? found) path

/-- Nothing is taken away on the way to a path below the base directory none of whose names looks
like an unfinished file. -/
theorem surfaceAt?_recovered_unmarked (opened : Opened tree base) {rest front : Path}
    (unmarked : ∀ name ∈ rest, isUnfinished name = false) (above : front <+: base ++ rest) :
    (recovered tree base).surfaceAt? front = tree.surfaceAt? front := by
  rw [surfaceAt?_recovered opened]
  cases found : tree.surfaceAt? front with
  | none => rfl
  | some seen =>
  suffices kept : isLeftover base front seen = false by rw [Option.filter_some, kept]; rfl
  by_cases below : base <+: front
  · obtain ⟨more, rfl⟩ := below
    have inside := (List.prefix_append_right_inj base).mp above
    unfold isLeftover
    cases more with
    | nil =>
        rw [List.append_nil, opened.there] at found
        cases found
        rfl
    | cons first more =>
        have last : (base ++ first :: more).getLast? =
            some ((first :: more).getLast (List.cons_ne_nil _ _)) := by
          rw [List.getLast?_append, List.getLast?_eq_some_getLast (List.cons_ne_nil _ _)]
          rfl
        rw [last, Option.any_some,
          unmarked _ (inside.subset (List.getLast_mem (List.cons_ne_nil _ _))), Bool.and_false]
  · exact isLeftover_of_not_below below seen

theorem Opened.recovered (opened : Opened tree base) : Opened (recovered tree base) base where
  unlinked := opened.unlinked.of_surfaces fun path => by
    rw [surfaceAt?_recovered opened]
    cases tree.surfaceAt? path with
    | none => exact .inl rfl
    | some seen =>
        rw [Option.filter_some]
        split
        · exact .inl rfl
        · exact .inr nofun
  distinct := by
    obtain ⟨entries, found⟩ := Node.surfaceAt?_eq_directory_iff.mp opened.there
    unfold Store.recovered
    rw [found]
    exact opened.distinct.set (opened.distinct.get? found).sweep _
  plain := opened.plain
  fits := opened.fits
  there := by
    rw [surfaceAt?_recovered opened, opened.there]
    rfl

theorem opened_fresh : Opened FileTree.fresh FileTree.dataDirectory where
  unlinked := .of_linkless rfl _
  distinct := by simp [FileTree.fresh, Node.emptyDirectory, Node.Distinct, Node.DistinctEntries]
  plain := by decide
  fits := ⟨by decide, by decide, by decide⟩
  there := rfl

theorem get?_fresh_below {rest : Path} (below : rest ≠ []) :
    FileTree.fresh.get? (FileTree.dataDirectory ++ rest) = none := by
  cases rest with
  | nil => exact absurd rfl below
  | cons name rest => rfl

namespace DiskStore

theorem recover_eq (opened : Opened tree base) (pending : PendingKeys) :
    ∃ removed, recover ⟨tree, base, pending⟩ =
      (⟨recovered tree base, base, pending⟩, .ok removed) := by
  obtain ⟨entries, found⟩ := Node.surfaceAt?_eq_directory_iff.mp opened.there
  have clear : Clear tree base := opened.unlinked.clear List.prefix_rfl
  unfold recover recovered
  rw [walk_of_get? clear opened.plain opened.fits found, found]
  exact ⟨_, rfl⟩

theorem open?_of_opened (opened : Opened tree base) (some : base ≠ []) :
    open? tree base = (recovered tree base, .ok ⟨recovered tree base, base, .empty⟩) := by
  have clear : Clear tree base := opened.unlinked.clear List.prefix_rfl
  obtain ⟨removed, hrecover⟩ := recover_eq opened .empty
  unfold open?
  rw [if_neg some, makeDirectories_of_directory clear opened.plain opened.fits opened.there]
  simp only [hrecover]

theorem opened_of_open? (unlinked : Unlinked tree base) (distinct : tree.Distinct)
    (plain : IsPlain base) {after : Node} {store : DiskStore}
    (h : open? tree base = (after, .ok store)) :
    base ≠ [] ∧ ∃ made, (∀ path, Grown base tree made path) ∧ Opened made base ∧
      after = recovered made base ∧ store = ⟨recovered made base, base, .empty⟩ := by
  have clear : Clear tree base := unlinked.clear List.prefix_rfl
  have grown := grown_makeDirectories clear plain
  have madeDistinct := distinct_makeDirectories distinct base
  unfold open? at h
  split at h
  · cases h
  · rename_i some
    rcases hmade : FileTree.makeDirectories tree base with ⟨made, result⟩
    rw [hmade] at h grown madeDistinct
    cases result with
    | error error => cases h
    | ok _ =>
        obtain ⟨fits, there⟩ := surfaceAt?_of_makeDirectories clear plain hmade
        have opened : Opened made base := ⟨unlinked.grown grown, madeDistinct, plain, fits, there⟩
        obtain ⟨removed, hrecover⟩ := recover_eq opened .empty
        simp only [hrecover] at h
        cases h
        exact ⟨some, made, grown, opened, rfl, rfl⟩

end DiskStore

end Outpost.Store
