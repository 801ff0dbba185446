import Outpost.Proofs.Store.Walks
import Outpost.Store.Disk

/-!
# Writing to the disk

From its first stage to its last, a write changes what is seen of no path but that of the
unfinished file beside its target, where it makes no directory on the way there; only the move at
the end changes the target, from what it was to the contents written.
-/

namespace Outpost.Store

def Unlinked (root : Node) (base : Path) : Prop :=
  ∀ path target, root.leafAt? path = some (.link target) → ¬ path <+: base ∧ ¬ base <+: path

variable {root after : Node} {base path : Path}

theorem Unlinked.clear (h : Unlinked root base) (below : base <+: path) : Clear root path := by
  intro front target isPrefix found
  rcases List.prefix_or_prefix_of_prefix isPrefix below with above | inside
  · exact (h front target found).1 above
  · exact (h front target found).2 inside

theorem leafAt?_eq_link_iff {target : String} :
    root.leafAt? path = some (.link target) ↔ root.surfaceAt? path = some (.link target) := by
  rw [Node.leafAt?_eq, Option.filter_eq_some_iff]
  exact ⟨fun h => h.1, fun h => ⟨h, rfl⟩⟩

theorem Unlinked.of_surfaces (h : Unlinked root base)
    (surfaces : ∀ path, after.surfaceAt? path = root.surfaceAt? path ∨
      ∀ target, after.surfaceAt? path ≠ some (.link target)) : Unlinked after base := by
  intro path target found
  rw [leafAt?_eq_link_iff] at found
  rcases surfaces path with same | other
  · exact h path target (leafAt?_eq_link_iff.mpr (same ▸ found))
  · exact absurd found (other target)

theorem Unlinked.grown {below : Path} (h : Unlinked root base)
    (grown : ∀ path, Grown below root after path) : Unlinked after base := by
  refine h.of_surfaces fun path => (grown path).imp_right ?_
  rintro ⟨-, -, made⟩ target found
  cases made.symm.trans found

theorem Unlinked.update {seen : Option Node} (h : Unlinked root base)
    (surfaces : ∀ other, after.surfaceAt? other =
      if other = path then seen else root.surfaceAt? other)
    (unlinked : ∀ target, seen ≠ some (.link target)) : Unlinked after base := by
  refine h.of_surfaces fun other => ?_
  rw [surfaces]
  split
  · exact .inr unlinked
  · exact .inl rfl

mutual

def Node.linkless : Node → Bool
  | .directory entries => linklessEntries entries
  | .link _ => false
  | _ => true

def Node.linklessEntries : List (String × Node) → Bool
  | [] => true
  | (_, node) :: rest => node.linkless && linklessEntries rest

end

theorem Node.linkless_child {root child : Node} {name : String} (h : root.linkless = true)
    (found : root.child? name = some child) : child.linkless = true := by
  cases root with
  | directory entries =>
      rw [linkless] at h
      induction entries with
      | nil => cases found
      | cons entry rest ih =>
          obtain ⟨first, kept⟩ := entry
          rw [linklessEntries, Bool.and_eq_true] at h
          rw [child?_cons] at found
          split at found
          · cases found
            exact h.1
          · exact ih h.2 found
  | _ => cases found

theorem Unlinked.of_linkless (h : root.linkless = true) (base : Path) : Unlinked root base := by
  intro path target found
  exfalso
  induction path generalizing root with
  | nil =>
      cases root with
      | link target => cases h
      | _ => cases found
  | cons name rest ih =>
      rw [Node.leafAt?_cons] at found
      obtain ⟨child, hchild, below⟩ := Option.bind_eq_some_iff.mp found
      exact ih (Node.linkless_child h hchild) below

namespace DiskStore

/-! ## The unfinished file -/

theorem isPlain_unfinished {name : String} :
    unfinishedMark ++ name ≠ "." ∧ unfinishedMark ++ name ≠ ".." := by
  constructor <;> intro same <;>
    · have first := congrArg (fun text : String => text.toList.head?) same
      simp [unfinishedMark] at first

theorem isUnfinished_append (name : String) : isUnfinished (unfinishedMark ++ name) = true := by
  unfold isUnfinished Text.startsWith
  rw [String.toList_append, List.isPrefixOf_iff_prefix]
  exact List.prefix_append _ _

theorem isUnfinished_iff {name : String} :
    isUnfinished name = true ↔ ∃ rest, name = unfinishedMark ++ rest := by
  constructor
  · intro marked
    unfold isUnfinished Text.startsWith at marked
    obtain ⟨rest, whole⟩ := List.isPrefixOf_iff_prefix.mp marked
    refine ⟨String.ofList rest, String.toList_injective ?_⟩
    rw [String.toList_append, String.toList_ofList, whole]
  · rintro ⟨rest, rfl⟩
    exact isUnfinished_append rest

theorem unfinishedMark_append_ne (name : String) : unfinishedMark ++ name ≠ name := by
  intro same
  have longer := congrArg String.length same
  rw [String.length_append] at longer
  have : unfinishedMark.length = 4 := by decide
  omega

namespace Write

/-- The write is for a name in a directory at or below the base, and no name on the way to it
would lead elsewhere. -/
structure Aims (base above : Path) (name : String) (write : Write) : Prop where
  target : write.target = above ++ [name]
  inside : base <+: above
  plain : IsPlain (above ++ [name])

variable {base above : Path} {name : String} {before tree after : Node} {write : Write}

theorem Aims.parent (h : Aims base above name write) : write.parent = above := by
  unfold Write.parent
  rw [h.target, List.dropLast_concat]

theorem Aims.unfinished (h : Aims base above name write) :
    write.unfinished = above ++ [unfinishedMark ++ name] := by
  unfold Write.unfinished
  rw [h.parent, h.target, List.getLast?_concat]
  rfl

theorem Aims.plain_parent (h : Aims base above name write) : IsPlain above :=
  h.plain.upTo (List.prefix_append _ _)

theorem Aims.plain_unfinished (h : Aims base above name write) :
    IsPlain (above ++ [unfinishedMark ++ name]) := by
  intro other hother
  rcases List.mem_append.mp hother with early | last
  · exact h.plain_parent other early
  · cases List.mem_singleton.mp last
    exact isPlain_unfinished

theorem Aims.clear (h : Aims base above name write) (unlinked : Unlinked tree base)
    (last : String) : Clear tree (above ++ [last]) :=
  unlinked.clear (h.inside.trans (List.prefix_append _ _))

theorem Aims.target_ne (h : Aims base above name write) : write.target ≠ write.unfinished := by
  rw [h.target, h.unfinished]
  intro same
  exact unfinishedMark_append_ne name (List.singleton_inj.mp (List.append_cancel_left same)).symm

theorem Aims.not_above (h : Aims base above name write) (last : String) :
    ¬ above ++ [last] <+: write.parent := by
  rw [h.parent]
  intro isPrefix
  have := isPrefix.length_le
  rw [List.length_append, List.length_singleton] at this
  omega

theorem Aims.base_ne (h : Aims base above name write) (last : String) : base ≠ above ++ [last] := by
  intro same
  have := h.inside.length_le
  rw [same, List.length_append, List.length_singleton] at this
  omega

theorem Aims.ne_unfinished (h : Aims base above name write) {rest front : Path}
    (unmarked : ∀ other ∈ rest, isUnfinished other = false) (isPrefix : front <+: base ++ rest) :
    front ≠ write.unfinished := by
  rintro rfl
  obtain ⟨inner, rfl⟩ := h.inside
  rw [h.unfinished, List.append_assoc, List.prefix_append_right_inj] at isPrefix
  have marked := unmarked _ (isPrefix.subset (List.mem_append_right _ List.mem_cons_self))
  rw [isUnfinished_append] at marked
  cases marked

/-! ## Stages -/

/-- What the unfinished file is at a stage. -/
def Ready (tree : Node) (write : Write) : Prop :=
  match write.stage with
  | .makeParents | .openFile => True
  | .fill real => real = write.unfinished ∧
      (tree.get? real = some (.file []) ∨ tree.get? real = some .nullDevice)
  | .flush real => real = write.unfinished ∧
      (tree.get? real = some (.file write.contents) ∨ tree.get? real = some .nullDevice)
  | .commit => tree.get? write.unfinished = some (.file write.contents)

/-- What a write leaves as it was before, until it is over. -/
structure Underway (base : Path) (before tree : Node) (write : Write) : Prop where
  unlinked : Unlinked tree base
  grown : ∀ path, path ≠ write.unfinished → Grown write.parent before tree path
  ready : write.Ready tree

/-- What a write has done when it is over, with or without its contents moved to the target. -/
structure Ended (base : Path) (before after : Node) (write : Write) (moved : Bool) : Prop where
  unlinked : Unlinked after base
  elsewhere : ∀ path, path ≠ write.unfinished → path ≠ write.target →
    Grown write.parent before after path
  unmoved : moved = false → Grown write.parent before after write.target
  stored : moved = true → Fits write.target ∧
    after.surfaceAt? write.target = some (.file write.contents) ∧
    after.surfaceAt? write.unfinished = none

theorem Ended.of_grown (aims : Aims base above name write) (unlinked : Unlinked after base)
    (grown : ∀ path, path ≠ write.unfinished → Grown write.parent before after path) :
    Ended base before after write false where
  unlinked := unlinked
  elsewhere path outside _ := grown path outside
  unmoved _ := grown write.target aims.target_ne
  stored := nofun

theorem grown_update {seen : Option Node}
    (grown : ∀ path, path ≠ write.unfinished → Grown write.parent before tree path)
    (surfaces : ∀ other, after.surfaceAt? other =
      if other = write.unfinished then seen else tree.surfaceAt? other) :
    ∀ path, path ≠ write.unfinished → Grown write.parent before after path := by
  intro path outside
  refine (grown path outside).trans (.inl ?_)
  rw [surfaces, if_neg outside]

theorem ended_abandon (aims : Aims base above name write) (unlinked : Unlinked tree base)
    (grown : ∀ path, path ≠ write.unfinished → Grown write.parent before tree path) :
    Ended base before (write.abandon tree) write false := by
  unfold abandon
  split
  · rename_i removed h
    rw [aims.unfinished] at h
    have erased := remove_ok (aims.clear unlinked _) aims.plain_unfinished h
    rw [← aims.unfinished] at erased
    exact .of_grown aims (unlinked.update erased fun _ => (Option.some_ne_none _).symm)
      (grown_update grown erased)
  · exact .of_grown aims unlinked grown

def Leaves (base : Path) (before : Node) (write : Write) : Node × Progress → Prop
  | (after, .next next) =>
      (∃ stage, next = { write with stage }) ∧ Underway base before after next
  | (after, .finished result) => Ended base before after write result.isOk

section Stages

variable (aims : Aims base above name write) (h : Underway base before tree write)

include aims h

theorem leaves_makeParents (hstage : write.stage = .makeParents) :
    Leaves base before write (write.step tree) := by
  have clear : Clear tree above := h.unlinked.clear aims.inside
  have made := grown_makeDirectories clear aims.plain_parent
  have unlinked := h.unlinked.grown made
  rw [← aims.parent] at made unlinked
  have grown := fun path outside => (h.grown path outside).trans (made path)
  unfold step
  simp only [hstage]
  split
  · rename_i made done hmade
    rw [hmade] at unlinked grown
    exact ⟨⟨.openFile, rfl⟩, unlinked, grown, trivial⟩
  · rename_i made error hmade
    rw [hmade] at unlinked grown
    exact .of_grown aims unlinked grown

theorem leaves_openFile (hstage : write.stage = .openFile) :
    Leaves base before write (write.step tree) := by
  unfold step
  simp only [hstage]
  split
  · rename_i created real hcreate
    rw [aims.unfinished] at hcreate
    obtain ⟨rfl, -, opened⟩ := create_ok (aims.clear h.unlinked _) aims.plain_unfinished hcreate
    rw [← aims.unfinished] at opened ⊢
    refine ⟨⟨.fill _, rfl⟩, ?_⟩
    rcases opened with surfaces | ⟨rfl, found⟩
    · have empty := surfaces write.unfinished
      rw [if_pos rfl, Node.surfaceAt?_eq_leaf_iff rfl] at empty
      exact ⟨h.unlinked.update surfaces nofun, grown_update h.grown surfaces, rfl, .inl empty⟩
    · exact ⟨h.unlinked, h.grown, rfl, .inr found⟩
  · exact .of_grown aims h.unlinked h.grown

theorem leaves_fill {real : Path} (hstage : write.stage = .fill real) :
    Leaves base before write (write.step tree) := by
  have ready := h.ready
  unfold Ready at ready
  simp only [hstage] at ready
  obtain ⟨rfl, opened⟩ := ready
  unfold step
  simp only [hstage]
  refine ⟨⟨.flush _, rfl⟩, ?_⟩
  rcases opened with found | found
  · have surfaces := surfaceAt?_write (aims.unfinished ▸ found) write.contents
    rw [← aims.unfinished] at surfaces
    have filled := surfaces write.unfinished
    rw [if_pos rfl, Node.surfaceAt?_eq_leaf_iff rfl] at filled
    exact ⟨h.unlinked.update surfaces nofun, grown_update h.grown surfaces, rfl, .inl filled⟩
  · unfold FileTree.write
    simp only [found]
    exact ⟨h.unlinked, h.grown, rfl, .inr found⟩

theorem leaves_flush {real : Path} (hstage : write.stage = .flush real) :
    Leaves base before write (write.step tree) := by
  have ready := h.ready
  unfold Ready at ready
  simp only [hstage] at ready
  obtain ⟨rfl, opened⟩ := ready
  unfold step
  simp only [hstage, FileTree.sync]
  rcases opened with found | found
  · simp only [found]
    exact ⟨⟨.commit, rfl⟩, h.unlinked, h.grown, found⟩
  · simp only [found]
    exact ended_abandon aims h.unlinked h.grown

theorem leaves_commit (hstage : write.stage = .commit) :
    Leaves base before write (write.step tree) := by
  have ready := h.ready
  unfold Ready at ready
  simp only [hstage] at ready
  unfold step
  simp only [hstage]
  split
  · rename_i renamed hrename
    rw [aims.unfinished] at ready
    rw [aims.unfinished, aims.target] at hrename
    obtain ⟨fits, free, surfaces⟩ := rename_ok (aims.clear h.unlinked _) aims.plain_unfinished
      (aims.clear h.unlinked _) aims.plain ready (unfinishedMark_append_ne name) hrename
    rw [← aims.target, ← aims.unfinished] at surfaces
    refine ⟨h.unlinked.of_surfaces fun path => ?_, fun path outside other => ?_, ?_,
      fun _ => ⟨aims.target.symm ▸ fits, ?_, ?_⟩⟩
    · rw [surfaces]
      split
      · refine .inr ?_
        rintro target ⟨⟩
      · split
        · exact .inr fun _ => (Option.some_ne_none _).symm
        · exact .inl rfl
    · refine (h.grown path outside).trans (.inl ?_)
      rw [surfaces, if_neg other, if_neg outside]
    · rintro ⟨⟩
    · rw [surfaces, if_pos rfl]
    · rw [surfaces, if_neg aims.target_ne.symm, if_pos rfl]
  · exact ended_abandon aims h.unlinked h.grown

theorem leaves_step : Leaves base before write (write.step tree) := by
  cases hstage : write.stage with
  | makeParents => exact leaves_makeParents aims h hstage
  | openFile => exact leaves_openFile aims h hstage
  | fill real => exact leaves_fill aims h hstage
  | flush real => exact leaves_flush aims h hstage
  | commit => exact leaves_commit aims h hstage

end Stages

theorem Ended.atStage {moved : Bool} {stage : Stage}
    (h : Ended base before after { write with stage } moved) :
    Ended base before after write moved :=
  ⟨h.unlinked, h.elsewhere, h.unmoved, h.stored⟩

theorem run_eq (tree : Node) (write : Write) :
    write.run tree = match write.step tree with
      | (after, .finished result) => (after, result)
      | (after, .next next) => next.run after := by
  rw [run]
  split <;> rename_i hstep <;> simp only [hstep]

/-- A write that is run to its end has stored its contents, or has left the target alone. -/
theorem run_ended (aims : Aims base above name write) (h : Underway base before tree write) :
    Ended base before (write.run tree).1 write (write.run tree).2.isOk := by
  fun_induction run tree write with
  | case1 tree write after result hstep =>
      have leaves := leaves_step aims h
      rw [hstep] at leaves
      exact leaves
  | case2 tree write after next hstep remaining ih =>
      have leaves := leaves_step aims h
      rw [hstep] at leaves
      obtain ⟨⟨stage, rfl⟩, underway⟩ := leaves
      exact (ih ⟨aims.target, aims.inside, aims.plain⟩ underway).atStage

/-! ## Writes that nothing is in the way of -/

def Replaceable (tree : Node) (path : Path) : Prop :=
  ∀ seen, tree.surfaceAt? path = some seen → seen.isFile = true

/-- Nothing is in the way of the unfinished file. -/
def Unhindered (tree : Node) (write : Write) : Prop :=
  match write.stage with
  | .makeParents => (∀ front, front <+: write.parent → tree.leafAt? front = none) ∧
      Replaceable tree write.unfinished
  | .openFile => tree.surfaceAt? write.parent = some .emptyDirectory ∧
      Replaceable tree write.unfinished
  | .fill _ | .flush _ | .commit => ∃ contents, tree.get? write.unfinished = some (.file contents)

theorem unhindered_of_file (hstage : write.stage = .makeParents) {contents : Bytes}
    (found : tree.get? write.unfinished = some (.file contents)) : write.Unhindered tree := by
  have seen := Node.surfaceAt?_of_get? found
  unfold Unhindered
  simp only [hstage]
  refine ⟨?_, fun node file => ?_⟩
  · rintro front ⟨rest, hrest⟩
    have path : write.unfinished =
        front ++ (rest ++ [unfinishedMark ++ write.target.getLast?.getD ""]) := by
      rw [← List.append_assoc, hrest]
      rfl
    rw [path] at seen
    exact Node.leafAt?_of_directory (Node.surfaceAt?_above (by rw [seen]; nofun) (by simp))
  · cases seen.symm.trans file
    rfl

def Movable (before : Node) (write : Write) : Prop :=
  Fits write.target ∧ before.surfaceAt? write.target ≠ some .emptyDirectory

def Clears (before : Node) (write : Write) : Node × Progress → Prop
  | (after, .next next) => next.Unhindered after
  | (after, .finished result) =>
      after.surfaceAt? write.unfinished = none ∧ (result.isOk = true ↔ Movable before write)

section Unhindered

variable (aims : Aims base above name write) (h : Underway base before tree write)
  (fits : Fits write.unfinished) (unhindered : write.Unhindered tree)

include aims h fits unhindered

theorem clears_makeParents (hstage : write.stage = .makeParents) :
    Clears before write (write.step tree) := by
  unfold Unhindered at unhindered
  simp only [hstage] at unhindered
  obtain ⟨open_, replaceable⟩ := unhindered
  have clear : Clear tree write.parent := aims.parent ▸ h.unlinked.clear aims.inside
  have plain : IsPlain write.parent := aims.parent ▸ aims.plain_parent
  have up : write.parent <+: write.unfinished := List.prefix_append _ _
  have made := makeDirectories_of_open clear plain (fits.upTo up) open_
  have grown := grown_makeDirectories clear plain
  rcases hmade : FileTree.makeDirectories tree write.parent with ⟨after, result⟩
  rw [hmade] at made grown
  cases made
  unfold step
  simp only [hstage, hmade]
  refine ⟨(surfaceAt?_of_makeDirectories clear plain hmade).2, fun seen found => ?_⟩
  have outside : ¬ write.unfinished <+: write.parent := aims.unfinished ▸ aims.not_above _
  exact replaceable seen (((grown _).surfaceAt?_eq outside).symm.trans found)

theorem clears_openFile (hstage : write.stage = .openFile) :
    Clears before write (write.step tree) := by
  unfold Unhindered at unhindered
  simp only [hstage] at unhindered
  obtain ⟨there, replaceable⟩ := unhindered
  have clear := aims.clear h.unlinked (unfinishedMark ++ name)
  have plain := aims.plain_unfinished
  rw [aims.parent] at there
  rw [aims.unfinished] at fits replaceable
  obtain ⟨entries, directory⟩ := Node.surfaceAt?_eq_directory_iff.mp there
  have opened : ∃ created, FileTree.create tree (above ++ [unfinishedMark ++ name]) =
      .ok (created, above ++ [unfinishedMark ++ name]) := by
    cases found : tree.get? (above ++ [unfinishedMark ++ name]) with
    | none => exact create_of_absent clear plain fits directory found
    | some node =>
        have isFile := replaceable _ (Node.surfaceAt?_of_get? found)
        cases node with
        | file contents => exact create_of_file clear plain fits found
        | _ => cases isFile
  obtain ⟨created, hcreate⟩ := opened
  obtain ⟨-, -, surfaces⟩ := create_ok clear plain hcreate
  unfold step
  simp only [hstage, aims.unfinished, hcreate]
  change ∃ contents, created.get? write.unfinished = some (.file contents)
  rw [aims.unfinished]
  rcases surfaces with surfaces | ⟨rfl, device⟩
  · have empty := surfaces (above ++ [unfinishedMark ++ name])
    rw [if_pos rfl, Node.surfaceAt?_eq_leaf_iff rfl] at empty
    exact ⟨[], empty⟩
  · cases replaceable _ (Node.surfaceAt?_of_get? device)

omit fits in
theorem clears_fill {real : Path} (hstage : write.stage = .fill real) :
    Clears before write (write.step tree) := by
  have ready := h.ready
  unfold Ready at ready
  unfold Unhindered at unhindered
  simp only [hstage] at ready unhindered
  obtain ⟨rfl, -⟩ := ready
  obtain ⟨old, found⟩ := unhindered
  have filled := surfaceAt?_write (aims.unfinished ▸ found) write.contents write.unfinished
  rw [← aims.unfinished, if_pos rfl, Node.surfaceAt?_eq_leaf_iff rfl] at filled
  unfold step
  simp only [hstage]
  exact ⟨write.contents, filled⟩

omit aims fits in
theorem clears_flush {real : Path} (hstage : write.stage = .flush real) :
    Clears before write (write.step tree) := by
  have ready := h.ready
  unfold Ready at ready
  unfold Unhindered at unhindered
  simp only [hstage] at ready unhindered
  obtain ⟨rfl, -⟩ := ready
  obtain ⟨contents, found⟩ := unhindered
  unfold step
  simp only [hstage, FileTree.sync, found]
  exact ⟨contents, found⟩

theorem clears_commit (hstage : write.stage = .commit) :
    Clears before write (write.step tree) := by
  unfold Unhindered at unhindered
  simp only [hstage] at unhindered
  obtain ⟨contents, found⟩ := unhindered
  have clear := aims.clear h.unlinked (unfinishedMark ++ name)
  have clearTarget := aims.clear h.unlinked name
  have kept := (h.grown write.target aims.target_ne).surfaceAt?_eq (aims.target ▸ aims.not_above _)
  rw [aims.unfinished] at fits found
  have movable : Movable before write ↔
      Fits (above ++ [name]) ∧ tree.surfaceAt? (above ++ [name]) ≠ some .emptyDirectory := by
    unfold Movable
    rw [← kept, aims.target]
  unfold step
  simp only [hstage, aims.unfinished, aims.target]
  cases hrename : FileTree.rename tree (above ++ [unfinishedMark ++ name]) (above ++ [name]) with
  | ok renamed =>
      obtain ⟨fitsTarget, free, surfaces⟩ := rename_ok clear aims.plain_unfinished clearTarget
        aims.plain found (unfinishedMark_append_ne name) hrename
      refine ⟨?_, fun _ => movable.mpr ⟨fitsTarget, free⟩, fun _ => rfl⟩
      have gone := surfaces write.unfinished
      rwa [if_neg (aims.target ▸ aims.target_ne.symm), if_pos aims.unfinished] at gone
  | error error =>
      obtain ⟨removed, hremove⟩ := remove_of_file clear aims.plain_unfinished fits found
      refine ⟨?_, ?_, fun canMove => ?_⟩
      · unfold abandon
        rw [aims.unfinished, hremove]
        simp only
        rw [remove_ok clear aims.plain_unfinished hremove, if_pos rfl]
      · rintro ⟨⟩
      · obtain ⟨fitsTarget, free⟩ := movable.mp canMove
        obtain ⟨renamed, ok⟩ := rename_of_free clear aims.plain_unfinished clearTarget aims.plain
          found fits fitsTarget free
        cases hrename.symm.trans ok

theorem clears_step : Clears before write (write.step tree) := by
  cases hstage : write.stage with
  | makeParents => exact clears_makeParents aims h fits unhindered hstage
  | openFile => exact clears_openFile aims h fits unhindered hstage
  | fill real => exact clears_fill aims h unhindered hstage
  | flush real => exact clears_flush h unhindered hstage
  | commit => exact clears_commit aims h fits unhindered hstage

/-- At the end the unfinished file is gone, and only a target that is a directory or too long a
path can have kept it from being moved there. -/
theorem run_clears : (write.run tree).1.surfaceAt? write.unfinished = none ∧
    ((write.run tree).2.isOk = true ↔ Movable before write) := by
  fun_induction run tree write with
  | case1 tree write after result hstep =>
      have clears := clears_step aims h fits unhindered
      rw [hstep] at clears
      exact clears
  | case2 tree write after next hstep remaining ih =>
      have leaves := leaves_step aims h
      have clears := clears_step aims h fits unhindered
      rw [hstep] at leaves clears
      obtain ⟨⟨stage, rfl⟩, underway⟩ := leaves
      exact ih ⟨aims.target, aims.inside, aims.plain⟩ underway fits clears

end Unhindered

end Write

end DiskStore

end Outpost.Store
