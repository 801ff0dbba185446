import Outpost.Proofs.Store.Recovery

/-!
# Interrupted puts

A put can stop anywhere: the process dies inside one of its steps, or a step fails and the
unfinished file is taken away again, as far as that works.  Wherever it stops, its key holds what
it held or the new contents, the new contents only after the move, and no other key is touched,
then and after the store is opened again.
-/

namespace Outpost.Store

namespace DiskStore

/-! ## Where puts stop -/

def Stage.hasFile : Stage → Bool
  | .makeParents | .openFile => false
  | .fill _ | .flush _ | .commit => true

namespace Write

/-- What a stage leaves behind when it does not come to its end. -/
inductive Cut (tree : Node) (write : Write) : Node → Prop
  | untouched : Cut tree write tree
  | parents {front : Path} (stage : write.stage = .makeParents) (above : front <+: write.parent) :
      Cut tree write (FileTree.makeDirectories tree front).1
  | filled {real : Path} {part : Bytes} (stage : write.stage = .fill real)
      (start : part <+: write.contents) : Cut tree write (FileTree.write tree real part)

/-- The trees in which a write may stop, with or without its contents moved to the target. -/
inductive Stops : Node → Write → Node → Bool → Prop
  | crashed {tree after : Node} {write : Write} (cut : Cut tree write after) :
      Stops tree write after false
  | failed {tree after : Node} {write : Write} (cut : Cut tree write after)
      (opened : write.stage.hasFile = true) : Stops tree write (write.abandon after) false
  | refused {tree after : Node} {write : Write} {error : StoreError}
      (step : write.step tree = (after, .finished (.error error))) : Stops tree write after false
  | moved {tree after : Node} {write : Write} (stage : write.stage = .commit)
      (rename : FileTree.rename tree write.unfinished write.target = .ok after) :
      Stops tree write after true
  | later {tree between after : Node} {write next : Write} {moved : Bool}
      (step : write.step tree = (between, .next next)) (stops : Stops between next after moved) :
      Stops tree write after moved

end Write

inductive Work.Stops (tree : Node) : Work → Node → Bool → Prop
  | untouched {path : Path} : Stops tree (.keyOnly path) tree false
  | directories {path front : Path} (missing : FileTree.stat tree path = .error .notFound)
      (above : front <+: path) :
      Stops tree (.keyOnly path) (FileTree.makeDirectories tree front).1 false
  | write {write : Write} {after : Node} {moved : Bool} (stops : write.Stops tree after moved) :
      Stops tree (.write write) after moved

def Unmarked (key : String) : Prop := ∀ segment ∈ keySegments key, isUnfinished segment = false

instance (key : String) : Decidable (Unmarked key) :=
  inferInstanceAs (Decidable (∀ segment ∈ keySegments key, isUnfinished segment = false))

/-- The trees that come about from an empty base directory by puts, each ended or stopped
anywhere, and openings. -/
inductive Reached (base : Path) : Node → Prop
  | first {tree after : Node} {store : DiskStore} (unlinked : Unlinked tree base)
      (distinct : tree.Distinct) (plain : IsPlain base)
      (empty : ∀ rest, rest ≠ [] → tree.get? (base ++ rest) = none)
      (opens : open? tree base = (after, .ok store)) : Reached base after
  | put {tree after : Node} {pending : PendingKeys} {key : String} {value : Bytes}
      {held : DiskStore} {work : Work} {moved : Bool} (reached : Reached base tree)
      (unmarked : Unmarked key) (begun : begin ⟨tree, base, pending⟩ key value = .ok (held, work))
      (stops : work.Stops tree after moved) : Reached base after
  | again {tree after : Node} {store : DiskStore} (reached : Reached base tree)
      (opens : open? tree base = (after, .ok store)) : Reached base after

/-! ## What a stopped put leaves -/

namespace Write

variable {base above : Path} {name : String} {before tree after : Node} {write : Write}

section Aimed

variable (aims : Aims base above name write) (h : Underway base before tree write)

include aims h

theorem Cut.grown (cut : write.Cut tree after) : Unlinked after base ∧
    ∀ path, path ≠ write.unfinished → Grown write.parent before after path := by
  cases cut with
  | untouched => exact ⟨h.unlinked, h.grown⟩
  | parents stage up =>
      have clear : Clear tree write.parent := aims.parent ▸ h.unlinked.clear aims.inside
      have plain : IsPlain write.parent := aims.parent ▸ aims.plain_parent
      have made := grown_makeDirectories (clear.upTo up) (plain.upTo up)
      exact ⟨h.unlinked.grown made,
        fun path outside => (h.grown path outside).trans ((made path).upTo up)⟩
  | @filled real part stage start =>
      have ready := h.ready
      unfold Ready at ready
      simp only [stage] at ready
      obtain ⟨rfl, opened⟩ := ready
      rcases opened with found | found
      · have surfaces := surfaceAt?_write (aims.unfinished ▸ found) part
        rw [← aims.unfinished] at surfaces
        exact ⟨h.unlinked.update surfaces nofun, grown_update h.grown surfaces⟩
      · unfold FileTree.write
        simp only [found]
        exact ⟨h.unlinked, h.grown⟩

theorem Stops.ended {moved : Bool} (stops : write.Stops tree after moved) :
    Ended base before after write moved := by
  induction stops with
  | crashed cut =>
      obtain ⟨unlinked, grown⟩ := cut.grown aims h
      exact .of_grown aims unlinked grown
  | failed cut opened =>
      obtain ⟨unlinked, grown⟩ := cut.grown aims h
      exact ended_abandon aims unlinked grown
  | refused hstep =>
      have leaves := leaves_step aims h
      rw [hstep] at leaves
      exact leaves
  | @moved tree after write stage hrename =>
      have leaves := leaves_step aims h
      have hstep : write.step tree = (after, .finished (.ok ())) := by
        unfold step
        simp only [stage, hrename]
      rw [hstep] at leaves
      exact leaves
  | later hstep stops ih =>
      have leaves := leaves_step aims h
      rw [hstep] at leaves
      obtain ⟨⟨stage, rfl⟩, underway⟩ := leaves
      exact (ih ⟨aims.target, aims.inside, aims.plain⟩ underway).atStage

end Aimed

theorem Cut.distinct (distinct : tree.Distinct) (cut : write.Cut tree after) : after.Distinct := by
  cases cut with
  | untouched => exact distinct
  | parents stage up => exact distinct_makeDirectories distinct _
  | filled stage start => exact distinct_write distinct _

theorem Stops.distinct (distinct : tree.Distinct) {moved : Bool}
    (stops : write.Stops tree after moved) : after.Distinct := by
  induction stops with
  | crashed cut => exact cut.distinct distinct
  | failed cut opened => exact distinct_abandon (cut.distinct distinct) _
  | @refused tree after write error hstep =>
      have kept := distinct_step distinct write
      rwa [hstep] at kept
  | moved stage hrename => exact distinct_rename distinct hrename
  | @later tree between after write next moved hstep stops ih =>
      have kept := distinct_step distinct write
      rw [hstep] at kept
      exact ih kept

end Write

variable {base : Path} {tree after : Node} {pending : PendingKeys} {key : String} {value : Bytes}
  {held : DiskStore} {work : Work} {moved : Bool}

theorem begin_cases {store : DiskStore} (h : store.begin key value = .ok (held, work)) :
    validateKey key = .ok () ∧
      (value = [] ∧ work = .keyOnly (store.pathOf key) ∨
        value ≠ [] ∧ work = .write (writeFor store.base key value)) := by
  unfold begin at h
  obtain ⟨_, hvalid, h⟩ := ok_of_bind h
  split at h
  · cases h
  · by_cases empty : value = []
    · simp only [if_pos empty] at h
      cases h
      exact ⟨hvalid, .inl ⟨empty, rfl⟩⟩
    · simp only [if_neg empty] at h
      cases h
      exact ⟨hvalid, .inr ⟨empty, rfl⟩⟩

/-- However a put stops, the base directory is left as a store needs it. -/
theorem opened_of_stops (opened : Opened tree base)
    (begun : begin ⟨tree, base, pending⟩ key value = .ok (held, work))
    (stops : work.Stops tree after moved) : Opened after base := by
  have sound : Sound ⟨tree, base, pending⟩ := ⟨opened.unlinked, opened.plain⟩
  obtain ⟨valid, ⟨-, rfl⟩ | ⟨-, rfl⟩⟩ := begin_cases begun
  · cases stops with
    | untouched => exact opened
    | directories missing up =>
        have clear := (opened.unlinked.clear (List.prefix_append _ _ : base <+: _)).upTo up
        have grown := grown_makeDirectories clear ((sound.isPlain valid).upTo up)
        exact opened.kept (opened.unlinked.grown grown)
          (distinct_makeDirectories opened.distinct _) (grown base)
  · cases stops with
    | write stops =>
        obtain ⟨above, name, aims⟩ := aims_writeFor sound valid value
        have ended := stops.ended aims (underway_writeFor sound key value)
        have elsewhere := ended.elsewhere base (aims.unfinished ▸ aims.base_ne _)
          (aims.target ▸ aims.base_ne _)
        exact opened.kept ended.unlinked (stops.distinct opened.distinct) elsewhere

theorem Reached.opened (reached : Reached base tree) : base ≠ [] ∧ Opened tree base := by
  induction reached with
  | first unlinked distinct plain empty opens =>
      obtain ⟨some, made, -, opened, rfl, -⟩ := opened_of_open? unlinked distinct plain opens
      exact ⟨some, opened.recovered⟩
  | put reached unmarked begun stops ih => exact ⟨ih.1, opened_of_stops ih.2 begun stops⟩
  | again reached opens ih =>
      rw [open?_of_opened ih.2 ih.1] at opens
      cases opens
      exact ⟨ih.1, ih.2.recovered⟩

/-! ## Gets after a stop -/

/-- What a put of contents that has stopped, with or without its move, has changed for the gets of
unmarked keys. -/
structure Atomic (before after : DiskStore) (key : String) (value : Bytes) (moved : Bool) :
    Prop where
  new : moved = true → after.get key = .ok value
  old : moved = false → after.get key = before.get key ∨
    before.get key = .error .notFound ∧ after.get key = .error (.system .nameTooLong) ∧
      ∃ segment ∈ keySegments key, maxNameLength < segment.utf8ByteSize
  others : ∀ other, Unmarked other → other ≠ key → ∀ bytes,
    after.get other = .ok bytes ↔ before.get other = .ok bytes

section Stopped

variable (opened : Opened tree base) (unmarked : Unmarked key) (holds : value ≠ [])
  (begun : begin ⟨tree, base, pending⟩ key value = .ok (held, work))
  (stops : work.Stops tree after moved)

include opened unmarked holds begun stops

/-- What is seen in the tree of a stopped put on the way to unmarked keys decides all gets. -/
theorem atomic_of_stops {last : DiskStore} (soundLast : last.Sound) (sameBase : last.base = base)
    (same : ∀ rest front, (∀ name ∈ rest, isUnfinished name = false) → front <+: base ++ rest →
      last.tree.surfaceAt? front = after.surfaceAt? front) :
    Atomic ⟨tree, base, pending⟩ last key value moved := by
  have sound : Sound ⟨tree, base, pending⟩ := ⟨opened.unlinked, opened.plain⟩
  obtain ⟨valid, ⟨rfl, -⟩ | ⟨-, rfl⟩⟩ := begin_cases begun
  · exact absurd rfl holds
  cases stops with
  | write stops =>
  obtain ⟨above, name, aims⟩ := aims_writeFor sound valid value
  have ended := stops.ended aims (underway_writeFor sound key value)
  have sees : last.tree.surfaceAt? (base ++ keySegments key) =
      after.surfaceAt? (base ++ keySegments key) := same _ _ unmarked List.prefix_rfl
  refine ⟨fun hmoved => ?_, fun hmoved => ?_, fun other unmarkedOther differs bytes => ?_⟩
  · obtain ⟨fits, stored, -⟩ := ended.stored hmoved
    refine (get_eq_ok_iff soundLast).mpr ⟨valid, ?_⟩
    unfold pathOf
    rw [sameBase, ← Node.surfaceAt?_eq_leaf_iff rfl, sees]
    exact ⟨fits, stored⟩
  · have unmoved := ended.unmoved hmoved
    have grown : ∀ front, front <+: base ++ keySegments key →
        Grown front tree last.tree front := by
      intro front isPrefix
      have grown : Grown front tree after front := by
        by_cases target : front = base ++ keySegments key
        · subst target
          exact unmoved.here
        · exact (ended.elsewhere front (aims.ne_unfinished unmarked isPrefix) target).here
      unfold Grown at grown ⊢
      rwa [same _ _ unmarked isPrefix]
    have kept := unmoved.surfaceAt?_eq (aims.target ▸ aims.not_above name)
    refine (get_grown sound soundLast sameBase grown (sees.trans kept)).imp_right ?_
    rintro ⟨missing, long, segment, inside, tooLong⟩
    refine ⟨missing, long, segment, ?_, tooLong⟩
    rcases List.mem_append.mp inside with early | late
    · exact absurd tooLong (Nat.not_lt_of_le (opened.fits.names segment early))
    · exact late
  · refine get_congr sound soundLast sameBase ?_
    have apart : base ++ keySegments other ≠ base ++ keySegments key := fun path =>
      differs (keySegments_injective (List.append_cancel_left path))
    have kept := ended.elsewhere _ (aims.ne_unfinished unmarkedOther List.prefix_rfl) apart
    change last.tree.leafAt? (base ++ keySegments other) = tree.leafAt? (base ++ keySegments other)
    rw [← kept.leafAt?_eq, Node.leafAt?_eq, Node.leafAt?_eq, same _ _ unmarkedOther List.prefix_rfl]

end Stopped

/-- Wherever a put of contents stops, at that point and when the store is opened again, its key
holds the contents if they were moved and otherwise answers as before, all other keys hold what
they held, and no unfinished file outlives the opening. -/
theorem put_atomic (reached : Reached base tree) (unmarked : Unmarked key) (holds : value ≠ [])
    (begun : begin ⟨tree, base, pending⟩ key value = .ok (held, work))
    (stops : work.Stops tree after moved) :
    (∀ busy, Atomic ⟨tree, base, pending⟩ ⟨after, base, busy⟩ key value moved) ∧
    ∃ reopened, open? after base = (reopened.tree, .ok reopened) ∧
      Atomic ⟨tree, base, pending⟩ reopened key value moved ∧
      ∀ above name contents, base <+: above → isUnfinished name = true →
        reopened.tree.get? (above ++ [name]) ≠ some (.file contents) := by
  obtain ⟨some, opened⟩ := reached.opened
  have openedAfter := opened_of_stops opened begun stops
  refine ⟨fun busy => ?_, ⟨recovered after base, base, .empty⟩, open?_of_opened openedAfter some,
    ?_, fun above name contents below marked found => ?_⟩
  · exact atomic_of_stops opened unmarked holds begun stops ⟨openedAfter.unlinked, opened.plain⟩
      rfl fun _ _ _ _ => rfl
  · exact atomic_of_stops opened unmarked holds begun stops
      ⟨openedAfter.recovered.unlinked, opened.plain⟩ rfl
      fun rest front names isPrefix => surfaceAt?_recovered_unmarked openedAfter names isPrefix
  · have seen := Node.surfaceAt?_of_get? found
    have kept := surfaceAt?_recovered openedAfter (above ++ [name])
    rw [seen, eq_comm, Option.filter_eq_some_iff] at kept
    have below : base.isPrefixOf (above ++ [name]) = true :=
      List.isPrefixOf_iff_prefix.mpr (below.trans (List.prefix_append _ _))
    unfold isLeftover at kept
    rw [below, List.getLast?_concat, Option.any_some, marked] at kept
    cases kept.2

/-! ### A name that is too long -/

def longName : String := String.ofList (List.replicate 256 'x')

def longKey : String := "a" ++ "/" ++ longName

theorem utf8ByteSize_longName : longName.utf8ByteSize = 256 := by
  have repeated : ∀ times, (String.ofList (List.replicate times 'x')).utf8ByteSize = times := by
    intro times
    induction times with
    | zero => rfl
    | succ times ih =>
        rw [List.replicate_succ, ← List.singleton_append, String.ofList_append,
          String.utf8ByteSize_append, ih, Nat.add_comm]
        rfl
  exact repeated 256

theorem toList_longName : longName.toList = List.replicate 256 'x' := String.toList_ofList

theorem keySegments_longKey : keySegments longKey = ["a", longName] := by
  have slashless : '/' ∉ longName.toList := by
    rw [toList_longName, List.mem_replicate]
    decide
  unfold longKey
  rw [keySegments_append (by decide), keySegments_of_slashless slashless]

theorem unmarked_longKey : Unmarked longKey := by
  unfold Unmarked isUnfinished Text.startsWith
  rw [keySegments_longKey, List.forall_mem_cons, List.forall_mem_cons, toList_longName]
  decide

theorem validateKey_longKey : validateKey longKey = .ok () := by
  have long := utf8ByteSize_longName
  have isLong : isSegment longName = true := by
    unfold isSegment
    simp only [ne_eq, Bool.and_eq_true, decide_eq_true_eq]
    refine ⟨⟨?_, ?_⟩, ?_⟩ <;>
    · intro same
      rw [same] at long
      cases long
  refine validateKey_of_segments ?_ ?_
  · intro same
    have segments := congrArg List.length keySegments_longKey
    rw [same] at segments
    exact absurd segments (by decide)
  · rw [keySegments_longKey]
    simp only [List.forall_mem_cons, isLong]
    decide

def halfMade : Node :=
  .directory [("tmp", .directory [("store", .directory [("a", .emptyDirectory)])]),
    ("dev", .directory [("null", .nullDevice)])]

theorem reached_fresh : Reached FileTree.dataDirectory FileTree.fresh :=
  .first opened_fresh.unlinked opened_fresh.distinct opened_fresh.plain
    (fun _ => get?_fresh_below) (open?_of_opened opened_fresh (by decide))

theorem begin_longKey : begin ⟨FileTree.fresh, FileTree.dataDirectory, .empty⟩ longKey [118] =
    .ok (⟨FileTree.fresh, FileTree.dataDirectory, ⟨[longKey]⟩⟩,
      .write (writeFor FileTree.dataDirectory longKey [118])) := by
  unfold begin
  rw [validateKey_longKey]
  rfl

theorem stops_longKey :
    (Work.write (writeFor FileTree.dataDirectory longKey [118])).Stops FileTree.fresh halfMade
      false := by
  have parent : (writeFor FileTree.dataDirectory longKey [118]).parent = ["tmp", "store", "a"] := by
    unfold Write.parent writeFor
    rw [keySegments_longKey]
    rfl
  have single : FileTree.makeDirectory FileTree.fresh ["tmp", "store", "a"] = .ok halfMade := by
    have clear : Clear FileTree.fresh ["tmp", "store", "a"] :=
      opened_fresh.unlinked.clear ⟨["a"], rfl⟩
    unfold FileTree.makeDirectory
    rw [walk_of_fits clear (by decide) ⟨by decide, by decide, by decide⟩]
    rfl
  have made : (FileTree.makeDirectories FileTree.fresh ["tmp", "store", "a"]).1 = halfMade := by
    unfold FileTree.makeDirectories
    rw [single]
  rw [← made, ← parent]
  exact .write (.crashed (.parents rfl List.prefix_rfl))

theorem put_atomic_longKey :
    Reached FileTree.dataDirectory FileTree.fresh ∧ Unmarked longKey ∧
      (Work.write (writeFor FileTree.dataDirectory longKey [118])).Stops FileTree.fresh halfMade
        false ∧
      Atomic ⟨FileTree.fresh, FileTree.dataDirectory, .empty⟩
        ⟨halfMade, FileTree.dataDirectory, .empty⟩ longKey [118] false :=
  ⟨reached_fresh, unmarked_longKey, stops_longKey,
    (put_atomic reached_fresh unmarked_longKey (by decide) begin_longKey stops_longKey).1 .empty⟩

/-- The answer for a key may change though its contents do not: nothing is found before the put,
and a name that is too long when it has stopped. -/
theorem longKey_answer_changes :
    Reached FileTree.dataDirectory FileTree.fresh ∧ Unmarked longKey ∧
      validateKey longKey = .ok () ∧
      (Work.write (writeFor FileTree.dataDirectory longKey [118])).Stops FileTree.fresh halfMade
        false ∧
      get ⟨FileTree.fresh, FileTree.dataDirectory, .empty⟩ longKey = .error .notFound ∧
      get ⟨halfMade, FileTree.dataDirectory, .empty⟩ longKey = .error (.system .nameTooLong) := by
  have long : maxNameLength < longName.utf8ByteSize := by
    rw [utf8ByteSize_longName]
    decide
  have path : FileTree.dataDirectory ++ keySegments longKey = ["tmp", "store", "a", longName] := by
    rw [keySegments_longKey]
    rfl
  have noNul : ((["tmp", "store", "a", longName] : Path).any fun name =>
      name.toList.contains '\x00') = false := by
    simp only [List.any_cons, toList_longName]
    decide
  have length : ¬ maxPathLength ≤ pathLength ["tmp", "store", "a", longName] := by
    unfold pathLength
    simp only [List.foldl_cons, utf8ByteSize_longName]
    decide
  have openedAfter := opened_of_stops opened_fresh begin_longKey stops_longKey
  refine ⟨reached_fresh, unmarked_longKey, validateKey_longKey, stops_longKey, ?_, ?_⟩
  · rw [get_eq_answer ⟨opened_fresh.unlinked, opened_fresh.plain⟩ validateKey_longKey]
    unfold pathOf
    simp only [path, noNul, if_neg length]
    rfl
  · rw [get_eq_answer ⟨openedAfter.unlinked, openedAfter.plain⟩ validateKey_longKey]
    unfold pathOf
    simp only [path, noNul, if_neg length]
    simp [seek, halfMade, Node.child?, Node.emptyDirectory, long, answer]

end DiskStore

end Outpost.Store
