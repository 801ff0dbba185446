import Outpost.Proofs.Cache.Key

/-!
# The same answers from memory and disk

On the keys of cached lists the store in memory and the one on the disk are not told apart: the
tree below the base directory holds a file for each entry in memory and, between two calls,
nothing else but directories on the way.  Opening the store on the disk again changes nothing.
-/

namespace Outpost.Cache

open Store

/-! ## Calls -/

inductive StoreCall where
  | get (key : Key)
  | put (key : Key) (value : Bytes)

def StoreCall.IsProper : StoreCall → Prop
  | .get key => key.IsFlat
  | .put key value => key.IsFlat ∧ value ≠ []

def StoreCall.FitsBelow (base : Path) : StoreCall → Prop
  | .get key | .put key _ => key.FitsBelow base

inductive StoreAnswer where
  | got (result : Except StoreError Bytes)
  | done (result : Except StoreError Unit)

inductive StoreStep where
  | call (made : StoreCall)
  | reopen

def StoreStep.call? : StoreStep → Option StoreCall
  | .call made => some made
  | .reopen => none

def performInMemory (store : MemoryStore) : StoreCall → MemoryStore × StoreAnswer
  | .get key => (store, .got (store.get key.storageKey))
  | .put key value =>
      let (after, result) := store.put key.storageKey value
      (after, .done result)

def performOnDisk (store : DiskStore) : StoreCall → DiskStore × StoreAnswer
  | .get key => (store, .got (store.get key.storageKey))
  | .put key value =>
      let (after, result) := store.put key.storageKey value
      (after, .done result)

def answersInMemory (store : MemoryStore) : List StoreCall → List StoreAnswer
  | [] => []
  | call :: rest =>
      let (after, answer) := performInMemory store call
      answer :: answersInMemory after rest

def answersOnDisk? (store : DiskStore) : List StoreStep → Option (List StoreAnswer)
  | [] => some []
  | .call call :: rest =>
      let (after, answer) := performOnDisk store call
      (answersOnDisk? after rest).map (answer :: ·)
  | .reopen :: rest =>
      match DiskStore.open? store.tree store.base with
      | (_, .ok reopened) => answersOnDisk? reopened rest
      | (_, .error _) => none

/-! ## Mirrored entries -/

/-- The store on the disk holds what the one in memory holds, as far as calls can tell. -/
structure Mirrors (memory : MemoryStore) (disk : DiskStore) : Prop where
  named : disk.base ≠ []
  opened : Opened disk.tree disk.base
  memoryIdle : memory.pending = .empty
  diskIdle : disk.pending = .empty
  contents : ∀ key value, memory.find? key = some value → value ≠ []
  directories : ∀ (key : Key) (front : Path), front <+: key.entryDirectory →
    disk.tree.leafAt? (disk.base ++ front) = none
  entries : ∀ key : Key, key.IsFlat →
    disk.tree.surfaceAt? (disk.base ++ keySegments key.storageKey) =
      (memory.find? key.storageKey).map .file
  swept : ∀ key : Key, key.IsFlat →
    disk.tree.surfaceAt? (disk.base ++ DiskStore.unfinishedSegments key.storageKey) = none

variable {memory : MemoryStore} {disk : DiskStore} {key : Key} {value : Bytes}

namespace Mirrors

theorem sound (mirrors : Mirrors memory disk) : disk.Sound :=
  ⟨mirrors.opened.unlinked, mirrors.opened.plain⟩

theorem open_ (mirrors : Mirrors memory disk) {front : Path}
    (above : front <+: disk.base ++ key.entryDirectory) : disk.tree.leafAt? front = none := by
  rcases List.prefix_or_prefix_of_prefix above (List.prefix_append disk.base _) with
    outside | inside
  · exact mirrors.opened.leafAt?_above outside
  · obtain ⟨rest, rfl⟩ := inside
    exact mirrors.directories key rest ((List.prefix_append_right_inj _).mp above)

theorem parent_writeFor (slashless : '/' ∉ key.scope.toList) (base : Path) (value : Bytes) :
    (DiskStore.writeFor base key.storageKey value).parent = base ++ key.entryDirectory := by
  unfold DiskStore.Write.parent DiskStore.writeFor
  simp only
  rw [Key.keySegments_storageKey slashless, ← List.append_assoc, List.dropLast_concat]

section Calls

variable (mirrors : Mirrors memory disk) (flat : key.IsFlat) (room : key.FitsBelow disk.base)

include mirrors flat room

theorem get_eq : disk.get key.storageKey = memory.get key.storageKey := by
  cases valid : validateKey key.storageKey with
  | error error =>
      rw [DiskStore.get_of_not_valid valid]
      unfold MemoryStore.get
      rw [valid]
      rfl
  | ok _ =>
      have fits := Key.fits_storageKey flat mirrors.opened.fits room
      have seen := mirrors.entries key flat
      unfold MemoryStore.get
      rw [valid]
      cases found : memory.find? key.storageKey with
      | none =>
          rw [found] at seen
          refine DiskStore.get_of_missing mirrors.sound valid fits (fun front above => ?_) seen
          rw [Key.keySegments_storageKey flat.slashless, ← List.append_assoc] at seen
          unfold DiskStore.pathOf at above
          rw [Key.keySegments_storageKey flat.slashless, ← List.append_assoc,
            List.prefix_concat_iff] at above
          rcases above with rfl | onTheWay
          · rw [Node.leafAt?_eq, seen]
            rfl
          · exact mirrors.open_ onTheWay
      | some value =>
          rw [found] at seen
          have got := (DiskStore.get_eq_ok_iff mirrors.sound).mpr
            ⟨valid, fits, (Node.surfaceAt?_eq_leaf_iff rfl).mp seen⟩
          have holds := mirrors.contents _ _ found
          rw [got]
          cases value with
          | nil => exact absurd rfl holds
          | cons byte rest => rfl

omit room in
theorem unhindered (value : Bytes) :
    (DiskStore.writeFor disk.base key.storageKey value).Unhindered disk.tree := by
  refine ⟨fun front above => ?_, fun seen found => ?_⟩
  · rw [parent_writeFor flat.slashless] at above
    exact mirrors.open_ above
  · rw [DiskStore.unfinished_writeFor, mirrors.swept key flat] at found
    cases found

theorem movable (value : Bytes) :
    (DiskStore.writeFor disk.base key.storageKey value).Movable disk.tree := by
  refine ⟨Key.fits_storageKey flat mirrors.opened.fits room, ?_⟩
  have seen := mirrors.entries key flat
  change disk.tree.surfaceAt? (disk.base ++ keySegments key.storageKey) ≠ _
  rw [seen]
  cases memory.find? key.storageKey with
  | none => nofun
  | some value => nofun

omit room in
theorem stored {after : MemoryStore} {tree : Node}
    (put : memory.put key.storageKey value = (after, .ok ())) (idle : after.pending = .empty)
    (holds : value ≠ []) (distinct : tree.Distinct)
    (ended :
      (DiskStore.writeFor disk.base key.storageKey value).Ended disk.base disk.tree tree true)
    (gone : tree.surfaceAt? (disk.base ++ DiskStore.unfinishedSegments key.storageKey) = none) :
    Mirrors after ⟨tree, disk.base, .empty⟩ := by
  have grown : ∀ rest, rest ≠ keySegments key.storageKey →
      rest ≠ DiskStore.unfinishedSegments key.storageKey →
      Grown (disk.base ++ key.entryDirectory) disk.tree tree (disk.base ++ rest) := by
    intro rest notTarget notUnfinished
    rw [← parent_writeFor flat.slashless disk.base value]
    exact DiskStore.grown_of_ended ended notTarget notUnfinished
  have outside : ∀ rest : Path, rest.length = 4 →
      ¬ disk.base ++ rest <+: disk.base ++ key.entryDirectory := by
    intro rest long above
    have shorter := ((List.prefix_append_right_inj _).mp above).length_le
    change rest.length ≤ 3 at shorter
    omega
  have length := Key.length_keySegments flat.slashless
  have lengthUnfinished := Key.length_unfinishedSegments flat.slashless
  refine ⟨mirrors.named, ?_, idle, rfl, fun other found h => ?_, fun other front above => ?_,
    fun other flatOther => ?_, fun other flatOther => ?_⟩
  · have base := grown [] (fun same => by rw [← same] at length; cases length)
      (fun same => by rw [← same] at lengthUnfinished; cases lengthUnfinished)
    rw [List.append_nil] at base
    exact mirrors.opened.kept ended.unlinked distinct base
  · rw [MemoryStore.find?_put put] at h
    split at h
    · cases h
      exact holds
    · exact mirrors.contents other found h
  · have short : front.length ≤ 3 := above.length_le
    have kept := grown front (fun same => by rw [same] at short; omega)
      fun same => by rw [same] at short; omega
    exact kept.leafAt?_eq.trans (mirrors.directories other front above)
  · rw [MemoryStore.find?_put put]
    by_cases same : other.storageKey = key.storageKey
    · rw [same, if_pos rfl]
      exact (ended.stored rfl).2.1
    · have kept := grown _ (fun path => same (keySegments_injective path))
        (Key.keySegments_ne_unfinishedSegments flatOther.slashless flat.slashless)
      rw [if_neg same, ← mirrors.entries other flatOther]
      exact kept.surfaceAt?_eq (outside _ (Key.length_keySegments flatOther.slashless))
  · by_cases same : DiskStore.unfinishedSegments other.storageKey =
        DiskStore.unfinishedSegments key.storageKey
    · rw [same]
      exact gone
    · have kept := grown _
        (Key.keySegments_ne_unfinishedSegments flat.slashless flatOther.slashless).symm same
      rw [← mirrors.swept other flatOther]
      exact kept.surfaceAt?_eq (outside _ (Key.length_unfinishedSegments flatOther.slashless))

theorem put_eq (holds : value ≠ []) :
    (disk.put key.storageKey value).2 = (memory.put key.storageKey value).2 ∧
      (disk.put key.storageKey value).1.base = disk.base ∧
      Mirrors (memory.put key.storageKey value).1 (disk.put key.storageKey value).1 := by
  cases valid : validateKey key.storageKey with
  | error error =>
      have refused : memory.put key.storageKey value = (memory, .error error) := by
        unfold MemoryStore.put
        rw [valid]
      have refusedToo : disk.put key.storageKey value = (disk, .error error) := by
        unfold DiskStore.put DiskStore.begin
        rw [valid]
        rfl
      rw [refused, refusedToo]
      exact ⟨rfl, rfl, mirrors⟩
  | ok _ =>
      obtain ⟨after, hput, idle⟩ := MemoryStore.put_of_idle valid mirrors.memoryIdle holds
      have free : disk.pending.acquire? key.storageKey = some ⟨[key.storageKey]⟩ := by
        rw [mirrors.diskIdle]
        rfl
      have released : PendingKeys.release ⟨[key.storageKey]⟩ key.storageKey = .empty := by
        simp [PendingKeys.release, PendingKeys.empty]
      obtain ⟨above, name, aims⟩ := DiskStore.aims_writeFor mirrors.sound valid value
      have underway := DiskStore.underway_writeFor mirrors.sound key.storageKey value
      have fits := Key.fits_unfinished flat mirrors.opened.fits room
      rw [← DiskStore.unfinished_writeFor disk.base key.storageKey value] at fits
      obtain ⟨gone, ends⟩ := DiskStore.Write.run_clears aims underway fits
        (mirrors.unhindered flat value)
      have moved := ends.mpr (mirrors.movable flat room value)
      have ended := DiskStore.ended_writeFor mirrors.sound valid value
      have distinct := DiskStore.distinct_run mirrors.opened.distinct
        (DiskStore.writeFor disk.base key.storageKey value)
      rw [moved] at ended
      rw [DiskStore.unfinished_writeFor] at gone
      rw [DiskStore.put_of_free valid free, hput, if_neg holds, released]
      refine ⟨?_, rfl, mirrors.stored flat hput idle holds distinct ended gone⟩
      cases result : ((DiskStore.writeFor disk.base key.storageKey value).run disk.tree).2 with
      | error error =>
          rw [result] at moved
          cases moved
      | ok _ => rfl

end Calls

/-! ## Openings -/

theorem isLeftover_entry {base path : Path} {queryClass : QueryClass} (seen : Node) :
    isLeftover base (path ++ [queryClass.name]) seen = false := by
  unfold isLeftover
  rw [List.getLast?_concat, Option.any_some, Key.isUnfinished_queryClass, Bool.and_false]

theorem recovered (mirrors : Mirrors memory disk) :
    Mirrors memory ⟨recovered disk.tree disk.base, disk.base, .empty⟩ := by
  have surfaces := surfaceAt?_recovered mirrors.opened
  refine ⟨mirrors.named, mirrors.opened.recovered, mirrors.memoryIdle, rfl, mirrors.contents,
    fun key front above => ?_, fun key flat => ?_, fun key flat => ?_⟩
  · have kept := mirrors.directories key front above
    rw [Node.leafAt?_eq] at kept ⊢
    rw [surfaces]
    cases seen : disk.tree.surfaceAt? (disk.base ++ front) with
    | none => rfl
    | some node =>
        rw [seen] at kept
        cases node with
        | directory entries => rfl
        | _ => cases kept
  · rw [surfaces, ← mirrors.entries key flat, Key.keySegments_storageKey flat.slashless,
      ← List.append_assoc]
    cases disk.tree.surfaceAt? (disk.base ++ key.entryDirectory ++ [key.queryClass.name]) with
    | none => rfl
    | some seen =>
        rw [Option.filter_some, isLeftover_entry]
        rfl
  · rw [surfaces, mirrors.swept key flat]
    rfl

theorem of_open? {tree after : Node} {base : Path} (unlinked : Unlinked tree base)
    (distinct : tree.Distinct) (plain : IsPlain base)
    (empty : ∀ rest, rest ≠ [] → tree.get? (base ++ rest) = none)
    (opens : DiskStore.open? tree base = (after, .ok disk)) :
    disk.base = base ∧ Mirrors MemoryStore.empty disk := by
  obtain ⟨named, made, grown, opened, -, rfl⟩ :=
    DiskStore.opened_of_open? unlinked distinct plain opens
  have missing : ∀ rest, rest ≠ [] →
      (Store.recovered made base).surfaceAt? (base ++ rest) = none := by
    intro rest some
    have outside : ¬ base ++ rest <+: base := by
      intro above
      have := above.length_le
      rw [List.length_append] at this
      exact some (List.eq_nil_of_length_eq_zero (by omega))
    rw [surfaceAt?_recovered opened, (grown _).surfaceAt?_eq outside,
      Node.surfaceAt?_eq_none_iff.mpr (empty rest some)]
    rfl
  refine ⟨rfl, named, opened.recovered, rfl, rfl, nofun, fun key front above => ?_,
    fun key flat => ?_, fun key flat => ?_⟩
  · cases front with
    | nil =>
        exact opened.recovered.leafAt?_above ⟨[], by simp only [List.append_nil]⟩
    | cons name rest =>
        rw [Node.leafAt?_eq, missing _ (List.cons_ne_nil name rest), Option.filter_none]
  · exact missing _ (keySegments_ne_nil _)
  · refine missing _ fun none => ?_
    have length := Key.length_unfinishedSegments flat.slashless
    rw [none] at length
    cases length

end Mirrors

/-! ## Runs -/

theorem perform_eq (mirrors : Mirrors memory disk) {call : StoreCall} (proper : call.IsProper)
    (room : call.FitsBelow disk.base) :
    (performOnDisk disk call).2 = (performInMemory memory call).2 ∧
      (performOnDisk disk call).1.base = disk.base ∧
      Mirrors (performInMemory memory call).1 (performOnDisk disk call).1 := by
  cases call with
  | get key =>
      unfold StoreCall.IsProper at proper
      unfold StoreCall.FitsBelow at room
      have same := mirrors.get_eq proper room
      exact ⟨congrArg StoreAnswer.got same, rfl, mirrors⟩
  | put key value =>
      unfold StoreCall.IsProper at proper
      unfold StoreCall.FitsBelow at room
      obtain ⟨same, base, after⟩ := mirrors.put_eq proper.1 room proper.2
      unfold performOnDisk performInMemory
      simp only
      rw [same]
      exact ⟨rfl, base, after⟩

theorem answersOnDisk?_eq (mirrors : Mirrors memory disk) (steps : List StoreStep)
    (proper : ∀ call ∈ steps.filterMap StoreStep.call?, call.IsProper)
    (room : ∀ call ∈ steps.filterMap StoreStep.call?, call.FitsBelow disk.base) :
    answersOnDisk? disk steps =
      some (answersInMemory memory (steps.filterMap StoreStep.call?)) := by
  induction steps generalizing memory disk with
  | nil => rfl
  | cons step rest ih =>
      cases step with
      | call made =>
          simp only [List.filterMap_cons, StoreStep.call?, List.forall_mem_cons] at proper room ⊢
          obtain ⟨same, base, after⟩ := perform_eq mirrors proper.1 room.1
          unfold answersOnDisk? answersInMemory
          simp only
          rw [ih after proper.2 (base ▸ room.2), same]
          rfl
      | reopen =>
          unfold answersOnDisk?
          rw [DiskStore.open?_of_opened mirrors.opened mirrors.named]
          exact ih mirrors.recovered proper room

/-- Run from nothing, the store in memory and the one on the disk answer every call alike, however
often the one on the disk is opened again in between, unless the file system has a fault.  To refuse
a path for its length is one, and the calls fit below every base directory that is not too long. -/
theorem stores_agree {tree after : Node} {base : Path} {store : DiskStore}
    (unlinked : Unlinked tree base) (distinct : tree.Distinct) (plain : IsPlain base)
    (empty : ∀ rest, rest ≠ [] → tree.get? (base ++ rest) = none)
    (opens : DiskStore.open? tree base = (after, .ok store)) (steps : List StoreStep)
    (proper : ∀ call ∈ steps.filterMap StoreStep.call?, call.IsProper)
    (room : ∀ call ∈ steps.filterMap StoreStep.call?, call.FitsBelow base) :
    answersOnDisk? store steps =
      some (answersInMemory MemoryStore.empty (steps.filterMap StoreStep.call?)) := by
  obtain ⟨rfl, mirrors⟩ := Mirrors.of_open? unlinked distinct plain empty opens
  exact answersOnDisk?_eq mirrors steps proper room

def oddSteps : List StoreStep :=
  [.call (.put ⟨.pods, "tmp_default", .default⟩ [120]), .reopen,
    .call (.get ⟨.pods, "tmp_default", .default⟩), .call (.put ⟨.pods, "..", .default⟩ [121])]

theorem stores_agree_oddSteps :
    DiskStore.open? FileTree.fresh FileTree.dataDirectory =
      (FileTree.fresh, .ok ⟨FileTree.fresh, FileTree.dataDirectory, .empty⟩) ∧
    answersOnDisk? ⟨FileTree.fresh, FileTree.dataDirectory, .empty⟩ oddSteps =
      some [.done (.ok ()), .got (.ok [120]),
        .done (.error (.invalidKey "cache/pods/../default"))] := by
  have opens := DiskStore.open?_of_opened opened_fresh (by decide)
  have first : (Key.mk .pods "tmp_default" .default).IsFlat := ⟨by decide, by decide, by decide⟩
  have second : (Key.mk .pods ".." .default).IsFlat := ⟨by decide, by decide, by decide⟩
  have short : pathLength FileTree.dataDirectory + 291 < maxPathLength := by decide
  refine ⟨opens, (stores_agree opened_fresh.unlinked opened_fresh.distinct opened_fresh.plain
    (fun _ => get?_fresh_below) opens oddSteps ?_ ?_).trans ?_⟩
  · intro call inside
    rcases List.mem_cons.mp inside with rfl | inside
    · exact ⟨first, by decide⟩
    rcases List.mem_cons.mp inside with rfl | inside
    · exact first
    cases List.mem_singleton.mp inside
    exact ⟨second, by decide⟩
  · intro call inside
    rcases List.mem_cons.mp inside with rfl | inside
    · exact Key.FitsBelow.of_base first short
    rcases List.mem_cons.mp inside with rfl | inside
    · exact Key.FitsBelow.of_base first short
    cases List.mem_singleton.mp inside
    exact Key.FitsBelow.of_base second short
  · rfl

end Outpost.Cache
