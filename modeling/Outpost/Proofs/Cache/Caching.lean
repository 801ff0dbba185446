import Outpost.Proofs.Api.ObjectList
import Outpost.Proofs.Cache.Key
import Outpost.Proofs.Cache.Population
import Outpost.Proofs.Store.Maps

/-!
# Caching a list

A payload is cached once, as the list that it is without the items of other query classes, and what
cannot be cached leaves no trace.
-/

namespace Outpost

open Api Cache Json Store

namespace Api.ObjectList

variable {kind : ResourceKind} {payload : Bytes} {list : ObjectList}

theorem wellFormed_of_decode (decoded : decode kind payload = .ok list)
    (integers : IntegersOnly payload) :
    list.WellFormed ∧ list.toValue.toRaw.depth ≤ maxDepth := by
  obtain ⟨document, parsed, read⟩ := Option.bind_eq_some_iff.mp (decode_eq_ok.mp decoded).1
  split at read
  case isTrue shallow =>
    exact ⟨wellFormed_of_ofRaw? (integers document parsed) read,
      depth_toRaw_le read shallow (by decide)⟩
  case isFalse => cases read

theorem decode_encode_retain (decoded : decode kind payload = .ok list)
    (integers : IntegersOnly payload) (test : Object → Bool) :
    decode kind (list.retain test).encode = .ok (list.retain test) := by
  obtain ⟨wellFormed, shallow⟩ := wellFormed_of_decode decoded integers
  have kinds := (decode_eq_ok.mp decoded).2
  have bound := Nat.le_trans (depth_retain_le list test) shallow
  exact decode_eq_ok.mpr ⟨parse?_encode (wellFormed_retain wellFormed test) bound, kinds⟩

end Api.ObjectList

namespace Cache

variable {tiers : Tiers} {store : CountedStore} {key : Key} {payload : Bytes}

/-! ## Stage by stage -/

namespace Population

variable {population : Population} {after : Tiers} {counted : CountedStore}

theorem run_of_finished {result : Except CacheError Outcome}
    (h : population.step tiers store = (after, counted, .finished result)) :
    population.run tiers store = (after, counted, result) := by
  rw [run]
  split
  · rename_i other finished
    cases h.symm.trans finished
    rfl
  · rename_i other next
    cases h.symm.trans next

theorem run_of_next {stage : Stage}
    (h : population.step tiers store = (after, counted, .next stage)) :
    population.run tiers store = { population with stage }.run after counted := by
  rw [run]
  split
  · rename_i other finished
    cases h.symm.trans finished
  · rename_i other next
    cases h.symm.trans next
    rfl

theorem run_mark (outcome : Outcome) : run tiers store ⟨key, payload, .mark outcome⟩ =
    (tiers.markPopulated key, store, .ok outcome) :=
  run_of_finished rfl

def afterwards (tiers : Tiers) (key : Key) (items : Nat) :
    CountedStore × Except StoreError Unit → Tiers × CountedStore × Except CacheError Outcome
  | (written, .ok _) => (tiers.markPopulated key, written, .ok (.stored items))
  | (written, .error error) => (tiers, written, .error (.store error))

section Afterwards

variable {items : Nat} {written : CountedStore × Except StoreError Unit}

theorem afterwards_ok (put : written.2 = .ok ()) : afterwards tiers key items written =
    (tiers.markPopulated key, written.1, .ok (.stored items)) := by
  obtain ⟨counted, result⟩ := written
  cases put
  rfl

theorem afterwards_error {error : StoreError} (put : written.2 = .error error) :
    afterwards tiers key items written = (tiers, written.1, .error (.store error)) := by
  obtain ⟨counted, result⟩ := written
  cases put
  rfl

end Afterwards

theorem run_afterPut {items : Nat} {result : Except StoreError Unit}
    (h : population.step tiers store = (tiers, counted, afterPut items result)) :
    population.run tiers store = afterwards tiers population.key items (counted, result) := by
  cases result with
  | ok done =>
      rw [run_of_next h]
      exact run_mark _
  | error error => exact run_of_finished h

theorem run_put (list : ObjectList) : run tiers store ⟨key, payload, .put list⟩ =
    afterwards tiers key list.items.length (store.put key.storageKey list.encode) := by
  unfold CountedStore.put
  rcases begin : store.beginPut key.storageKey list.encode with ⟨begun, result | work⟩
  · refine run_afterPut ?_
    simp only [step, begin]
  · have stepped : step tiers store ⟨key, payload, .put list⟩ =
        (tiers, begun, .next (.write list.items.length work)) := by
      simp only [step, begin]
    rw [run_of_next stepped]
    exact run_afterPut rfl

theorem run_decode_ok {list : ObjectList} (cached : snapshot key payload = .ok list) :
    run tiers store ⟨key, payload, .decode⟩ =
      afterwards tiers key list.items.length (store.put key.storageKey list.encode) := by
  have stepped : step tiers store ⟨key, payload, .decode⟩ =
      (tiers, store, .next (.put list)) := by
    simp only [step, cached]
  rw [run_of_next stepped]
  exact run_put list

theorem run_decode_error {error : ListError} (undecodable : snapshot key payload = .error error) :
    run tiers store ⟨key, payload, .decode⟩ = (tiers, store, .error (.list error)) := by
  refine run_of_finished ?_
  simp only [step, undecodable]

end Population

/-! ## At once -/

theorem cacheList_of_populated (populated : tiers.isPopulated key = true) :
    cacheList tiers store key payload = (tiers, store, .ok .alreadyCached) := by
  refine Population.run_of_finished ?_
  simp only [Population.start, Population.step, populated, if_true]

section Unmarked

variable (unmarked : tiers.isPopulated key = false)

include unmarked

theorem cacheList_eq_run : cacheList tiers store key payload =
    Population.run tiers store ⟨key, payload, .lookUp⟩ := by
  have stepped : (Population.start key payload).step tiers store =
      (tiers, store, .next .lookUp) := by
    simp [Population.start, Population.step, unmarked]
  exact Population.run_of_next stepped

theorem cacheList_of_held {contents : Bytes}
    (held : (store.get key.storageKey).2 = .ok contents) :
    cacheList tiers store key payload =
      (tiers.markPopulated key, (store.get key.storageKey).1, .ok .alreadyCached) := by
  have stepped : Population.step tiers store ⟨key, payload, .lookUp⟩ =
      (tiers, (store.get key.storageKey).1, .next (.mark .alreadyCached)) := by
    simp only [Population.step, held]
  rw [cacheList_eq_run unmarked, Population.run_of_next stepped]
  exact Population.run_mark _

variable {error : StoreError} (failed : (store.get key.storageKey).2 = .error error)

include failed

theorem cacheList_of_lookUp_error (known : error.isNotFound = false) :
    cacheList tiers store key payload =
      (tiers, (store.get key.storageKey).1, .error (.store error)) := by
  rw [cacheList_eq_run unmarked]
  refine Population.run_of_finished ?_
  simp [Population.step, failed, known]

theorem cacheList_of_missing (missing : error.isNotFound = true) :
    cacheList tiers store key payload =
      Population.run tiers (store.get key.storageKey).1 ⟨key, payload, .decode⟩ := by
  have stepped : Population.step tiers store ⟨key, payload, .lookUp⟩ =
      (tiers, (store.get key.storageKey).1, .next .decode) := by
    simp [Population.step, failed, missing]
  rw [cacheList_eq_run unmarked]
  exact Population.run_of_next stepped

end Unmarked

/-! ## What is cached -/

/-- The items that an entry of the class holds: all of them, or those labelled with its name. -/
def keptItems (queryClass : QueryClass) (items : List Object) : List Object :=
  match queryClass with
  | .default => items
  | other => items.filter fun item => item.label? "type" == some other.name

def keptList (key : Key) (list : ObjectList) : ObjectList :=
  { list with items := keptItems key.queryClass list.items }

theorem retain_eq (key : Key) (list : ObjectList) :
    list.retain (retains key.queryClass) = keptList key list := by
  unfold ObjectList.retain keptList keptItems
  cases key.queryClass with
  | default => simp [retains, QueryClass.retainedType?]
  | consistency => rfl
  | resourceUsage => rfl

theorem snapshot_of_ok {list : ObjectList}
    (decoded : ObjectList.decode key.kind payload = .ok list) :
    snapshot key payload = .ok (keptList key list) := by
  unfold snapshot
  rw [decoded, ← retain_eq]
  rfl

theorem snapshot_of_error {error : ListError}
    (undecodable : ObjectList.decode key.kind payload = .error error) :
    snapshot key payload = .error error := by
  unfold snapshot
  rw [undecodable]
  rfl

def Misses (tiers : Tiers) (store : CountedStore) (key : Key) : Prop :=
  tiers.isPopulated key = false ∧
    ∃ error, (store.get key.storageKey).2 = .error error ∧ error.isNotFound = true

structure Stores (keys : String → Prop) (before : CountedStore) (key : Key) (payload : Bytes)
    (list : ObjectList) (after : CountedStore) : Prop where
  others : ∀ other, keys other → other ≠ key.storageKey →
    after.backend.contents? other = before.backend.contents? other
  found : (queryDurable after key).2 = .ok (keptList key list).encode
  readBack : IntegersOnly payload →
    ObjectList.decode key.kind (keptList key list).encode = .ok (keptList key list)

/-- What comes of caching a payload: the snapshot or nothing. -/
structure Caches (keys : String → Prop) (tiers : Tiers) (store : CountedStore) (key : Key)
    (payload : Bytes) (after : Tiers) (counted : CountedStore)
    (result : Except CacheError Outcome) : Prop where
  populated : tiers.isPopulated key = true →
    result = .ok .alreadyCached ∧ after = tiers ∧ counted = store
  held : tiers.isPopulated key = false → ∀ contents,
    (store.get key.storageKey).2 = .ok contents →
      result = .ok .alreadyCached ∧ after = tiers.markPopulated key ∧
        counted.backend = store.backend
  stored : Misses tiers store key → ∀ list, ObjectList.decode key.kind payload = .ok list →
    (store.put key.storageKey (keptList key list).encode).2 = .ok () →
      result = .ok (.stored (keptList key list).items.length) ∧
        after = tiers.markPopulated key ∧ Stores keys store key payload list counted
  lookUpFails : tiers.isPopulated key = false → ∀ error,
    (store.get key.storageKey).2 = .error error → error.isNotFound = false →
      result = .error (.store error)
  undecodable : Misses tiers store key → ∀ error,
    ObjectList.decode key.kind payload = .error error → result = .error (.list error)
  putFails : Misses tiers store key → ∀ list, ObjectList.decode key.kind payload = .ok list →
    ∀ error, (store.put key.storageKey (keptList key list).encode).2 = .error error →
      result = .error (.store error)
  failed : ∀ error, result = .error error → after = tiers ∧
    ∀ other, keys other → counted.backend.contents? other = store.backend.contents? other

theorem queryDurable_of_contents {contents : Bytes} (answers : store.getFault = none)
    (held : store.backend.contents? key.storageKey = some contents) :
    (queryDurable store key).2 = .ok contents := by
  unfold queryDurable CountedStore.get
  rw [answers]
  simp only [Backend.contents?_eq_some_iff.mp held]
  rfl

section Maps

variable {keys : String → Prop} (map : store.IsMapOn keys)

include map

theorem getFault_of_misses (misses : Misses tiers store key) : store.getFault = none := by
  obtain ⟨-, error, failed, missing⟩ := misses
  cases fault : store.getFault with
  | none => rfl
  | some injected =>
      unfold CountedStore.get at failed
      rw [fault] at failed
      cases failed
      rw [map.truthful error fault] at missing
      cases missing

variable (among : keys key.storageKey)

include among

theorem contents?_afterPut (list : ObjectList) {other : String} (amongOther : keys other) :
    ((store.get key.storageKey).1.put key.storageKey list.encode).1.backend.contents? other =
      if (store.put key.storageKey list.encode).2.isOk ∧ other = key.storageKey then
        some list.encode
      else store.backend.contents? other := by
  rw [(CountedStore.put_get store key.storageKey key.storageKey list.encode).2]
  exact map.contents?_put key.storageKey list.encode other among amongOther (encode_ne_nil list)

theorem stores_afterPut (misses : Misses tiers store key) {list : ObjectList}
    (decoded : ObjectList.decode key.kind payload = .ok list)
    (put : (store.put key.storageKey (keptList key list).encode).2 = .ok ()) :
    Stores keys store key payload list
      ((store.get key.storageKey).1.put key.storageKey (keptList key list).encode).1 where
  others other amongOther differs := by
    rw [contents?_afterPut map among _ amongOther, if_neg fun both => differs both.2]
  found := by
    have stored := contents?_afterPut map among (keptList key list) among
    rw [put, if_pos ⟨rfl, rfl⟩] at stored
    refine queryDurable_of_contents ?_ stored
    rw [CountedStore.getFault_put]
    change store.getFault = none
    exact getFault_of_misses map misses
  readBack integers := by
    rw [← retain_eq]
    exact ObjectList.decode_encode_retain decoded integers _

theorem run_decode_failed {error : CacheError} (failed :
    (Population.run tiers (store.get key.storageKey).1 ⟨key, payload, .decode⟩).2.2 =
      .error error) :
    (Population.run tiers (store.get key.storageKey).1 ⟨key, payload, .decode⟩).1 = tiers ∧
      ∀ other, keys other →
        (Population.run tiers (store.get key.storageKey).1
          ⟨key, payload, .decode⟩).2.1.backend.contents? other =
            store.backend.contents? other := by
  cases cached : snapshot key payload with
  | error undecodable =>
      rw [Population.run_decode_error cached]
      exact ⟨rfl, fun _ _ => rfl⟩
  | ok list =>
      rw [Population.run_decode_ok cached] at failed ⊢
      have same := (CountedStore.put_get store key.storageKey key.storageKey list.encode).1
      cases put : (store.put key.storageKey list.encode).2 with
      | ok done =>
          rw [Population.afterwards_ok (same.trans put)] at failed
          cases failed
      | error refused =>
          rw [Population.afterwards_error (same.trans put)]
          refine ⟨rfl, fun other amongOther => ?_⟩
          rw [contents?_afterPut map among list amongOther, put]
          exact if_neg fun both => Bool.false_ne_true both.1

/-- Whatever goes wrong leaves the marks and the contents as they were. -/
theorem cacheList_failed {error : CacheError}
    (failed : (cacheList tiers store key payload).2.2 = .error error) :
    (cacheList tiers store key payload).1 = tiers ∧ ∀ other, keys other →
      (cacheList tiers store key payload).2.1.backend.contents? other =
        store.backend.contents? other := by
  cases populated : tiers.isPopulated key with
  | true =>
      rw [cacheList_of_populated populated] at failed
      cases failed
  | false =>
      cases found : (store.get key.storageKey).2 with
      | ok contents =>
          rw [cacheList_of_held populated found] at failed
          cases failed
      | error refusal =>
          cases missing : refusal.isNotFound with
          | false =>
              rw [cacheList_of_lookUp_error populated found missing]
              exact ⟨rfl, fun _ _ => rfl⟩
          | true =>
              rw [cacheList_of_missing populated found missing] at failed ⊢
              exact run_decode_failed map among failed

/-- Caching a payload stores the right snapshot or nothing. -/
theorem cacheList_caches (tiers : Tiers) (payload : Bytes) :
    Caches keys tiers store key payload (cacheList tiers store key payload).1
      (cacheList tiers store key payload).2.1 (cacheList tiers store key payload).2.2 where
  populated populated := by
    rw [cacheList_of_populated populated]
    exact ⟨rfl, rfl, rfl⟩
  held unmarked contents found := by
    rw [cacheList_of_held unmarked found]
    exact ⟨rfl, rfl, rfl⟩
  stored misses list decoded put := by
    have stores := stores_afterPut map among misses decoded put
    obtain ⟨unmarked, error, found, missing⟩ := misses
    rw [cacheList_of_missing unmarked found missing,
      Population.run_decode_ok (snapshot_of_ok decoded)]
    rw [← (CountedStore.put_get store key.storageKey key.storageKey _).1] at put
    rw [Population.afterwards_ok put]
    exact ⟨rfl, rfl, stores⟩
  lookUpFails unmarked error found known := by
    rw [cacheList_of_lookUp_error unmarked found known]
  undecodable misses error undecodable := by
    obtain ⟨unmarked, missed, found, missing⟩ := misses
    rw [cacheList_of_missing unmarked found missing,
      Population.run_decode_error (snapshot_of_error undecodable)]
  putFails misses list decoded error put := by
    obtain ⟨unmarked, missed, found, missing⟩ := misses
    rw [cacheList_of_missing unmarked found missing,
      Population.run_decode_ok (snapshot_of_ok decoded)]
    rw [← (CountedStore.put_get store key.storageKey key.storageKey _).1] at put
    rw [Population.afterwards_error put]
  failed error failed := cacheList_failed map among failed

end Maps

/-- On the keys of requests a store of either kind is a map. -/
theorem isMapOn_storageKeys (sound : store.backend.Sound)
    (truthful : ∀ error, store.getFault = some error → error.isNotFound = false) :
    store.IsMapOn fun text =>
      ∃ key : Key, '/' ∉ key.scope.toList ∧ text = key.storageKey := by
  refine CountedStore.isMapOn_sound sound truthful ?_
  rintro _ _ ⟨key, slashless, rfl⟩ ⟨other, slashlessOther, rfl⟩
  exact Key.keySegments_ne_unfinishedSegments slashlessOther slashless

def consistentKey : Key := ⟨.pods, "default", .consistency⟩

def podText (name labels : String) : String :=
  "\x7b\"metadata\":\x7b\"name\":\"" ++ name ++ "\"" ++ labels ++ "\x7d\x7d"

def podsText (items : List String) : Bytes := Bytes.ofText
  ("\x7b\"kind\":\"PodList\",\"items\":[" ++ ",".intercalate items ++
    "],\"metadata\":\x7b\"resourceVersion\":7\x7d\x7d")

def consistencyLabel : String := ",\"labels\":\x7b\"type\":\"consistency\"\x7d"

def mixedPods : Bytes :=
  podsText [podText "a" consistencyLabel, podText "b" "", podText "c" consistencyLabel]

theorem cacheList_caches_pods :
    let result := cacheList .empty .inMemory consistentKey mixedPods
    CountedStore.inMemory.IsMapOn (fun _ => True) ∧ IntegersOnly mixedPods ∧
      result.2.2.toOption = some (.stored 2) ∧ result.1.isPopulated consistentKey = true ∧
      (queryDurable result.2.1 consistentKey).2.toOption =
        some (podsText [podText "a" consistencyLabel, podText "c" consistencyLabel]) ∧
      Caches (fun _ => True) .empty .inMemory consistentKey mixedPods result.1 result.2.1
        result.2.2 := by
  intro result
  have map : CountedStore.inMemory.IsMapOn fun _ => True :=
    CountedStore.isMapOn_memory rfl nofun
  have integers : IntegersOnly mixedPods := by decide +kernel
  have stored : result.2.2.toOption = some (.stored 2) := by decide +kernel
  have found : (queryDurable result.2.1 consistentKey).2.toOption =
      some (podsText [podText "a" consistencyLabel, podText "c" consistencyLabel]) := by
    decide +kernel
  exact ⟨map, integers, stored, by decide +kernel, found,
    cacheList_caches map trivial .empty mixedPods⟩

end Cache

end Outpost
