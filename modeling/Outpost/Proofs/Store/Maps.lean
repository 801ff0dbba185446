import Outpost.Proofs.Store.Entries

/-!
# Stores as maps

A put that succeeds sets its key and nothing else, and one that fails sets nothing.  In memory this
holds of all keys; on the disk it holds of keys that do not name the unfinished file of another.
-/

namespace Outpost.Store

namespace Backend

variable {backend after : Backend} {key other : String} {value : Bytes}

theorem contents?_of_begun (holds : value ≠ []) {work : DiskStore.Work}
    (h : backend.beginPut key value = (after, .inr work)) (other : String) :
    after.contents? other = backend.contents? other := by
  unfold beginPut at h
  split at h
  · cases h
  · split at h
    · cases h
    · rename_i begun
      cases h
      obtain ⟨-, -, pending, rfl⟩ := DiskStore.begin_ok holds begun
      rfl

theorem contents?_beginPut (holds : value ≠ []) {result : Except StoreError Unit}
    (h : backend.beginPut key value = (after, .inl result)) (other : String) :
    after.contents? other =
      if result.isOk ∧ other = key then some value else backend.contents? other := by
  by_cases differs : other = key
  · subst differs
    unfold beginPut at h
    split at h
    · rename_i store
      rcases put : store.put other value with ⟨stored, outcome⟩
      simp only [put] at h
      cases h
      cases result with
      | ok done =>
          rw [if_pos ⟨rfl, rfl⟩, contents?_eq_some_iff]
          exact MemoryStore.get_put put holds
      | error error =>
          rw [if_neg fun both => Bool.false_ne_true both.1, MemoryStore.put_of_error put]
    · split at h <;> cases h
      rw [if_neg fun both => Bool.false_ne_true both.1]
  · rw [if_neg fun both => differs both.2]
    exact contents?_beginPut_of_ne differs holds h

theorem contents?_finishPut (sound : backend.Sound) {work : DiskStore.Work}
    (owes : OwesContents backend.base? key value work) {result : Except StoreError Unit}
    (h : backend.finishPut key work = (after, result))
    (apart : keySegments other ≠ DiskStore.unfinishedSegments key) :
    after.contents? other =
      if result.isOk ∧ other = key then some value else backend.contents? other := by
  by_cases differs : other = key
  · subst differs
    obtain ⟨base, hbase, valid, rfl⟩ := owes
    cases backend with
    | memory store => cases hbase
    | disk store =>
        cases hbase
        rcases finish : store.finish other (.write (DiskStore.writeFor store.base other value)) with
          ⟨written, outcome⟩
        simp only [finishPut, finish] at h
        cases h
        obtain ⟨-, -, stored, failed⟩ := DiskStore.finish_write sound valid finish
        cases result with
        | ok done =>
            rw [if_pos ⟨rfl, rfl⟩, contents?_eq_some_iff]
            exact stored rfl
        | error error =>
            rw [if_neg fun both => Bool.false_ne_true both.1]
            ext found
            rw [contents?_eq_some_iff, contents?_eq_some_iff]
            exact failed error rfl found
  · rw [if_neg fun both => differs both.2]
    exact contents?_finishPut_of_ne differs sound owes h apart

end Backend

namespace CountedStore

variable {store after : CountedStore} {key : String} {value : Bytes}

/-- On these keys the store is a map: a put sets its key or nothing, and gets do not claim that
nothing is there where something is. -/
structure IsMapOn (keys : String → Prop) (store : CountedStore) : Prop where
  truthful : ∀ error, store.getFault = some error → error.isNotFound = false
  contents?_put : ∀ key value other, keys key → keys other → value ≠ [] →
    (store.put key value).1.backend.contents? other =
      if (store.put key value).2.isOk ∧ other = key then some value
      else store.backend.contents? other

theorem contents?_put (sound : store.backend.Sound) (holds : value ≠ []) {other : String}
    (apart : (∃ memory, store.backend = .memory memory) ∨
      keySegments other ≠ DiskStore.unfinishedSegments key) :
    (store.put key value).1.backend.contents? other =
      if (store.put key value).2.isOk ∧ other = key then some value
      else store.backend.contents? other := by
  unfold put
  rcases begin : store.beginPut key value with ⟨begun, rest⟩
  rcases backend_of_beginPut begin with ⟨same, error, rfl⟩ | begins
  · simp [same, Except.isOk, Except.toBool]
  · cases rest with
    | inl result => exact Backend.contents?_beginPut holds begins other
    | inr work =>
        have owes := Backend.owes_of_beginPut holds begins
        obtain ⟨soundBegun, base, -⟩ := Backend.beginPut_cases sound holds begins
        replace apart : keySegments other ≠ DiskStore.unfinishedSegments key := by
          refine apart.resolve_left ?_
          rintro ⟨memory, inMemory⟩
          obtain ⟨base, disk, -⟩ := owes
          rw [inMemory] at disk
          cases disk
        rw [← Backend.contents?_of_begun holds begins other]
        exact Backend.contents?_finishPut soundBegun (base ▸ owes) (backend_of_finishPut rfl)
          apart

theorem getFault_put (store : CountedStore) (key : String) (value : Bytes) :
    (store.put key value).1.getFault = store.getFault := by
  unfold put
  rcases begin : store.beginPut key value with ⟨begun, result | work⟩
  · exact getFault_of_beginPut begin
  · exact (getFault_of_finishPut rfl).trans (getFault_of_beginPut begin)

theorem put_get (store : CountedStore) (looked key : String) (value : Bytes) :
    ((store.get looked).1.put key value).2 = (store.put key value).2 ∧
      ((store.get looked).1.put key value).1.backend = (store.put key value).1.backend := by
  unfold get put beginPut
  cases store.putFault with
  | some error => exact ⟨rfl, rfl⟩
  | none =>
      rcases store.backend.beginPut key value with ⟨backend, result | work⟩
      · simp only [note_backend, and_self]
      · simp only [finishPut, note_backend, and_self]

theorem isMapOn_memory {memory : MemoryStore} (inMemory : store.backend = .memory memory)
    (truthful : ∀ error, store.getFault = some error → error.isNotFound = false) :
    store.IsMapOn fun _ => True where
  truthful := truthful
  contents?_put _ _ _ _ _ holds :=
    contents?_put (inMemory ▸ trivial) holds (.inl ⟨memory, inMemory⟩)

/-- A store of either kind is a map on keys that name no unfinished file of one another. -/
theorem isMapOn_sound {keys : String → Prop} (sound : store.backend.Sound)
    (truthful : ∀ error, store.getFault = some error → error.isNotFound = false)
    (apart : ∀ key other, keys key → keys other →
      keySegments other ≠ DiskStore.unfinishedSegments key) :
    store.IsMapOn keys where
  truthful := truthful
  contents?_put key _ other among amongOther holds :=
    contents?_put sound holds (.inr (apart key other among amongOther))

end CountedStore

end Outpost.Store
