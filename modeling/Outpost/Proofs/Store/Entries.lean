import Outpost.Proofs.Store.Isolation

/-!
# Where entries come from

What a store holds once a put has begun or ended it has held before, or it is what the put has
brought.
-/

namespace Outpost.Store

theorem MemoryStore.get_eq_ok_iff {store : MemoryStore} {key : String} {value : Bytes} :
    store.get key = .ok value ↔
      validateKey key = .ok () ∧ store.find? key = some value ∧ value ≠ [] := by
  unfold get
  cases validateKey key with
  | error error => exact ⟨nofun, nofun⟩
  | ok _ =>
      rcases store.find? key with - | (- | ⟨byte, rest⟩)
      · exact ⟨nofun, nofun⟩
      · exact ⟨nofun, fun h => absurd (Option.some.inj h.2.1).symm h.2.2⟩
      · constructor
        · rintro ⟨⟩
          exact ⟨rfl, rfl, List.cons_ne_nil _ _⟩
        · rintro ⟨-, ⟨⟩, -⟩
          rfl

theorem MemoryStore.get_of_put {store after : MemoryStore} {key other : String}
    {value contents : Bytes} {result : Except StoreError Unit}
    (h : store.put key value = (after, result)) (present : after.get other = .ok contents) :
    store.get other = .ok contents ∨ other = key ∧ contents = value := by
  cases result with
  | error error =>
      have same := put_of_error h
      subst same
      exact .inl present
  | ok _ =>
      rw [get_eq_ok_iff, find?_put h] at present
      obtain ⟨valid, found, holds⟩ := present
      split at found
      · rename_i same
        exact .inr ⟨same, (Option.some.inj found).symm⟩
      · exact .inl (get_eq_ok_iff.mpr ⟨valid, found, holds⟩)

namespace DiskStore

variable {store after : DiskStore} {key other : String} {value contents : Bytes}

theorem get_of_finish {result : Except StoreError Unit} (sound : store.Sound)
    (valid : validateKey key = .ok ())
    (h : store.finish key (.write (writeFor store.base key value)) = (after, result))
    (apart : keySegments other ≠ unfinishedSegments key)
    (present : after.get other = .ok contents) :
    store.get other = .ok contents ∨ other = key ∧ contents = value := by
  obtain ⟨soundAfter, sameBase, stored, failed⟩ := finish_write sound valid h
  by_cases own : other = key
  · subst own
    cases result with
    | ok _ => exact .inr ⟨rfl, Except.ok.inj (present.symm.trans (stored rfl))⟩
    | error error => exact .inl ((failed error rfl contents).mp present)
  · refine .inl ((get_congr sound soundAfter sameBase ?_).mp present)
    unfold finish at h
    cases h
    have ended := ended_writeFor sound valid value
    have differ : keySegments other ≠ keySegments key :=
      fun path => own (keySegments_injective path)
    exact (grown_of_ended ended differ apart).leafAt?_eq

end DiskStore

/-! ## Either kind -/

namespace Backend

variable {backend after : Backend} {key other : String} {value contents : Bytes}

def OwesContents (base? : Option Path) (key : String) (value : Bytes) (work : DiskStore.Work) :
    Prop :=
  ∃ base, base? = some base ∧ validateKey key = .ok () ∧
    work = .write (DiskStore.writeFor base key value)

theorem owes_of_beginPut {work : DiskStore.Work} (holds : value ≠ [])
    (h : backend.beginPut key value = (after, .inr work)) :
    OwesContents backend.base? key value work := by
  unfold beginPut at h
  split at h
  · cases h
  · split at h
    · cases h
    · rename_i begun
      cases h
      obtain ⟨valid, owed, -⟩ := DiskStore.begin_ok holds begun
      exact ⟨_, rfl, valid, owed⟩

theorem contents?_of_beginPut (holds : value ≠ [])
    {begun : Except StoreError Unit ⊕ DiskStore.Work}
    (h : backend.beginPut key value = (after, begun))
    (present : after.contents? other = some contents) :
    backend.contents? other = some contents ∨ other = key ∧ contents = value := by
  rw [contents?_eq_some_iff] at present ⊢
  unfold beginPut at h
  split at h
  · rename_i store
    rcases hput : store.put key value with ⟨stored, result⟩
    simp only [hput] at h
    cases h
    exact MemoryStore.get_of_put hput present
  · split at h
    · cases h
      exact .inl present
    · rename_i held work begun
      cases h
      obtain ⟨-, -, pending, rfl⟩ := DiskStore.begin_ok holds begun
      exact .inl present

theorem contents?_of_finishPut (sound : backend.Sound) {work : DiskStore.Work}
    (owes : OwesContents backend.base? key value work) {result : Except StoreError Unit}
    (h : backend.finishPut key work = (after, result)) :
    after.Sound ∧ after.base? = backend.base? ∧
      ∀ other contents, keySegments other ≠ DiskStore.unfinishedSegments key →
        after.contents? other = some contents →
        backend.contents? other = some contents ∨ other = key ∧ contents = value := by
  obtain ⟨base, hbase, valid, rfl⟩ := owes
  cases backend with
  | memory store => cases hbase
  | disk store =>
      cases hbase
      rcases hfinish : store.finish key (.write (DiskStore.writeFor store.base key value)) with
        ⟨written, ended⟩
      simp only [finishPut, hfinish] at h
      cases h
      obtain ⟨soundAfter, sameBase, -⟩ := DiskStore.finish_write sound valid hfinish
      refine ⟨soundAfter, congrArg some sameBase, fun other contents apart present => ?_⟩
      rw [contents?_eq_some_iff] at present ⊢
      exact DiskStore.get_of_finish sound valid hfinish apart present

inductive PutsUnder (key : String) (before : Backend) : Backend → Prop where
  | begins (value : Bytes) : PutsUnder key before (before.beginPut key value).1
  | ends (work : DiskStore.Work) : PutsUnder key before (before.finishPut key work).1

section Others

variable (differs : other ≠ key)

include differs

theorem contents?_beginPut_of_ne (holds : value ≠ [])
    {begun : Except StoreError Unit ⊕ DiskStore.Work}
    (h : backend.beginPut key value = (after, begun)) :
    after.contents? other = backend.contents? other := by
  unfold beginPut at h
  split at h
  · rename_i store
    rcases hput : store.put key value with ⟨stored, result⟩
    simp only [hput] at h
    cases h
    cases result with
    | error error =>
        have same := MemoryStore.put_of_error hput
        rw [same]
    | ok _ =>
        ext contents
        rw [contents?_eq_some_iff, contents?_eq_some_iff]
        change stored.get other = .ok contents ↔ store.get other = .ok contents
        rw [MemoryStore.get_eq_ok_iff, MemoryStore.get_eq_ok_iff, MemoryStore.find?_put hput,
          if_neg differs]
  · split at h
    · cases h
      rfl
    · rename_i held work begun
      cases h
      obtain ⟨-, -, pending, rfl⟩ := DiskStore.begin_ok holds begun
      rfl

theorem contents?_finishPut_of_ne (sound : backend.Sound) {work : DiskStore.Work}
    (owes : OwesContents backend.base? key value work) {result : Except StoreError Unit}
    (h : backend.finishPut key work = (after, result))
    (apart : keySegments other ≠ DiskStore.unfinishedSegments key) :
    after.contents? other = backend.contents? other := by
  obtain ⟨base, hbase, valid, rfl⟩ := owes
  cases backend with
  | memory store => cases hbase
  | disk store =>
      cases hbase
      rcases hfinish : store.finish key (.write (DiskStore.writeFor store.base key value)) with
        ⟨written, answer⟩
      simp only [finishPut, hfinish] at h
      cases h
      obtain ⟨soundAfter, sameBase, -⟩ := DiskStore.finish_write sound valid hfinish
      have ended := DiskStore.ended_writeFor sound valid value
      have differ : keySegments other ≠ keySegments key :=
        fun path => differs (keySegments_injective path)
      unfold DiskStore.finish at hfinish
      cases hfinish
      have kept := (DiskStore.grown_of_ended ended differ apart).leafAt?_eq
      ext contents
      rw [contents?_eq_some_iff, contents?_eq_some_iff]
      exact DiskStore.get_congr sound soundAfter sameBase kept

end Others

end Backend

end Outpost.Store
