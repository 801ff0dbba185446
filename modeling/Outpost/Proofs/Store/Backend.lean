import Outpost.Proofs.Store.Disk
import Outpost.Proofs.Store.Keys
import Outpost.Store.Counted

/-!
# What a store holds under a key

A put that ends well leaves its contents under its key; a put that fails, or whose files are not
written yet, leaves the key as it was.  This holds of both kinds of store, of the one on the disk
where no links lead astray.
-/

namespace Outpost.Store

/-! ## Memory -/

namespace MemoryStore

variable {store : MemoryStore} {key : String} {value : Bytes}

theorem find?_replace (key : String) (value : Bytes) (entries : List (String × Bytes)) :
    ((replace key value entries).find? fun entry => entry.1 == key) = some (key, value) := by
  induction entries with
  | nil => simp [replace]
  | cons entry rest ih =>
      obtain ⟨other, kept⟩ := entry
      by_cases same : other = key
      · simp [replace, same]
      · simp [replace, same, ih]

theorem find?_replace_of_ne {other : String} (differs : other ≠ key) (value : Bytes)
    (entries : List (String × Bytes)) :
    ((replace key value entries).find? fun entry => entry.1 == other) =
      entries.find? fun entry => entry.1 == other := by
  induction entries with
  | nil => simp [replace, differs.symm]
  | cons entry rest ih =>
      obtain ⟨first, kept⟩ := entry
      by_cases same : first = key
      · simp [replace, same, differs.symm]
      · simp [replace, same, ih, List.find?_cons]

theorem put_cases (store : MemoryStore) (key : String) (value : Bytes) :
    (∃ error, store.put key value = (store, .error error)) ∨
      validateKey key = .ok () ∧
        store.put key value =
          ({ store with entries := replace key value store.entries }, .ok ()) := by
  unfold put
  split
  · exact .inl ⟨_, rfl⟩
  · rename_i hvalid
    split
    · exact .inl ⟨_, rfl⟩
    · split
      · exact .inl ⟨_, rfl⟩
      · exact .inr ⟨hvalid, rfl⟩

theorem find?_put {after : MemoryStore} (h : store.put key value = (after, .ok ()))
    (other : String) :
    after.find? other = if other = key then some value else store.find? other := by
  rcases put_cases store key value with ⟨error, failed⟩ | ⟨-, done⟩
  · cases failed.symm.trans h
  · cases done.symm.trans h
    unfold find?
    split
    · rename_i same
      rw [same, find?_replace]
      rfl
    · rename_i differs
      rw [find?_replace_of_ne differs]

theorem put_of_idle (valid : validateKey key = .ok ()) (idle : store.pending = .empty)
    (holds : value ≠ []) : ∃ after, store.put key value = (after, .ok ()) ∧
      after.pending = .empty := by
  refine ⟨{ store with entries := replace key value store.entries }, ?_, idle⟩
  unfold put
  rw [valid, idle]
  simp only
  exact if_neg fun h => holds h.1

theorem get_put {after : MemoryStore} (h : store.put key value = (after, .ok ()))
    (holds : value ≠ []) : after.get key = .ok value := by
  rcases put_cases store key value with ⟨error, failed⟩ | ⟨hvalid, done⟩
  · cases failed.symm.trans h
  · cases done.symm.trans h
    unfold get find?
    rw [hvalid, find?_replace]
    cases value with
    | nil => exact absurd rfl holds
    | cons byte rest => rfl

theorem put_of_error {after : MemoryStore} {error : StoreError}
    (h : store.put key value = (after, .error error)) : after = store := by
  rcases put_cases store key value with ⟨other, failed⟩ | ⟨-, done⟩
  · cases failed.symm.trans h
    rfl
  · cases done.symm.trans h

end MemoryStore

/-! ## Disk -/

namespace DiskStore

variable {store : DiskStore} {key : String} {value : Bytes}

/-- The names of the base directory mean themselves, and no link is near it. -/
structure Sound (store : DiskStore) : Prop where
  unlinked : Unlinked store.tree store.base
  plain : IsPlain store.base

theorem isPlain_keySegments (h : validateKey key = .ok ()) : IsPlain (keySegments key) :=
  fun name inside => ((isSegment_iff name).mp (isSegment_of_validateKey h name inside)).2

theorem Sound.isPlain (sound : store.Sound) (h : validateKey key = .ok ()) :
    IsPlain (store.pathOf key) := by
  intro name hname
  rcases List.mem_append.mp hname with above | below
  · exact sound.plain name above
  · exact isPlain_keySegments h name below

theorem get_eq_ok_iff (sound : store.Sound) :
    store.get key = .ok value ↔ validateKey key = .ok () ∧ Fits (store.pathOf key) ∧
      store.tree.get? (store.pathOf key) = some (.file value) := by
  unfold get
  cases hvalid : validateKey key with
  | error error =>
      constructor
      · intro h
        cases h
      · intro h
        cases h.1
  | ok _ =>
      have clear : Clear store.tree (store.pathOf key) :=
        sound.unlinked.clear (List.prefix_append _ _)
      have stat : FileTree.stat store.tree (store.pathOf key) = .ok (.file value) ↔ _ :=
        stat_eq_ok_iff clear (sound.isPlain hvalid)
      rw [eq_self, true_and, ← stat]
      cases FileTree.stat store.tree (store.pathOf key) with
      | error error =>
          cases error with
          | _ => constructor <;> intro h <;> cases h
      | ok node =>
          cases node with
          | file contents =>
              constructor <;> intro h <;> cases h <;> rfl
          | _ => constructor <;> intro h <;> cases h

def writeFor (base : Path) (key : String) (value : Bytes) : Write :=
  ⟨base ++ keySegments key, value, .makeParents⟩

theorem aims_writeFor (sound : store.Sound) (h : validateKey key = .ok ()) (value : Bytes) :
    ∃ above name, (writeFor store.base key value).Aims store.base above name := by
  obtain ⟨above, name, split⟩ :=
    List.eq_nil_or_concat (keySegments key) |>.resolve_left (keySegments_ne_nil key)
  have plain := sound.isPlain h
  unfold pathOf at plain
  rw [split, List.concat_eq_append, ← List.append_assoc] at plain
  refine ⟨store.base ++ above, name, ?_, List.prefix_append _ _, plain⟩
  unfold writeFor
  rw [split, List.concat_eq_append, ← List.append_assoc]

theorem underway_writeFor (sound : store.Sound) (key : String) (value : Bytes) :
    Write.Underway store.base store.tree store.tree (writeFor store.base key value) :=
  ⟨sound.unlinked, fun _ _ => .refl _ _ _, trivial⟩

theorem ended_writeFor (sound : store.Sound) (h : validateKey key = .ok ()) (value : Bytes) :
    Write.Ended store.base store.tree ((writeFor store.base key value).run store.tree).1
      (writeFor store.base key value)
      ((writeFor store.base key value).run store.tree).2.isOk := by
  obtain ⟨above, name, aims⟩ := aims_writeFor sound h value
  exact Write.run_ended aims (underway_writeFor sound key value)

theorem get_congr {after : DiskStore} (sound : store.Sound) (soundAfter : after.Sound)
    (base : after.base = store.base)
    (same : after.tree.leafAt? (store.pathOf key) = store.tree.leafAt? (store.pathOf key)) :
    after.get key = .ok value ↔ store.get key = .ok value := by
  have path : after.pathOf key = store.pathOf key := by
    unfold pathOf
    rw [base]
  rw [get_eq_ok_iff sound, get_eq_ok_iff soundAfter, path, Node.get?_eq_file_iff, same,
    ← Node.get?_eq_file_iff]

theorem begin_eq_ok {held : DiskStore} {work : Work}
    (h : store.begin key value = .ok (held, work)) :
    validateKey key = .ok () ∧ (∃ pending, held = { store with pending }) ∧
      work = if value = [] then .keyOnly (store.pathOf key)
        else .write (writeFor store.base key value) := by
  unfold begin at h
  obtain ⟨_, hvalid, h⟩ := ok_of_bind h
  split at h
  · cases h
  · cases h
    exact ⟨hvalid, ⟨_, rfl⟩, rfl⟩

theorem begin_ok {held : DiskStore} {work : Work} (holds : value ≠ [])
    (h : store.begin key value = .ok (held, work)) :
    validateKey key = .ok () ∧ work = .write (writeFor store.base key value) ∧
      ∃ pending, held = { store with pending } := by
  obtain ⟨hvalid, same, rfl⟩ := begin_eq_ok h
  exact ⟨hvalid, if_neg holds, same⟩

theorem finish_write (sound : store.Sound) (hvalid : validateKey key = .ok ())
    {after : DiskStore} {result : Except StoreError Unit}
    (h : store.finish key (.write (writeFor store.base key value)) = (after, result)) :
    after.Sound ∧ after.base = store.base ∧ (result = .ok () → after.get key = .ok value) ∧
      ∀ error, result = .error error →
        ∀ found, after.get key = .ok found ↔ store.get key = .ok found := by
  have ended := ended_writeFor sound hvalid value
  have soundAfter : Sound { store with
      tree := ((writeFor store.base key value).run store.tree).1
      pending := store.pending.release key } := ⟨ended.unlinked, sound.plain⟩
  unfold finish at h
  cases h
  refine ⟨soundAfter, rfl, ?_, ?_⟩
  · intro hresult
    obtain ⟨fits, stored, -⟩ := ended.stored (congrArg Except.isOk hresult)
    exact (get_eq_ok_iff soundAfter).mpr ⟨hvalid, fits, (Node.surfaceAt?_eq_leaf_iff rfl).mp stored⟩
  · intro error herror found
    have unmoved := ended.unmoved (congrArg Except.isOk herror)
    exact get_congr sound soundAfter rfl unmoved.leafAt?_eq

end DiskStore

/-! ## Either kind -/

namespace Backend

variable {backend after : Backend} {key : String} {value : Bytes}

def Sound : Backend → Prop
  | .memory _ => True
  | .disk store => store.Sound

def base? : Backend → Option Path
  | .memory _ => none
  | .disk store => some store.base

def contents? (backend : Backend) (key : String) : Option Bytes := (backend.get key).toOption

theorem contents?_eq_some_iff :
    backend.contents? key = some value ↔ backend.get key = .ok value := by
  unfold contents?
  cases backend.get key with
  | error error => exact ⟨nofun, nofun⟩
  | ok found => simp [Except.toOption]

/-- The work of a put whose files are still to be written. -/
def Owes (base? : Option Path) (key : String) (work : DiskStore.Work) : Prop :=
  ∃ base value, base? = some base ∧ value ≠ [] ∧ validateKey key = .ok () ∧
    work = .write (DiskStore.writeFor base key value)

/-- A put that begins: it is over at once, or leaves work and all entries as they were. -/
theorem beginPut_cases (sound : backend.Sound) (holds : value ≠ [])
    {begun : Except StoreError Unit ⊕ DiskStore.Work}
    (h : backend.beginPut key value = (after, begun)) :
    after.Sound ∧ after.base? = backend.base? ∧
      (begun = .inl (.ok ()) ∧ (after.contents? key).isSome ∨
        (∃ error, begun = .inl (.error error)) ∧ after.contents? key = backend.contents? key ∨
        (∃ work, begun = .inr work ∧ Owes backend.base? key work) ∧
          after.contents? key = backend.contents? key) := by
  cases backend with
  | memory store =>
      rcases hput : store.put key value with ⟨stored, result⟩
      simp only [beginPut, hput] at h
      cases h
      refine ⟨trivial, rfl, ?_⟩
      cases result with
      | ok _ =>
          have found := MemoryStore.get_put hput holds
          exact .inl ⟨rfl, Option.isSome_iff_exists.mpr ⟨value, contents?_eq_some_iff.mpr found⟩⟩
      | error error =>
          have same := MemoryStore.put_of_error hput
          subst same
          exact .inr (.inl ⟨⟨error, rfl⟩, rfl⟩)
  | disk store =>
      unfold beginPut at h
      simp only at h
      split at h
      · rename_i error hbegin
        cases h
        exact ⟨sound, rfl, .inr (.inl ⟨⟨error, rfl⟩, rfl⟩)⟩
      · rename_i held work hbegin
        cases h
        obtain ⟨hvalid, rfl, pending, rfl⟩ := DiskStore.begin_ok holds hbegin
        exact ⟨⟨sound.unlinked, sound.plain⟩, rfl,
          .inr (.inr ⟨⟨_, rfl, store.base, value, rfl, holds, hvalid, rfl⟩, rfl⟩)⟩

theorem finishPut_cases (sound : backend.Sound) {work : DiskStore.Work}
    (owes : Owes backend.base? key work) {result : Except StoreError Unit}
    (h : backend.finishPut key work = (after, result)) :
    after.Sound ∧ after.base? = backend.base? ∧
      (result = .ok () ∧ (after.contents? key).isSome ∨
        (∃ error, result = .error error) ∧ after.contents? key = backend.contents? key) := by
  obtain ⟨base, value, hbase, holds, hvalid, rfl⟩ := owes
  cases backend with
  | memory store => cases hbase
  | disk store =>
      cases hbase
      rcases hfinish : store.finish key (.write (DiskStore.writeFor store.base key value)) with
        ⟨written, other⟩
      simp only [finishPut, hfinish] at h
      cases h
      obtain ⟨soundAfter, sameBase, stored, failed⟩ := DiskStore.finish_write sound hvalid hfinish
      refine ⟨soundAfter, congrArg some sameBase, ?_⟩
      cases result with
      | ok _ =>
          have found : contents? (.disk written) key = some value :=
            contents?_eq_some_iff.mpr (stored rfl)
          exact .inl ⟨rfl, Option.isSome_iff_exists.mpr ⟨value, found⟩⟩
      | error error =>
          refine .inr ⟨⟨error, rfl⟩, Option.ext fun found => ?_⟩
          rw [contents?_eq_some_iff, contents?_eq_some_iff]
          exact failed error rfl found

end Backend

/-! ## With counts -/

namespace CountedStore

variable {store after : CountedStore} {key : String} {value : Bytes}

/-- Gets reach the backend, and no link leads them astray there. -/
structure Faithful (store : CountedStore) : Prop where
  sound : store.backend.Sound
  answers : store.getFault = none

theorem get_snd (h : store.Faithful) : (store.get key).2 = store.backend.get key := by
  unfold get
  rw [h.answers]

theorem contents?_of_get (h : (store.get key).2 = .ok value) :
    store.backend.contents? key = some value := by
  unfold get at h
  split at h
  · cases h
  · exact Backend.contents?_eq_some_iff.mpr h

theorem note_backend (store : CountedStore) (key : String) (result : Except StoreError Unit) :
    (store.note key result).backend = store.backend := by
  unfold note
  split
  · split <;> rfl
  · rfl

theorem note_getFault (store : CountedStore) (key : String) (result : Except StoreError Unit) :
    (store.note key result).getFault = store.getFault := by
  unfold note
  split
  · split <;> rfl
  · rfl

theorem backend_of_beginPut {begun : Except StoreError Unit ⊕ DiskStore.Work}
    (h : store.beginPut key value = (after, begun)) :
    after.backend = store.backend ∧ (∃ error, begun = .inl (.error error)) ∨
      store.backend.beginPut key value = (after.backend, begun) := by
  unfold beginPut at h
  simp only at h
  split at h
  · cases h
    exact .inl ⟨rfl, _, rfl⟩
  · right
    rcases hbegin : store.backend.beginPut key value with ⟨backend, outcome⟩
    rw [hbegin] at h
    cases outcome with
    | inl result =>
        cases h
        rw [note_backend]
    | inr work =>
        cases h
        rfl

theorem backend_of_finishPut {work : DiskStore.Work} {result : Except StoreError Unit}
    (h : store.finishPut key work = (after, result)) :
    store.backend.finishPut key work = (after.backend, result) := by
  unfold finishPut at h
  rcases hfinish : store.backend.finishPut key work with ⟨backend, outcome⟩
  rw [hfinish] at h
  cases h
  rw [note_backend]

theorem getFault_of_beginPut {begun : Except StoreError Unit ⊕ DiskStore.Work}
    (h : store.beginPut key value = (after, begun)) : after.getFault = store.getFault := by
  unfold beginPut at h
  simp only at h
  split at h
  · cases h
    rfl
  · split at h <;> cases h
    · rw [note_getFault]
    · rfl

theorem getFault_of_finishPut {work : DiskStore.Work} {result : Except StoreError Unit}
    (h : store.finishPut key work = (after, result)) : after.getFault = store.getFault := by
  unfold finishPut at h
  cases h
  rw [note_getFault]

theorem beginPut_cases (faithful : store.Faithful) (holds : value ≠ [])
    {begun : Except StoreError Unit ⊕ DiskStore.Work}
    (h : store.beginPut key value = (after, begun)) :
    after.Faithful ∧ after.backend.base? = store.backend.base? ∧
      (begun = .inl (.ok ()) ∧ (after.backend.contents? key).isSome ∨
        (∃ error, begun = .inl (.error error)) ∧
          after.backend.contents? key = store.backend.contents? key ∨
        (∃ work, begun = .inr work ∧ Backend.Owes store.backend.base? key work) ∧
          after.backend.contents? key = store.backend.contents? key) := by
  have answers := getFault_of_beginPut h
  rw [faithful.answers] at answers
  rcases backend_of_beginPut h with ⟨same, error, rfl⟩ | begins
  · rw [same]
    exact ⟨⟨same ▸ faithful.sound, answers⟩, rfl, .inr (.inl ⟨⟨error, rfl⟩, rfl⟩)⟩
  · obtain ⟨sound, base, rest⟩ := Backend.beginPut_cases faithful.sound holds begins
    exact ⟨⟨sound, answers⟩, base, rest⟩

theorem finishPut_cases (faithful : store.Faithful) {work : DiskStore.Work}
    (owes : Backend.Owes store.backend.base? key work) {result : Except StoreError Unit}
    (h : store.finishPut key work = (after, result)) :
    after.Faithful ∧ after.backend.base? = store.backend.base? ∧
      (result = .ok () ∧ (after.backend.contents? key).isSome ∨
        (∃ error, result = .error error) ∧
          after.backend.contents? key = store.backend.contents? key) := by
  have answers := getFault_of_finishPut h
  rw [faithful.answers] at answers
  obtain ⟨sound, base, rest⟩ := Backend.finishPut_cases faithful.sound owes (backend_of_finishPut h)
  exact ⟨⟨sound, answers⟩, base, rest⟩

end CountedStore

end Outpost.Store
