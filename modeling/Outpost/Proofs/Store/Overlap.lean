import Outpost.Proofs.Store.Interruption
import Outpost.Proofs.Store.Isolation
import Outpost.Proofs.Store.Maps

/-!
# Writes that overlap

Several writes can be under way in one store, each for a key of its own and at a stage of its own.
As long as none of the keys names the unfinished file of another, a stage of one write leaves the
others what they rely on, and an entry is only ever replaced by the contents of a write that ends.
-/

namespace Outpost.Store

namespace DiskStore

/-- Neither of the keys names the unfinished file of the other. -/
structure Apart (first second : String) : Prop where
  left : keySegments first ≠ unfinishedSegments second
  right : keySegments second ≠ unfinishedSegments first

theorem unfinishedSegments_injective {first second : String}
    (same : unfinishedSegments first = unfinishedSegments second) : first = second := by
  obtain ⟨above, name, split⟩ :=
    List.eq_nil_or_concat (keySegments first) |>.resolve_left (keySegments_ne_nil first)
  obtain ⟨aboveSecond, nameSecond, splitSecond⟩ :=
    List.eq_nil_or_concat (keySegments second) |>.resolve_left (keySegments_ne_nil second)
  unfold unfinishedSegments at same
  rw [split, splitSecond] at same
  simp only [List.concat_eq_append, List.dropLast_concat, List.getLast?_concat,
    Option.getD_some] at same
  obtain ⟨directories, names⟩ := List.append_inj' same rfl
  have last : name = nameSecond := by
    simpa [String.append_right_inj] using names
  exact keySegments_injective (by rw [split, splitSecond, directories, last])

namespace Write

variable {store : DiskStore} {key other : String} {write next rival : Write} {tree after : Node}
  {moved : Bool}

/-- The write is part of a put of contents under the key, which is held for it. -/
structure Pursues (store : DiskStore) (key : String) (write : Write) : Prop where
  valid : validateKey key = .ok ()
  target : write.target = store.pathOf key
  filled : write.contents ≠ []
  ready : write.Ready store.tree
  held : key ∈ store.pending.keys

theorem Pursues.unfinished (h : write.Pursues store key) :
    write.unfinished = store.base ++ unfinishedSegments key := by
  rw [← unfinished_writeFor store.base key write.contents]
  unfold Write.unfinished Write.parent writeFor
  rw [h.target]
  rfl

theorem Pursues.aims (h : write.Pursues store key) (sound : store.Sound) :
    ∃ above name, write.Aims store.base above name := by
  obtain ⟨above, name, aims⟩ := aims_writeFor sound h.valid write.contents
  exact ⟨above, name, h.target.trans aims.target, aims.inside, aims.plain⟩

theorem Pursues.underway (h : write.Pursues store key) (sound : store.Sound) :
    Underway store.base store.tree store.tree write :=
  ⟨sound.unlinked, fun _ _ => .refl _ _ _, h.ready⟩

theorem Ready.congr (h : write.Ready tree)
    (same : after.leafAt? write.unfinished = tree.leafAt? write.unfinished) :
    write.Ready after := by
  have kept : ∀ leaf : Node, leaf.isDirectory = false →
      tree.get? write.unfinished = some leaf → after.get? write.unfinished = some leaf := by
    intro leaf isLeaf found
    have seen : tree.leafAt? write.unfinished = some leaf := by
      rw [Node.leafAt?, found, Option.filter_some_pos (by rw [isLeaf]; rfl)]
    rw [← same, Node.leafAt?, Option.filter_eq_some_iff] at seen
    exact seen.1
  unfold Ready at h ⊢
  split
  · trivial
  · trivial
  · rename_i real hstage
    simp only [hstage] at h
    obtain ⟨rfl, opened⟩ := h
    exact ⟨rfl, opened.imp (kept _ rfl) (kept _ rfl)⟩
  · rename_i real hstage
    simp only [hstage] at h
    obtain ⟨rfl, opened⟩ := h
    exact ⟨rfl, opened.imp (kept _ rfl) (kept _ rfl)⟩
  · rename_i hstage
    simp only [hstage] at h
    exact kept _ rfl h

theorem Pursues.ended_of_run (h : write.Pursues store key) (sound : store.Sound) :
    Ended store.base store.tree (write.run store.tree).1 write (write.run store.tree).2.isOk := by
  obtain ⟨above, name, aims⟩ := h.aims sound
  exact run_ended aims (h.underway sound)

section Others

variable (sound : store.Sound) (h : write.Pursues store key)
  (ended : Ended store.base store.tree after write moved) (apart : Apart other key)

include h ended apart

theorem leafAt?_of_ended : after.leafAt? (store.pathOf other) =
      store.tree.leafAt? (store.pathOf other) ∨
    other = key ∧ moved = true := by
  by_cases own : other = key
  · subst own
    cases moved with
    | true => exact .inr ⟨rfl, rfl⟩
    | false => exact .inl (h.target ▸ (ended.unmoved rfl).leafAt?_eq)
  · refine .inl (ended.elsewhere _ (fun same => ?_) fun same => ?_).leafAt?_eq
    · rw [h.unfinished] at same
      exact apart.left (List.append_cancel_left same)
    · rw [h.target] at same
      exact own (keySegments_injective (List.append_cancel_left same))

theorem ready_of_ended (differs : other ≠ key) (pursues : rival.Pursues store other) :
    rival.Ready after := by
  refine pursues.ready.congr (ended.elsewhere _ (fun same => ?_) fun same => ?_).leafAt?_eq
  · rw [pursues.unfinished, h.unfinished] at same
    exact differs (unfinishedSegments_injective (List.append_cancel_left same))
  · rw [pursues.unfinished, h.target] at same
    exact apart.right (List.append_cancel_left same).symm

end Others

end Write

theorem acquire?_of_begin {store held : DiskStore} {key : String} {value : Bytes} {work : Work}
    (h : store.begin key value = .ok (held, work)) :
    store.pending.acquire? key = some held.pending := by
  unfold begin at h
  obtain ⟨_, -, h⟩ := ok_of_bind h
  split at h
  · cases h
  · rename_i pending acquired
    cases h
    exact acquired

end DiskStore

/-! ## Either kind of store -/

namespace Backend

open DiskStore (Apart)

variable {backend after : Backend} {key other : String} {value : Bytes} {work : DiskStore.Work}

def Holds (backend : Backend) (key : String) : Prop :=
  ∃ value, value ≠ [] ∧ backend.contents? key = some value

inductive Pursued (key : String) : Backend → DiskStore.Work → Prop
  | write {store : DiskStore} {write : DiskStore.Write} (pursues : write.Pursues store key) :
      Pursued key (.disk store) (.write write)

/-- What a step of a put under a key, at its write or before it, leaves to all keys that are apart
from it. -/
structure Spares (key : String) (isWriting : Prop) (before after : Backend) : Prop where
  sound : after.Sound
  entries : ∀ other, Apart other key →
    after.contents? other = before.contents? other ∨ after.Holds other
  works : ∀ other work, (isWriting → other ≠ key) → Apart other key → Pursued other before work →
    Pursued other after work

variable {isWriting : Prop}

theorem Spares.refl (sound : backend.Sound) (key : String) (isWriting : Prop) :
    Spares key isWriting backend backend :=
  ⟨sound, fun _ _ => .inl rfl, fun _ _ _ _ pursued => pursued⟩

theorem Spares.holds (spares : Spares key isWriting backend after) (apart : Apart other key)
    (h : backend.Holds other) : after.Holds other := by
  rcases spares.entries other apart with same | holds
  · obtain ⟨value, filled, found⟩ := h
    exact ⟨value, filled, same.trans found⟩
  · exact holds

theorem Spares.ne_empty (spares : Spares key isWriting backend after) (apart : Apart other key)
    (h : backend.contents? other ≠ some []) : after.contents? other ≠ some [] := by
  rcases spares.entries other apart with same | ⟨value, filled, found⟩
  · rwa [same]
  · rw [found]
    exact fun empty => filled (Option.some.inj empty)

theorem spares_of_ended {store : DiskStore} {write : DiskStore.Write} {tree : Node}
    {pending : PendingKeys} {moved : Bool} (sound : store.Sound) (writes : isWriting)
    (pursues : write.Pursues store key)
    (ended : DiskStore.Write.Ended store.base store.tree tree write moved)
    (held : ∀ other, other ≠ key → other ∈ store.pending.keys → other ∈ pending.keys) :
    Spares key isWriting (.disk store) (.disk { store with tree, pending }) ∧
      (moved = true → Holds (.disk { store with tree, pending }) key) := by
  have soundAfter : DiskStore.Sound { store with tree, pending } := ⟨ended.unlinked, sound.plain⟩
  have landed : moved = true → Holds (.disk { store with tree, pending }) key := by
    intro hmoved
    obtain ⟨fits, stored, -⟩ := ended.stored hmoved
    rw [pursues.target] at fits stored
    exact ⟨write.contents, pursues.filled, contents?_eq_some_iff.mpr
      ((DiskStore.get_eq_ok_iff soundAfter).mpr
        ⟨pursues.valid, fits, (Node.surfaceAt?_eq_leaf_iff rfl).mp stored⟩)⟩
  refine ⟨⟨soundAfter, fun other apart => ?_, fun other work differs apart pursued => ?_⟩, landed⟩
  · rcases DiskStore.Write.leafAt?_of_ended pursues ended apart with same | ⟨rfl, hmoved⟩
    · left
      ext value
      rw [contents?_eq_some_iff, contents?_eq_some_iff]
      exact DiskStore.get_congr sound soundAfter rfl same
    · exact .inr (landed hmoved)
  · cases pursued with
    | write rival =>
        exact .write ⟨rival.valid, rival.target, rival.filled,
          DiskStore.Write.ready_of_ended pursues ended apart (differs writes) rival,
          held other (differs writes) rival.held⟩

theorem held_of_release {pending : PendingKeys} (differs : other ≠ key)
    (held : other ∈ pending.keys) : other ∈ (pending.release key).keys := by
  unfold PendingKeys.release
  simpa using ⟨held, differs⟩

theorem not_pursued_of_acquire? {store : DiskStore} {pending : PendingKeys}
    (acquired : store.pending.acquire? key = some pending) (work : DiskStore.Work) :
    ¬ Pursued key (.disk store) work := by
  intro pursued
  cases pursued with
  | write pursues =>
      obtain ⟨free, -⟩ := PendingKeys.acquire?_eq_some_iff.mp acquired
      have clash := free key pursues.held
      unfold collides at clash
      simp at clash

theorem held_of_acquire? {pending held : PendingKeys} (acquired : pending.acquire? key = some held)
    (other : String) : other ∈ held.keys ↔ other ∈ pending.keys ∨ other = key := by
  obtain ⟨-, rfl⟩ := PendingKeys.acquire?_eq_some_iff.mp acquired
  simp

theorem beginPut_spares_memory {store : MemoryStore} (filled : value ≠ [])
    {begun : Except StoreError Unit ⊕ DiskStore.Work}
    (h : beginPut key value (.memory store) = (after, begun)) :
    ∃ result, begun = .inl result ∧ Spares key isWriting (.memory store) after ∧
      (result = .ok () → after.Holds key) := by
  have entries := fun result (settled : begun = .inl result) (other : String) =>
    contents?_beginPut filled (settled ▸ h) other
  rcases hput : store.put key value with ⟨stored, result⟩
  simp only [beginPut, hput] at h
  cases h
  replace entries := entries result rfl
  have own : result = .ok () → Holds (.memory stored) key := by
    rintro rfl
    exact ⟨value, filled, (entries key).trans (if_pos ⟨rfl, rfl⟩)⟩
  refine ⟨result, rfl, ⟨trivial, fun other apart => ?_, ?_⟩, own⟩
  · by_cases landed : result.isOk ∧ other = key
    · exact .inr ⟨value, filled, (entries other).trans (if_pos landed)⟩
    · exact .inl ((entries other).trans (if_neg landed))
  · intro other work differs apart pursued
    cases pursued

theorem beginPut_spares (isWriting : Prop) (sound : backend.Sound) (filled : value ≠ [])
    {begun : Except StoreError Unit ⊕ DiskStore.Work}
    (h : backend.beginPut key value = (after, begun)) :
    Spares key isWriting backend after ∧ (begun = .inl (.ok ()) → after.Holds key) ∧
      ∀ work, begun = .inr work →
        Pursued key after work ∧ ∀ other, ¬ Pursued key backend other := by
  cases backend with
  | memory store =>
      obtain ⟨result, rfl, spares, own⟩ := beginPut_spares_memory filled h
      exact ⟨spares, fun settled => own (Sum.inl.inj settled), nofun⟩
  | disk store =>
      unfold beginPut at h
      simp only at h
      split at h
      · cases h
        exact ⟨.refl sound key _, nofun, nofun⟩
      · rename_i held work begun
        cases h
        obtain ⟨valid, rfl, pending, rfl⟩ := DiskStore.begin_ok filled begun
        have acquired := DiskStore.acquire?_of_begin begun
        have member := held_of_acquire? acquired
        refine ⟨⟨⟨sound.unlinked, sound.plain⟩, fun _ _ => .inl rfl, ?_⟩, nofun, ?_⟩
        · intro other work differs apart pursued
          cases pursued with
          | write rival =>
              exact .write ⟨rival.valid, rival.target, rival.filled, rival.ready,
                (member other).mpr (.inl rival.held)⟩
        · rintro work ⟨⟩
          exact ⟨.write ⟨valid, rfl, filled, trivial, (member key).mpr (.inr rfl)⟩,
            not_pursued_of_acquire? acquired⟩

/-- The rest of a put at any stage of its write. -/
theorem finishPut_spares (sound : backend.Sound) (writes : isWriting)
    (pursued : Pursued key backend work) {result : Except StoreError Unit}
    (h : backend.finishPut key work = (after, result)) :
    Spares key isWriting backend after ∧ (result = .ok () → after.Holds key) := by
  cases pursued with
  | @write store write pursues =>
      have ended := pursues.ended_of_run sound
      obtain ⟨spares, landed⟩ := spares_of_ended sound writes pursues ended
        fun other differs => held_of_release differs
      simp only [finishPut, DiskStore.finish] at h
      cases h
      exact ⟨spares, fun settled => landed (congrArg Except.isOk settled)⟩

end Backend

end Outpost.Store
