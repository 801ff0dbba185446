import Outpost.Proofs.Cache.Key
import Outpost.Proofs.Cache.Snapshots
import Outpost.Proofs.Proxy.Payloads

/-!
# Where durable entries come from

In a run that begins with an empty store, an entry is what is cached of a whole payload of one
reply, and the reply came to a list request that has this entry.  The invariant takes up a caching
task where it has collected the payload and follows its population to the end of the put.
-/

namespace Outpost.Proxy

open Api Cache Coding Config Http Store Outpost.Stream

namespace Engine

section Origins

variable {start : Engine} {events : List Event}

/-- The list was read from a whole payload of a reply, and the reply came to a list request of the
same kind whose entry is that of the key. -/
def Sourced (start : Engine) (events : List Event) (key : Key) (list : ObjectList) : Prop :=
  ∃ asked payload, asked.kind = key.kind ∧ asked.storageKey = key.storageKey ∧
    start.Supplied events asked payload ∧ ObjectList.decode key.kind payload = .ok list

theorem Sourced.more {key : Key} {list : ObjectList} (h : start.Sourced events key list)
    (event : Event) : start.Sourced (events ++ [event]) key list := by
  obtain ⟨asked, payload, kind, entry, supplied, decoded⟩ := h
  exact ⟨asked, payload, kind, entry, supplied.more event, decoded⟩

theorem Supplied.slashless {key : Key} {payload : Bytes} (h : start.Supplied events key payload) :
    '/' ∉ key.scope.toList := by
  obtain ⟨reply, ⟨_, _, _, _, _, _, _, _, asked, _⟩, _⟩ := h
  exact Key.slashless_of_ofRequest? asked

theorem Supplied.sourced {asked key : Key} {payload contents : Bytes}
    (h : start.Supplied events asked payload) (slashless : '/' ∉ key.scope.toList)
    (entry : key.storageKey = asked.storageKey) (cached : IsSnapshot asked payload contents) :
    ∃ list, start.Sourced events key list ∧
      contents = (list.retain (retains key.queryClass)).encode := by
  obtain ⟨kind, queryClass⟩ := Key.kind_and_class_of_storageKey slashless h.slashless entry
  obtain ⟨kept, hkept, rfl⟩ := cached
  obtain ⟨list, decoded, rfl⟩ := snapshot_eq_ok_iff.mp hkept
  rw [queryClass]
  exact ⟨list, ⟨asked, payload, kind.symm, entry.symm, h, kind ▸ decoded⟩, rfl⟩

def HoldsSourced (start : Engine) (events : List Event) (backend : Backend) : Prop :=
  ∀ key contents, '/' ∉ key.scope.toList → backend.contents? key.storageKey = some contents →
    ∃ list, start.Sourced events key list ∧
      contents = (list.retain (retains key.queryClass)).encode

theorem HoldsSourced.more {backend : Backend} (h : start.HoldsSourced events backend)
    (event : Event) : start.HoldsSourced (events ++ [event]) backend := by
  intro key contents slashless present
  obtain ⟨list, sourced, kept⟩ := h key contents slashless present
  exact ⟨list, sourced.more event, kept⟩

/-- A task that populates the durable tier has a whole payload, and puts what is cached of it. -/
def Prepares (start : Engine) (events : List Event) (base? : Option Path) (slot : Slot) : Prop :=
  ∀ task population, slot.task = some task → task.stage = .populating population →
    population.key = task.key ∧ start.Supplied events task.key population.payload ∧
      population.Prepared base?

theorem Prepares.more {base? : Option Path} {slot : Slot}
    (h : start.Prepares events base? slot) (event : Event) :
    start.Prepares (events ++ [event]) base? slot := by
  intro task population found populating
  obtain ⟨own, supplied, prepared⟩ := h task population found populating
  exact ⟨own, supplied.more event, prepared⟩

theorem Prepares.untasked {base? : Option Path} {slot : Slot} (h : slot.task = none) :
    start.Prepares events base? slot := by
  intro task population found
  cases h.symm.trans found

theorem Prepares.ofStage {base? : Option Path} {slot : Slot} {task : CachingTask}
    (found : slot.task = some task)
    (other : ∀ population, task.stage ≠ .populating population) :
    start.Prepares events base? slot := by
  intro present population hpresent populating
  cases found.symm.trans hpresent
  exact absurd populating (other population)

theorem Prepares.ofBody {base? : Option Path} {slot : Slot} {task : CachingTask}
    {body : Except Unit Bytes}
    (found : slot.task = some { task with stage := stageAfter task.key body })
    (supplied : ∀ payload, body = .ok payload → start.Supplied events task.key payload) :
    start.Prepares events base? slot := by
  cases body with
  | error _ => exact .ofStage found nofun
  | ok payload =>
      have stored : stageAfter task.key (.ok payload) = storing task.key payload := rfl
      rw [stored] at found
      unfold storing at found
      split at found
      · exact .ofStage found nofun
      · intro present population hpresent populating
        cases found.symm.trans hpresent
        cases populating
        exact ⟨rfl, supplied payload rfl, Population.start_prepared _ _ _⟩

/-! ## Steps -/

section Steps

variable {task : CachingTask} {after : Option CachingTask} {tee : Option Tee} {shared : Shared}

theorem Works.store_cases {engine : Engine} (works : Works engine task after tee shared) :
    shared.store = engine.store ∨
      ∃ population progress, task.stage = .populating population ∧
        population.step engine.tiers engine.store = (shared.tiers, shared.store, progress) := by
  cases works with
  | populate population stage tiers store populating step =>
      exact .inr ⟨population, _, populating, step⟩
  | populated population result tiers store populating step =>
      exact .inr ⟨population, _, populating, step⟩
  | _ => exact .inl rfl

theorem Works.prepares (works : Works (start.run events) task after tee shared)
    (found : (start.run events).task? task.exchange = some task)
    (framed : ∀ key reply, start.Answered events key reply → Framed reply)
    (sound : (start.run events).store.backend.Sound)
    (traced : start.Traced events ((start.run events).slot task.exchange))
    (h : start.Prepares events (start.run events).store.backend.base?
      ((start.run events).slot task.exchange)) :
    start.Prepares events (start.run events).store.backend.base?
      { (start.run events).slot task.exchange with task := after, tee } := by
  cases works with
  | starved collector copied rest collecting foundTee poll => exact h
  | ended collector copied rest collecting foundTee poll =>
      exact .ofBody rfl fun payload finished =>
        traced.supplied_of_finish framed found collecting foundTee poll finished
  | decoded collector grown copied rest chunk body collecting foundTee poll fed =>
      exact .ofBody rfl fun payload decoded =>
        traced.supplied_of_feed found collecting foundTee poll (decoded ▸ fed)
  | populate population stage tiers store populating step =>
      obtain ⟨own, supplied, prepared⟩ := h task population found populating
      rintro _ _ ⟨⟩ ⟨⟩
      exact ⟨own, supplied, (Population.step_leads sound prepared step).prepared stage rfl⟩
  | close closing => exact .untasked rfl
  | _ => exact .ofStage rfl nofun

end Steps

variable {id : Nat} {event : Event} {slot : Slot} {shared : Shared}

theorem fallback_backend (store : CountedStore) (info : RequestInfo) :
    (fallback store info).1.backend = store.backend := by
  unfold fallback
  split <;> rfl

theorem Turns.backend {engine : Engine} {exchange : Exchange} {phase : Phase}
    {store : CountedStore} (turns : Turns engine exchange phase store) :
    store.backend = engine.store.backend := by
  cases turns with
  | fallBack arrived dev unhealthy => exact fallback_backend _ _
  | _ => rfl

theorem Move.backend_cases {engine : Engine} (move : Move engine id event slot shared) :
    shared.store.backend = engine.store.backend ∨
      ∃ task population progress, engine.task? id = some task ∧
        task.stage = .populating population ∧
        population.step engine.tiers engine.store = (shared.tiers, shared.store, progress) := by
  cases move with
  | turn exchange phase store found turns => exact .inl turns.backend
  | work task after tee shared found works =>
      refine works.store_cases.imp (congrArg CountedStore.backend) ?_
      rintro ⟨population, progress, populating, step⟩
      exact ⟨task, population, progress, found, populating, step⟩
  | _ => exact .inl rfl

theorem Move.prepares (move : Move (start.run events) id event slot shared)
    (framed : ∀ key reply, start.Answered events key reply → Framed reply)
    (sound : (start.run events).store.backend.Sound)
    (traced : start.Traced events ((start.run events).slot id))
    (h : start.Prepares events (start.run events).store.backend.base?
      ((start.run events).slot id)) :
    start.Prepares (events ++ [event]) (start.run events).store.backend.base? slot := by
  refine Prepares.more ?_ event
  cases move with
  | copy exchange key request reply found awaiting cache =>
      intro task population present populating
      refine h task population ?_ populating
      cases known : (start.run events).task? id with
      | none =>
          simp only [known, Option.none_or] at present
          cases present
          cases populating
      | some task =>
          simp only [known, Option.some_or] at present
          exact known.trans present
  | work task after tee shared found works =>
      have number := exchange_of_task? found
      subst number
      exact works.prepares found framed sound traced h
  | _ => exact h

theorem HoldsSourced.moved (h : start.HoldsSourced events (start.run events).store.backend)
    (sound : (start.run events).store.backend.Sound)
    (prepares : start.Prepares events (start.run events).store.backend.base?
      ((start.run events).slot id))
    (move : Move (start.run events) id event slot shared) :
    shared.store.backend.Sound ∧
      shared.store.backend.base? = (start.run events).store.backend.base? ∧
      start.HoldsSourced events shared.store.backend := by
  rcases move.backend_cases with same | ⟨task, population, progress, found, populating, step⟩
  · rw [same]
    exact ⟨sound, rfl, h⟩
  obtain ⟨own, supplied, prepared⟩ := prepares task population found populating
  have leads := Population.step_leads sound prepared step
  refine ⟨leads.sound, leads.base, fun key contents slashless present => ?_⟩
  rw [← own] at supplied
  have apart := Key.keySegments_ne_unfinishedSegments slashless supplied.slashless
  rcases leads.entries key.storageKey contents apart present with before | ⟨entry, cached⟩
  · exact h key contents slashless before
  · exact supplied.sourced slashless entry cached

end Origins

/-! ## Runs -/

structure Recorded (start : Engine) (events : List Event) : Prop where
  sound : (start.run events).store.backend.Sound
  prepares : ∀ id, start.Prepares events (start.run events).store.backend.base?
    ((start.run events).slot id)
  entries : start.HoldsSourced events (start.run events).store.backend

theorem Recorded.more {start : Engine} {events : List Event} (h : start.Recorded events)
    (framed : ∀ key reply, start.Answered events key reply → Framed reply)
    (traced : ∀ id, start.Traced events ((start.run events).slot id)) (event : Event) :
    start.Recorded (events ++ [event]) := by
  have stepped : start.run (events ++ [event]) = (start.run events).step event := by
    rw [run_append]
    rfl
  rcases step_moved (start.run events) event with unmoved | ⟨moved, hmoved⟩
  · have store : ((start.run events).step event).store = (start.run events).store :=
      congrArg Shared.store unmoved.shared
    constructor <;> rw [stepped, store]
    · exact h.sound
    · intro id
      rw [unmoved.slots id]
      exact (h.prepares id).more event
    · exact h.entries.more event
  · obtain ⟨sound, base, entries⟩ := h.entries.moved h.sound (h.prepares moved) hmoved.move
    have base : ((start.run events).step event).store.backend.base? =
        (start.run events).store.backend.base? := base
    constructor <;> rw [stepped]
    · exact sound
    · intro id
      rw [base]
      by_cases same : id = moved
      · subst same
        exact hmoved.move.prepares framed h.sound (traced id) (h.prepares id)
      · rw [hmoved.others id same]
        exact (h.prepares id).more event
    · exact entries.more event

theorem run_recorded (settings : Settings) (store : CountedStore) (now : Nat)
    (events : List Event) (sound : store.backend.Sound)
    (empty : ∀ key, store.backend.contents? key = none)
    (framed : ∀ id reply, .answer id (.ok reply) ∈ events → Framed reply) :
    (Engine.start settings store now).Recorded events := by
  induction events using List.reverseRecOn with
  | nil =>
      refine ⟨sound, fun id => .untasked rfl, fun key contents _ present => ?_⟩
      cases (empty key.storageKey).symm.trans present
  | append_singleton before event ih =>
      have framedBefore := fun id reply sent =>
        framed id reply (List.mem_append_left [event] sent)
      refine (ih framedBefore).more (fun key reply answered => ?_)
        (run_traced settings store now before framedBefore).1 event
      obtain ⟨id, sent⟩ := answered.mem
      exact framedBefore id reply sent

end Engine

end Outpost.Proxy
