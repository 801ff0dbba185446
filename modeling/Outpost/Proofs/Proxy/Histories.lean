import Outpost.Proofs.Proxy.Degraded

/-!
# What has happened to an exchange

The request of an exchange is the one that arrived with its number, and it is sent as it is, on the
way that the handler and its headers choose.
-/

namespace Outpost

def Http.Request.info (request : Http.Request) : Api.RequestInfo :=
  Api.RequestInfo.classify request.method request.target

end Outpost

namespace Outpost.Proxy

open Api Cache Coding Config Http Store Outpost.Stream

def Relation.of : HandlerKind → Headers → Relation
  | .sample, _ => .relayed
  | .dev, headers => if isUpgrade headers then .upgraded else .treated

theorem Relation.eq_of_upgraded {handler : HandlerKind} {headers : Headers}
    (h : .upgraded = Relation.of handler headers) : handler = .dev ∧ isUpgrade headers = true := by
  cases handler <;> simp_all [Relation.of]

theorem Relation.eq_of_treated {handler : HandlerKind} {headers : Headers}
    (h : .treated = Relation.of handler headers) : handler = .dev ∧ isUpgrade headers = false := by
  cases handler <;> simp_all [Relation.of]

namespace Engine

def Event.exchange? : Event → Option Nat
  | .advance id | .answer id _ | .read id | .abandon id | .work id => some id
  | .arrive _ | .probed _ | .pass _ => none

/-! ## Runs, slot by slot -/

theorem run_concat (engine : Engine) (events : List Event) (event : Event) :
    engine.run (events ++ [event]) = (engine.run events).step event := by
  rw [run_append]
  rfl

theorem same_or_apart {before after earlier later : List Event} {event other : Event}
    (h : before ++ event :: after = earlier ++ other :: later) :
    (before = earlier ∧ event = other) ∨ (∃ between, earlier = before ++ event :: between) ∨
      ∃ between, before = earlier ++ other :: between := by
  rcases List.append_eq_append_iff.mp h with ⟨between, hearlier, hafter⟩ |
    ⟨between, hbefore, hlater⟩
  · cases between with
    | nil => exact .inl ⟨by simpa using hearlier.symm, (List.cons.inj hafter).1⟩
    | cons first rest =>
        cases hafter
        exact .inr (.inl ⟨rest, hearlier⟩)
  · cases between with
    | nil => exact .inl ⟨by simpa using hbefore, (List.cons.inj hlater).1.symm⟩
    | cons first rest =>
        cases hlater
        exact .inr (.inr ⟨rest, hbefore⟩)

theorem last_or_before {events before after : List Event} {last event : Event}
    (h : events ++ [last] = before ++ event :: after) :
    (before = events ∧ event = last) ∨ ∃ rest, events = before ++ event :: rest := by
  cases after using List.reverseRecOn with
  | nil =>
      obtain ⟨rfl, same⟩ := List.append_inj' h rfl
      exact .inl ⟨rfl, (List.cons.inj same).1.symm⟩
  | append_singleton rest final =>
      rw [← List.cons_append, ← List.append_assoc] at h
      obtain ⟨rfl, -⟩ := List.append_inj' h rfl
      exact .inr ⟨rest, rfl⟩

/-- What holds of an empty slot, and is kept by every move of a slot and by every event that leaves
it alone, holds of every slot in a run. -/
theorem run_slots (holds : List Event → Nat → Slot → Prop) (settings : Settings)
    (store : CountedStore) (now : Nat) (empty : ∀ id, holds [] id ⟨none, none, none⟩)
    (kept : ∀ events event id slot, holds events id slot → holds (events ++ [event]) id slot)
    (moved : ∀ events event id slot shared,
      Move ((start settings store now).run events) id event slot shared →
      holds events id (((start settings store now).run events).slot id) →
      holds (events ++ [event]) id slot) (events : List Event) (id : Nat) :
    holds events id (((start settings store now).run events).slot id) := by
  induction events using List.reverseRecOn generalizing id with
  | nil => exact empty id
  | append_singleton before event ih =>
      rw [run_concat]
      rcases step_slot_cases ((start settings store now).run before) event id with same | move
      · rw [same]
        exact kept before event id _ (ih id)
      · exact moved before event id _ _ move (ih id)

/-! ## Arrivals -/

section Arrivals

variable {start : Engine} {events : List Event} {id : Nat} {request other : Request}

def Arrived (start : Engine) (id : Nat) (request : Request) (events : List Event) : Prop :=
  ∃ before after, events = before ++ .arrive request :: after ∧ (start.run before).nextId = id

theorem Arrived.more (h : start.Arrived id request events) (more : List Event) :
    start.Arrived id request (events ++ more) := by
  obtain ⟨before, after, rfl, number⟩ := h
  exact ⟨before, after ++ more, by simp, number⟩

theorem step_nextId (engine : Engine) (event : Event) :
    engine.nextId ≤ (engine.step event).nextId := by
  rcases step_moved engine event with unmoved | ⟨moved, hmoved⟩
  · exact Nat.le_of_eq (congrArg Frame.nextId unmoved.frame).symm
  · have after : (engine.step event).nextId = (engine.frameAfter event).nextId :=
      congrArg Frame.nextId hmoved.frame
    rw [after]
    cases event <;> first | exact Nat.le_succ _ | exact Nat.le_refl _

theorem run_nextId (engine : Engine) (events : List Event) :
    engine.nextId ≤ (engine.run events).nextId := by
  induction events generalizing engine with
  | nil => exact Nat.le_refl _
  | cons event rest ih => exact Nat.le_trans (step_nextId engine event) (ih _)

theorem nextId_lt_of_arrive (start : Engine) (request : Request) (before between : List Event) :
    (start.run before).nextId < (start.run (before ++ .arrive request :: between)).nextId := by
  rw [run_append]
  exact Nat.lt_of_succ_le (run_nextId ((start.run before).arrive request) between)

theorem Arrived.unique (h : start.Arrived id request events)
    (hother : start.Arrived id other events) : request = other := by
  obtain ⟨before, after, rfl, number⟩ := h
  obtain ⟨earlier, later, split, otherNumber⟩ := hother
  rcases same_or_apart split with ⟨-, same⟩ | ⟨between, rfl⟩ | ⟨between, rfl⟩
  · exact Event.arrive.inj same
  · have more := nextId_lt_of_arrive start request before between
    omega
  · have more := nextId_lt_of_arrive start other earlier between
    omega

end Arrivals

/-! ## What a run does not change -/

structure Constants where
  upstream : Upstream
  teeBuffer : Nat
  populateWait : Nat
  filterStart : String
  wording : Wording

def constants (engine : Engine) : Constants :=
  ⟨engine.upstream, engine.teeBuffer, engine.populateWait, engine.filterStart, engine.wording⟩

/-- What the steps of exchanges and tasks leave alone. -/
structure Surroundings where
  constants : Constants
  now : Nat
  health : Health

def surroundings (engine : Engine) : Surroundings :=
  ⟨engine.constants, engine.now, engine.health⟩

section Surroundings

variable (engine : Engine) (exchange : Exchange)

theorem surroundings_leaveGate :
    (engine.leaveGate exchange).surroundings = engine.surroundings := by
  unfold leaveGate
  split <;> rfl

theorem surroundings_conclude (response : Response) :
    (engine.conclude exchange response).surroundings = engine.surroundings :=
  surroundings_leaveGate engine exchange

theorem surroundings_hit (payload : Bytes) :
    (engine.hit exchange payload).surroundings = engine.surroundings :=
  surroundings_conclude { engine with metrics := engine.metrics.recordVolatileHit } exchange _

theorem surroundings_dispatch : (engine.dispatch exchange).surroundings = engine.surroundings := by
  unfold dispatch
  simp only
  repeat' split
  all_goals rfl

theorem surroundings_approach (key : Key) :
    (engine.approach exchange key).surroundings = engine.surroundings := by
  unfold approach
  split <;> rfl

theorem surroundings_advance (id : Nat) :
    (engine.advance id).1.surroundings = engine.surroundings := by
  unfold advance
  split
  · rfl
  split
  · exact surroundings_dispatch engine _
  · split
    · exact surroundings_hit engine _ _
    · rfl
  · exact surroundings_approach engine _ _
  · split
    · rfl
    · split
      · exact surroundings_leaveGate engine _
      · rfl
  · split
    · exact surroundings_hit engine _ _
    · rfl
  · split
    · exact surroundings_conclude engine _ _
    · rfl
  · rfl
  · split
    · rfl
    · split <;> exact surroundings_conclude engine _ _
  · rfl

theorem surroundings_answer (id : Nat) (result : Except TransportFailure Reply) :
    (engine.answer id result).surroundings = engine.surroundings := by
  unfold answer
  split
  · rfl
  split
  · split
    · exact surroundings_conclude engine _ _
    · split
      · exact surroundings_conclude engine _ _
      · exact surroundings_conclude engine _ _
      · unfold treat
        simp only
        split
        · exact surroundings_conclude engine _ _
        · rfl
        · rfl
  · rfl

theorem surroundings_read (id : Nat) : (engine.read id).1.surroundings = engine.surroundings := by
  unfold read
  repeat' split
  all_goals rfl

theorem surroundings_abandon (id : Nat) :
    (engine.abandon id).surroundings = engine.surroundings := by
  unfold abandon
  split
  · rfl
  split
  · simp only
    split <;> rfl
  · exact surroundings_leaveGate engine _

theorem surroundings_work (id : Nat) : (engine.work id).1.surroundings = engine.surroundings := by
  unfold work
  repeat' split
  all_goals rfl

/-- Only probes and the passing of time change anything of the surroundings. -/
theorem step_surroundings (event : Event) : (engine.step event).surroundings =
    match event with
    | .probed success =>
        { engine.surroundings with health := engine.health.record engine.now success }
    | .pass time => { engine.surroundings with now := max engine.now time }
    | _ => engine.surroundings := by
  cases event with
  | advance id => exact surroundings_advance engine id
  | answer id result => exact surroundings_answer engine id result
  | read id => exact surroundings_read engine id
  | abandon id => exact surroundings_abandon engine id
  | work id => exact surroundings_work engine id
  | arrive | probed | pass => rfl

theorem step_constants (event : Event) : (engine.step event).constants = engine.constants := by
  have kept := congrArg Surroundings.constants (step_surroundings engine event)
  cases event <;> exact kept

end Surroundings

theorem run_constants (engine : Engine) (events : List Event) :
    (engine.run events).constants = engine.constants := by
  induction events generalizing engine with
  | nil => rfl
  | cons event rest ih => exact (ih (engine.step event)).trans (step_constants engine event)

end Engine

/-! ## Ways -/

namespace Phase

def way? : Phase → Option Relation
  | .arrived | .responded _ _ => none
  | .firstLook _ | .approaching _ | .waiting _ _ _ | .secondLook _ | .filtering _ _ _ _ =>
      some .treated
  | .sending relation | .awaiting relation _ => some relation

def outgoing? : Phase → Option Outgoing
  | .awaiting _ request => some request
  | _ => none

end Phase

namespace Engine

section Ways

variable {start : Engine} {events : List Event} {id : Nat} {exchange after : Exchange}

/-- What the phase of an exchange tells of its request. -/
structure Routed (start : Engine) (events : List Event) (id : Nat) (exchange : Exchange) :
    Prop where
  arrived : start.Arrived id exchange.request events
  way : ∀ relation, exchange.phase.way? = some relation →
    relation = Relation.of start.handler exchange.request.headers
  sent : ∀ request, exchange.phase.outgoing? = some request →
    outgoing start.upstream exchange.request = .ok request

theorem Routed.more (h : start.Routed events id exchange) (event : Event) :
    start.Routed (events ++ [event]) id exchange :=
  { h with arrived := h.arrived.more [event] }

theorem Routed.awaiting {relation : Relation} {out : Outgoing}
    (h : start.Routed events id exchange) (awaiting : exchange.phase = .awaiting relation out) :
    relation = Relation.of start.handler exchange.request.headers ∧
      outgoing start.upstream exchange.request = .ok out :=
  ⟨h.way relation (by rw [awaiting]; rfl), h.sent out (by rw [awaiting]; rfl)⟩

theorem Routed.onward (h : start.Routed events id exchange) (event : Event)
    (request : after.request = exchange.request) (way : after.phase.way? = exchange.phase.way?)
    (sent : after.phase.outgoing? = none) : start.Routed (events ++ [event]) id after where
  arrived := request ▸ h.arrived.more [event]
  way relation hrelation := request ▸ h.way relation (way.symm.trans hrelation)
  sent out hout := by cases sent.symm.trans hout

theorem Routed.answered (h : start.Routed events id exchange) (event : Event) (gate : Option Nat)
    (response : Response) (delivery : Delivery) :
    start.Routed (events ++ [event]) id
      { exchange with gate, phase := .responded response delivery } where
  arrived := h.arrived.more [event]
  way _ hrelation := by cases hrelation
  sent _ hout := by cases hout

theorem Routed.dispatched (h : start.Routed events id exchange) (event : Event) {phase : Phase}
    {relation : Relation} (way : phase.way? = some relation) (sent : phase.outgoing? = none)
    (chosen : relation = Relation.of (start.run events).handler exchange.request.headers) :
    start.Routed (events ++ [event]) id { exchange with phase } where
  arrived := h.arrived.more [event]
  way other hother := by
    rw [run_handler] at chosen
    exact (Option.some.inj (way.symm.trans hother)) ▸ chosen
  sent out hout := by cases sent.symm.trans hout

theorem Turns.routed {phase : Phase} {store : CountedStore}
    (turns : Turns (start.run events) exchange phase store)
    (h : start.Routed events id exchange) (event : Event) :
    start.Routed (events ++ [event]) id { exchange with phase } := by
  cases turns with
  | relay arrived sample => exact h.dispatched event rfl rfl (by rw [sample]; rfl)
  | upgrade arrived dev healthy upgrade =>
      exact h.dispatched event rfl rfl (by simp [Relation.of, dev, upgrade])
  | look key arrived dev healthy plain =>
      exact h.dispatched event rfl rfl (by simp [Relation.of, dev, plain])
  | send arrived dev healthy plain =>
      exact h.dispatched event rfl rfl (by simp [Relation.of, dev, plain])
  | fallBack => exact h.answered event exchange.gate _ _
  | miss key looking => exact h.onward event rfl (by rw [looking]; rfl) rfl
  | ungated key approaching => exact h.onward event rfl (by rw [approaching]; rfl) rfl
  | admitted key gate deadline waiting => exact h.onward event rfl (by rw [waiting]; rfl) rfl
  | missAgain key looking => exact h.onward event rfl (by rw [looking]; rfl) rfl
  | sent relation request sending sendable =>
      have way := h.way
      rw [sending] at way
      have upstream : (start.run events).upstream = start.upstream :=
        congrArg Constants.upstream (run_constants start events)
      refine ⟨h.arrived.more [event], way, ?_⟩
      rintro _ ⟨⟩
      exact upstream ▸ sendable
  | gather kind response source rest collector grown filtering =>
      exact h.onward event rfl (by rw [filtering]; rfl) rfl

theorem Move.routed {event : Event} {slot : Slot} {shared : Shared}
    (move : Move (start.run events) id event slot shared)
    (wellFormed : (start.run events).WellFormed)
    (h : ∀ exchange, (start.run events).exchange? id = some exchange →
      start.Routed events id exchange)
    {after : Exchange} (hafter : slot.exchange = some after) :
    start.Routed (events ++ [event]) id after := by
  cases move with
  | arrive request fresh =>
      have empty := (wellFormed id).fresh (Nat.le_of_eq fresh.symm)
      have absent : (start.run events).exchange? id = none := congrArg Slot.exchange empty
      rw [absent] at hafter
      cases hafter
      exact ⟨⟨events, [], rfl, fresh.symm⟩, nofun, nofun⟩
  | turn exchange phase store found turns =>
      cases hafter
      exact turns.routed (h exchange found) _
  | join exchange key tiers gate found approaching =>
      cases hafter
      exact (h exchange found).onward _ rfl (by rw [approaching]; rfl) rfl
  | giveUp exchange key gate deadline found waiting =>
      cases hafter
      exact (h exchange found).onward _ rfl (by rw [waiting]; rfl) rfl
  | conclude exchange event response found concludes =>
      cases hafter
      exact (h exchange found).answered _ _ _ _
  | filter exchange kind request reply found awaiting =>
      cases hafter
      exact (h exchange found).onward _ rfl (by rw [awaiting]; rfl) rfl
  | copy exchange key request reply found awaiting =>
      cases hafter
      exact (h exchange found).answered _ _ _ _
  | readDirect exchange response source found responded =>
      cases hafter
      exact (h exchange found).answered _ _ _ _
  | readCopy exchange response tee found responded copied => exact (h after hafter).more _
  | dropBody exchange response delivery found responded =>
      cases hafter
      exact (h exchange found).answered _ _ _ _
  | dropCopy exchange response tee found responded =>
      cases hafter
      exact (h exchange found).answered _ _ _ _
  | abandon exchange found unanswered => cases hafter
  | work task later tee shared found works => exact (h after hafter).more _

end Ways

theorem run_routed (settings : Settings) (store : CountedStore) (now : Nat) (events : List Event)
    (id : Nat) (exchange : Exchange)
    (found : ((Engine.start settings store now).run events).exchange? id = some exchange) :
    (Engine.start settings store now).Routed events id exchange := by
  revert exchange
  refine run_slots (fun events id slot => ∀ exchange, slot.exchange = some exchange →
    (Engine.start settings store now).Routed events id exchange) settings store now ?_ ?_ ?_ events
    id
  · intro id exchange absent
    cases absent
  · intro events event id slot h exchange found
    exact (h exchange found).more event
  · intro events event id slot shared move h exchange found
    exact move.routed (run_wellFormed (start_wellFormed settings store now) events) h found

end Engine

end Outpost.Proxy
