import Outpost.Proofs.Proxy.Courses

/-!
# What a step counts

An arrival is counted at once.  After that the counters change only with the phase of an exchange:
when it is dispatched, when a look finds a volatile entry, and when it is answered.  What a step
has counted is therefore told by the phase of its exchange before it and after it.
-/

namespace Outpost.Proxy

open Api Cache Coding Config Http Store Outpost.Stream

namespace Engine

def countLeave (engine : Engine) (exchange : Exchange) (phase : Phase) : Metrics :=
  match exchange.phase with
  | .arrived => engine.countDispatch exchange
  | .firstLook _ | .secondLook _ =>
      if phase.isResponded then engine.metrics.recordVolatileHit else engine.metrics
  | _ => engine.metrics

def countTurn (engine : Engine) (exchange : Exchange) (phase : Phase) : Metrics :=
  match exchange.phase, phase with
  | .responded _ _, _ | .arrived, .arrived => engine.metrics
  | _, .responded response _ => (engine.countLeave exchange phase).recordEnd response.status
  | _, _ => engine.countLeave exchange phase

variable {engine before : Engine} {exchange : Exchange} {id : Nat}

theorem countTurn_answer (unanswered : exchange.phase.isResponded = false) (response : Response)
    (delivery : Delivery) :
    engine.countTurn exchange (.responded response delivery) =
      (engine.countLeave exchange (.responded response delivery)).recordEnd response.status := by
  cases phase : exchange.phase with
  | responded => simp_all [Phase.isResponded]
  | _ => simp only [countTurn, phase]

theorem countTurn_onward {phase : Phase} {relation : Relation}
    (unanswered : exchange.phase.isResponded = false) (way : phase.way? = some relation) :
    engine.countTurn exchange phase = engine.countLeave exchange phase := by
  cases before : exchange.phase <;> cases phase <;>
    simp_all [countTurn, Phase.isResponded, Phase.way?]

/-! ## Steps of exchanges -/

/-- What the step of an exchange has counted is told by its phase before and after it. -/
inductive Counts (engine : Engine) (id : Nat) (after : Engine) : Prop where
  | absent (absent : engine.exchange? id = none) (metrics : after.metrics = engine.metrics)
  | turn (exchange later : Exchange) (found : engine.exchange? id = some exchange)
      (there : after.exchange? id = some later)
      (metrics : after.metrics = engine.countTurn exchange later.phase)

theorem metrics_leaveGate (exchange : Exchange) :
    (engine.leaveGate exchange).metrics = engine.metrics := by
  unfold leaveGate
  split <;> rfl

namespace Counts

theorem refl (found : engine.exchange? id = some exchange) : Counts engine id engine := by
  refine .turn exchange exchange found found ?_
  cases phase : exchange.phase <;> simp [countTurn, countLeave, Phase.isResponded, phase]

theorem setExchange {present later : Exchange} (found : engine.exchange? id = some exchange)
    (there : before.exchange? id = some present) (number : later.id = id)
    (metrics : before.metrics = engine.countTurn exchange later.phase) :
    Counts engine id (before.setExchange later) := by
  refine .turn exchange later found ?_ metrics
  rw [exchange?_setExchange, if_pos number.symm, there]
  rfl

theorem setPhase {phase : Phase} (found : engine.exchange? id = some exchange)
    (same : before.exchange? id = engine.exchange? id)
    (metrics : before.metrics = engine.countTurn exchange phase) :
    Counts engine id (before.setPhase exchange phase) := by
  have number := id_of_exchange? found
  exact setExchange found (same.trans found) number metrics

theorem conclude {response : Response} (found : engine.exchange? id = some exchange)
    (same : before.exchange? id = engine.exchange? id)
    (unanswered : exchange.phase.isResponded = false)
    (metrics : before.metrics = engine.countLeave exchange
      (.responded response (Delivery.ofPayload response.payload))) :
    Counts engine id (before.conclude exchange response) := by
  have number := id_of_exchange? found
  subst number
  refine setExchange found (congrArg Slot.exchange (slot_leaveGate (same.trans found))) rfl ?_
  change (before.leaveGate exchange).metrics.recordEnd response.status = _
  rw [metrics_leaveGate, metrics, countTurn_answer unanswered]

end Counts

theorem firstPhase_way (exchange : Exchange) :
    ∃ relation, (firstPhase exchange).way? = some relation := by
  unfold firstPhase
  repeat' split
  all_goals exact ⟨_, rfl⟩

theorem counts_dispatch (found : engine.exchange? id = some exchange)
    (arrived : exchange.phase = .arrived) : Counts engine id (engine.dispatch exchange) := by
  have leaves : ∀ phase, engine.countLeave exchange phase = engine.countDispatch exchange :=
    fun phase => by simp only [countLeave, arrived]
  have unanswered : exchange.phase.isResponded = false := by rw [arrived]; rfl
  cases handler : engine.handler with
  | sample =>
      have relayed : engine.dispatch exchange = engine.setPhase exchange (.sending .relayed) := by
        unfold dispatch
        rw [handler]
      rw [relayed]
      refine .setPhase found rfl ?_
      rw [countTurn_onward unanswered rfl, leaves, countDispatch, handler]
  | dev =>
      obtain ⟨relation, way⟩ := firstPhase_way exchange
      rw [dispatch_eq exchange handler]
      split
      · exact .setPhase found rfl (by rw [countTurn_onward unanswered way, leaves])
      · exact .setPhase found rfl (by rw [countTurn_answer unanswered, leaves])

theorem counts_advance (engine : Engine) (id : Nat) : Counts engine id (engine.advance id).1 := by
  unfold advance
  split
  · rename_i absent
    exact .absent absent rfl
  rename_i exchange found
  split
  · rename_i arrived
    exact counts_dispatch found arrived
  · rename_i key looking
    split
    · exact .conclude found rfl (by rw [looking]; rfl) (by simp only [countLeave, looking]; rfl)
    · exact .setPhase found rfl (by simp only [countTurn, countLeave, looking]; rfl)
  · rename_i key approaching
    have number := id_of_exchange? found
    unfold approach
    split
    · exact .setPhase found rfl (by simp only [countTurn, countLeave, approaching])
    · exact .setExchange found found number (by simp only [countTurn, countLeave, approaching])
  · rename_i key gate deadline waiting
    split
    · exact .setPhase found rfl (by simp only [countTurn, countLeave, waiting])
    · split
      · have number := id_of_exchange? found
        subst number
        refine .setExchange found (congrArg Slot.exchange (slot_leaveGate found)) rfl ?_
        simp only [metrics_leaveGate, countTurn, countLeave, waiting]
      · exact .refl found
  · rename_i key looking
    split
    · exact .conclude found rfl (by rw [looking]; rfl) (by simp only [countLeave, looking]; rfl)
    · exact .setPhase found rfl (by simp only [countTurn, countLeave, looking]; rfl)
  · rename_i relation sending
    split
    · exact .conclude found rfl (by rw [sending]; rfl) (by simp only [countLeave, sending])
    · exact .setPhase found rfl (by simp only [countTurn, countLeave, sending])
  · exact .refl found
  · rename_i kind response source collector filtering
    split
    · exact .setPhase found rfl (by simp only [countTurn, countLeave, filtering])
    · split <;>
        exact .conclude found rfl (by rw [filtering]; rfl) (by simp only [countLeave, filtering])
  · exact .refl found

theorem counts_answer (engine : Engine) (id : Nat) (result : Except TransportFailure Reply) :
    Counts engine id (engine.answer id result) := by
  unfold answer
  split
  · rename_i absent
    exact .absent absent rfl
  rename_i exchange found
  split
  · rename_i relation request awaiting
    have unanswered : exchange.phase.isResponded = false := by rw [awaiting]; rfl
    have leaves : ∀ phase, engine.countLeave exchange phase = engine.metrics := fun phase => by
      simp only [countLeave, awaiting]
    have concludes (response : Response) : Counts engine id (engine.conclude exchange response) :=
      .conclude found rfl unanswered (leaves _).symm
    split
    · exact concludes _
    · split
      · exact concludes _
      · exact concludes _
      · unfold treat
        simp only
        split
        · exact concludes _
        · exact .setPhase found rfl (by rw [countTurn_onward unanswered rfl, leaves])
        · have number := id_of_exchange? found
          refine .setExchange found found number ?_
          rw [countTurn_answer unanswered, leaves]
  · exact .refl found

/-! ## All steps -/

theorem metrics_read (id : Nat) : (engine.read id).1.metrics = engine.metrics := by
  unfold read
  repeat' split
  all_goals rfl

theorem metrics_abandon (id : Nat) : (engine.abandon id).metrics = engine.metrics := by
  unfold abandon
  split
  · rfl
  split
  · simp only
    split <;> rfl
  · exact metrics_leaveGate _

theorem metrics_work (id : Nat) : (engine.work id).1.metrics = engine.metrics := by
  unfold work
  repeat' split
  all_goals rfl

theorem step_metrics (engine : Engine) (event : Event) :
    match event with
    | .arrive _ => (engine.step event).metrics = engine.metrics.recordStart
    | .advance id | .answer id _ => Counts engine id (engine.step event)
    | _ => (engine.step event).metrics = engine.metrics := by
  cases event with
  | advance id => exact counts_advance engine id
  | answer id result => exact counts_answer engine id result
  | read id => exact metrics_read id
  | abandon id => exact metrics_abandon id
  | work id => exact metrics_work id
  | _ => rfl

end Engine

end Outpost.Proxy
