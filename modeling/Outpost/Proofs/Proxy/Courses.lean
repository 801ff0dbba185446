import Outpost.Proofs.Proxy.Histories

/-!
# The course of an exchange

What an exchange comes to if it is the one that moves: events of its own and the passing of time
take it from its dispatch to the upstream or to an answer, whatever all others have left behind.
-/

namespace Outpost

def Coding.Collector.Completes (collector : Coding.Collector) (payload : Bytes) :
    Stream.Poll Stream.TeeError → Prop
  | .ended => collector.finish = .ok payload
  | .chunk bytes => (collector.feed bytes).2 = some (.ok payload)
  | .pending | .failed _ => False

end Outpost

namespace Outpost.Proxy

open Api Cache Coding Config Http Store Outpost.Stream

namespace Engine

/-! ## Events of its own -/

/-- An event of the exchange with this number, which the upstream answers so, other than that its
client goes away, or the passing of time. -/
def Event.IsOwn (id : Nat) (result : Except TransportFailure Reply) : Event → Prop
  | .advance other | .read other | .work other => other = id
  | .answer other given => other = id ∧ given = result
  | .pass _ => True
  | .arrive _ | .abandon _ | .probed _ => False

/-- Events of the exchange's own lead to the goal. -/
def Leads (engine : Engine) (id : Nat) (result : Except TransportFailure Reply)
    (goal : Engine → Prop) : Prop :=
  ∃ events : List Event, (∀ event ∈ events, event.IsOwn id result) ∧ goal (engine.run events)

section Leads

variable {engine : Engine} {id : Nat} {result : Except TransportFailure Reply}
  {goal further : Engine → Prop}

theorem Leads.here (h : goal engine) : engine.Leads id result goal :=
  ⟨[], fun _ member => absurd member List.not_mem_nil, h⟩

theorem Leads.trans (h : engine.Leads id result goal)
    (next : ∀ after : Engine, goal after → after.Leads id result further) :
    engine.Leads id result further := by
  obtain ⟨events, own, reached⟩ := h
  obtain ⟨more, ownMore, reachedMore⟩ := next _ reached
  refine ⟨events ++ more, fun event member => ?_, ?_⟩
  · exact (List.mem_append.mp member).elim (own event) (ownMore event)
  · rw [run_append]
    exact reachedMore

theorem Leads.step (event : Event) (own : event.IsOwn id result)
    (next : (engine.step event).Leads id result goal) : engine.Leads id result goal := by
  obtain ⟨events, ownEvents, reached⟩ := next
  refine ⟨event :: events, fun other member => ?_, reached⟩
  rcases List.mem_cons.mp member with rfl | later
  · exact own
  · exact ownEvents other later

end Leads

/-! ## Steps -/

section Steps

variable {engine : Engine} {id : Nat} {exchange : Exchange}

theorem exchange?_setPhase (found : engine.exchange? id = some exchange) (phase : Phase) :
    (engine.setPhase exchange phase).exchange? id = some { exchange with phase } := by
  have number := id_of_exchange? found
  subst number
  refine (exchange?_setExchange exchange.id).trans ?_
  rw [if_pos rfl, found]
  rfl

theorem exchange?_arrival (wellFormed : engine.WellFormed) (request : Request) :
    (engine.step (.arrive request)).exchange? engine.nextId =
      some ⟨engine.nextId, request, request.info, none, .arrived⟩ := by
  have absent : engine.exchange? engine.nextId = none :=
    congrArg Slot.exchange ((wellFormed engine.nextId).fresh (Nat.le_refl _))
  refine (exchange?_arrive request engine.nextId).trans ?_
  rw [absent, Option.none_or]
  exact if_pos rfl

variable (found : engine.exchange? id = some exchange)

include found

theorem step_relay (arrived : exchange.phase = .arrived) (sample : engine.handler = .sample) :
    engine.step (.advance id) = engine.setPhase exchange (.sending .relayed) := by
  simp only [step, advance, found, arrived, dispatch, sample]

theorem step_dispatch (arrived : exchange.phase = .arrived) (dev : engine.handler = .dev)
    (healthy : engine.health.isHealthy = true) :
    ∃ metrics, engine.step (.advance id) =
      { engine with metrics }.setPhase exchange (firstPhase exchange) := by
  have dispatched := dispatch_eq exchange dev
  rw [if_pos healthy] at dispatched
  refine ⟨engine.countDispatch exchange, ?_⟩
  simp only [step, advance, found, arrived, dispatched]

omit found in
theorem exchange?_taken (wellFormed : engine.WellFormed) (dev : engine.handler = .dev)
    (request : Request) :
    (engine.run [.probed true, .arrive request, .advance engine.nextId]).exchange? engine.nextId =
      some ⟨engine.nextId, request, request.info, none,
        firstPhase ⟨engine.nextId, request, request.info, none, .arrived⟩⟩ := by
  have found := exchange?_arrival (step_wellFormed wellFormed (.probed true)) request
  obtain ⟨metrics, dispatched⟩ := step_dispatch found rfl dev rfl
  have split : engine.run [.probed true, .arrive request, .advance engine.nextId] =
      ((engine.step (.probed true)).step (.arrive request)).step (.advance engine.nextId) := rfl
  have counted : Engine.exchange?
      { (engine.step (.probed true)).step (.arrive request) with metrics } engine.nextId =
        some ⟨engine.nextId, request, request.info, none, .arrived⟩ := found
  rw [split]
  exact (congrArg (exchange? · engine.nextId) dispatched).trans (exchange?_setPhase counted _)

section Looks

variable {key : Key}

theorem step_miss (looking : exchange.phase = .firstLook key)
    (absent : engine.tiers.volatile? key = none) :
    engine.step (.advance id) = engine.setPhase exchange (.approaching key) := by
  simp only [step, advance, found, looking, absent]

theorem step_hit {payload : Bytes}
    (looking : exchange.phase = .firstLook key ∨ exchange.phase = .secondLook key)
    (present : engine.tiers.volatile? key = some payload) :
    engine.step (.advance id) = engine.hit exchange payload := by
  rcases looking with looking | looking <;>
    simp only [step, advance, found, looking, present]

theorem step_approach (approaching : exchange.phase = .approaching key) :
    engine.step (.advance id) = engine.approach exchange key := by
  simp only [step, advance, found, approaching]

theorem step_admitted {gate deadline : Nat} (waiting : exchange.phase = .waiting key gate deadline)
    (held : engine.lines.isHeld gate id = true) :
    engine.step (.advance id) = engine.setPhase exchange (.secondLook key) := by
  simp only [step, advance, found, waiting, held, if_true]

theorem step_giveUp {gate deadline : Nat} (waiting : exchange.phase = .waiting key gate deadline)
    (unheld : engine.lines.isHeld gate id = false) (late : deadline ≤ engine.now) :
    engine.step (.advance id) =
      (engine.leaveGate exchange).setPhase { exchange with gate := none } (.secondLook key) := by
  simp only [step, advance, found, waiting, unheld, Bool.false_eq_true, if_false, if_pos late]

theorem step_missAgain (looking : exchange.phase = .secondLook key)
    (absent : engine.tiers.volatile? key = none) :
    engine.step (.advance id) = engine.setPhase exchange (.sending .treated) := by
  simp only [step, advance, found, looking, absent]

end Looks

section Sends

variable {relation : Relation}

theorem step_send {request : Outgoing} (sending : exchange.phase = .sending relation)
    (sendable : outgoing engine.upstream exchange.request = .ok request) :
    engine.step (.advance id) = engine.setPhase exchange (.awaiting relation request) := by
  simp only [step, advance, found, sending, sendable]

theorem step_unsendable {error : ProxyError} (sending : exchange.phase = .sending relation)
    (refused : outgoing engine.upstream exchange.request = .error error) :
    engine.step (.advance id) = engine.conclude exchange error.response := by
  simp only [step, advance, found, sending, refused]

theorem step_fail {request : Outgoing} (failure : TransportFailure)
    (awaiting : exchange.phase = .awaiting relation request) :
    engine.step (.answer id (.error failure)) =
      engine.conclude exchange (ProxyError.transport failure).response := by
  simp only [step, answer, found, awaiting]

theorem step_treat {request : Outgoing} (reply : Reply)
    (awaiting : exchange.phase = .awaiting .treated request) :
    engine.step (.answer id (.ok reply)) = engine.treat exchange reply := by
  simp only [step, answer, found, awaiting]

end Sends

section Reads

variable {response : Response} {tee : Tee}

theorem read_direct {source : Source}
    (responded : exchange.phase = .responded response (.direct source)) :
    engine.read id =
      (engine.setPhase exchange (.responded response (.direct (source.poll engine.now).1)),
        (source.poll engine.now).2) := by
  simp only [read, found, responded]

theorem read_copied (responded : exchange.phase = .responded response .copied)
    (copied : engine.tee? id = some tee) :
    engine.read id =
      (engine.setTee id (tee.pollForeground engine.now).1, (tee.pollForeground engine.now).2) := by
  simp only [read, found, responded, copied]

theorem step_readCopy (responded : exchange.phase = .responded response .copied)
    (copied : engine.tee? id = some tee) :
    engine.step (.read id) = engine.setTee id (tee.pollForeground engine.now).1 :=
  congrArg Prod.fst (read_copied found responded copied)

end Reads

section Copies

variable {tee after : Tee} {task : CachingTask} {collector : Collector}

omit found

theorem step_collected {poll : Poll TeeError} {payload : Bytes}
    (worked : engine.task? id = some task) (collecting : task.stage = .collecting collector)
    (copied : engine.tee? id = some tee) (polled : tee.pollBackground = (after, poll))
    (completes : collector.Completes payload poll) :
    engine.step (.work id) = engine.collected task after (.ok payload) := by
  cases poll with
  | pending | failed => exact completes.elim
  | ended =>
      have finished : collector.finish = .ok payload := completes
      simp only [step, work, worked, collecting, copied, polled, finished]
  | chunk bytes =>
      have fed : (collector.feed bytes).2 = some (.ok payload) := completes
      rcases feeding : collector.feed bytes with ⟨grown, result⟩
      rw [feeding] at fed
      cases fed
      simp only [step, work, worked, collecting, copied, polled, feeding]

theorem task?_collected (worked : engine.task? id = some task) (tee : Tee)
    (body : Except Unit Bytes) : (engine.collected task tee body).task? id =
      some { task with stage := stageAfter task.key body } := by
  have number := exchange_of_task? worked
  subst number
  refine (task?_setTask task.exchange).trans ?_
  rw [if_pos rfl]
  exact congrArg (Option.map _) worked

theorem step_insert {payload : Bytes} (worked : engine.task? id = some task)
    (inserting : task.stage = .inserting payload) :
    (engine.step (.work id)).tiers = (engine.tiers.insertVolatile task.key payload).1 := by
  simp only [step, work, worked, inserting]
  rfl

theorem slot_copyForCache (key : Key) (response : Response) (source : Source)
    (bare : engine.slot exchange.id = ⟨some exchange, none, none⟩) :
    (engine.copyForCache exchange key response source).slot exchange.id = {
      exchange := some { exchange with
        gate := none
        phase := .responded { response with payload := .copied } .copied }
      task := some {
        exchange := exchange.id, key, gate := exchange.gate
        stage := .collecting (Collector.start (declared? response.headers)) }
      tee := some (Tee.start source engine.teeBuffer (declaredLength? response.headers)) } := by
  have found : engine.exchange? exchange.id = some exchange := congrArg Slot.exchange bare
  have untasked : engine.task? exchange.id = none := congrArg Slot.task bare
  have unteed : engine.tee? exchange.id = none := congrArg Slot.tee bare
  let task : CachingTask := {
    exchange := exchange.id, key, gate := exchange.gate
    stage := .collecting (Collector.start (declared? response.headers)) }
  let tee := Tee.start source engine.teeBuffer (declaredLength? response.headers)
  have copied := slot_append engine task tee exchange.id
  rw [if_pos rfl, if_pos rfl, found, untasked, unteed] at copied
  refine (@slot_setExchange { engine with
    tasks := engine.tasks ++ [task]
    tees := engine.tees ++ [(exchange.id, tee)]
    metrics := engine.metrics.recordEnd response.status } _ exchange.id).trans ?_
  rw [if_pos rfl]
  have there : Engine.slot { engine with
      tasks := engine.tasks ++ [task]
      tees := engine.tees ++ [(exchange.id, tee)]
      metrics := engine.metrics.recordEnd response.status } exchange.id =
        ⟨some exchange, some task, some tee⟩ := copied
  have kept : Engine.exchange? { engine with
      tasks := engine.tasks ++ [task]
      tees := engine.tees ++ [(exchange.id, tee)]
      metrics := engine.metrics.recordEnd response.status } exchange.id = some exchange :=
    congrArg Slot.exchange there
  rw [there, kept]
  rfl

end Copies

end Steps

/-! ## Up to the upstream -/

def Stands (id : Nat) (request : Request) (phase : Phase → Prop) (engine : Engine) : Prop :=
  ∃ exchange, engine.exchange? id = some exchange ∧ exchange.request = request ∧
    phase exchange.phase

/-- The request has been sent upstream, or it cannot be sent, or it was answered with the entry
that it asks for. -/
inductive Settled (id : Nat) (request : Request) (engine : Engine) : Prop where
  | sent (h : Stands id request (·.outgoing?.isSome) engine)
  | refused (error : ProxyError) (refused : outgoing engine.upstream request = .error error)
      (h : Stands id request (·.isResponded) engine)
  | hit (key : Key) (payload : Bytes) (asks : AsksFor request key)
      (present : engine.tiers.volatile? key = some payload)
      (h : Stands id request (·.isResponded) engine)

section Ways

variable {engine : Engine} {id : Nat} {exchange : Exchange} {request : Request}
  {result : Except TransportFailure Reply}

theorem stands_conclude (found : engine.exchange? id = some exchange)
    (same : exchange.request = request) (response : Response) :
    Stands id request (·.isResponded) (engine.conclude exchange response) := by
  have number := id_of_exchange? found
  subst number
  exact ⟨_, exchange?_conclude response found, same, rfl⟩

theorem stands_setPhase (found : engine.exchange? id = some exchange)
    (same : exchange.request = request) {phase : Phase} {holds : Phase → Prop} (h : holds phase) :
    Stands id request holds (engine.setPhase exchange phase) :=
  ⟨_, exchange?_setPhase found phase, same, h⟩

theorem leads_of_sending {relation : Relation}
    (h : Stands id request (· = .sending relation) engine) :
    engine.Leads id result (Settled id request) := by
  obtain ⟨exchange, found, rfl, sending⟩ := h
  refine .step (.advance id) rfl (.here ?_)
  cases sendable : outgoing engine.upstream exchange.request with
  | error error =>
      rw [step_unsendable found sending sendable]
      have upstream : (engine.conclude exchange error.response).upstream = engine.upstream :=
        congrArg (·.constants.upstream) (surroundings_conclude engine exchange error.response)
      exact .refused error (upstream ▸ sendable) (stands_conclude found rfl _)
  | ok out =>
      rw [step_send found sending sendable]
      exact .sent (stands_setPhase found rfl rfl)

section Looks

variable {key : Key} (asks : AsksFor request key)

include asks

theorem settled_hit (found : engine.exchange? id = some exchange)
    (same : exchange.request = request) {payload : Bytes}
    (present : engine.tiers.volatile? key = some payload) :
    Settled id request (engine.hit exchange payload) := by
  have tiers : (engine.hit exchange payload).tiers = engine.tiers :=
    congrArg Shared.tiers (shared_leaveGate { engine with
      metrics := engine.metrics.recordVolatileHit } exchange)
  have found : Engine.exchange? { engine with
      metrics := engine.metrics.recordVolatileHit } id = some exchange := found
  exact .hit key payload asks (tiers ▸ present) (stands_conclude found same _)

theorem leads_of_secondLook (h : Stands id request (· = .secondLook key) engine) :
    engine.Leads id result (Settled id request) := by
  obtain ⟨exchange, found, same, looking⟩ := h
  refine .step (.advance id) rfl ?_
  cases present : engine.tiers.volatile? key with
  | none =>
      rw [step_missAgain found looking present]
      exact leads_of_sending (stands_setPhase found same rfl)
  | some payload =>
      rw [step_hit found (.inr looking) present]
      exact .here (settled_hit asks found same present)

theorem leads_of_waiting {gate deadline : Nat}
    (h : Stands id request (· = .waiting key gate deadline) engine) :
    engine.Leads id result (Settled id request) := by
  obtain ⟨exchange, found, same, waiting⟩ := h
  have number := id_of_exchange? found
  subst number
  refine .step (.pass deadline) trivial (.step (.advance exchange.id) rfl ?_)
  have later : (engine.step (.pass deadline)).exchange? exchange.id = some exchange := found
  cases held : engine.lines.isHeld gate exchange.id with
  | true =>
      rw [step_admitted later waiting held]
      exact leads_of_secondLook asks (stands_setPhase later same rfl)
  | false =>
      rw [step_giveUp later waiting held (Nat.le_max_right _ _)]
      have left : ((engine.step (.pass deadline)).leaveGate exchange).exchange? exchange.id =
          some { exchange with gate := none } := congrArg Slot.exchange (slot_leaveGate later)
      exact leads_of_secondLook asks (stands_setPhase left same rfl)

theorem leads_of_approaching (h : Stands id request (· = .approaching key) engine) :
    engine.Leads id result (Settled id request) := by
  obtain ⟨exchange, found, same, approaching⟩ := h
  have number := id_of_exchange? found
  subst number
  refine .step (.advance exchange.id) rfl ?_
  rw [step_approach found approaching]
  unfold approach
  split
  · exact leads_of_secondLook asks (stands_setPhase (by exact found) same rfl)
  · rename_i tiers gate opened
    refine leads_of_waiting asks ⟨{ exchange with
      gate := some gate
      phase := .waiting key gate (engine.now + engine.populateWait) }, ?_, same, rfl⟩
    refine (exchange?_setExchange exchange.id).trans ?_
    rw [if_pos rfl]
    exact congrArg (Option.map _) found

theorem leads_of_firstLook (h : Stands id request (· = .firstLook key) engine) :
    engine.Leads id result (Settled id request) := by
  obtain ⟨exchange, found, same, looking⟩ := h
  refine .step (.advance id) rfl ?_
  cases present : engine.tiers.volatile? key with
  | none =>
      rw [step_miss found looking present]
      exact leads_of_approaching asks (stands_setPhase found same rfl)
  | some payload =>
      rw [step_hit found (.inl looking) present]
      exact .here (settled_hit asks found same present)

end Looks

theorem leads_of_arrived (dev : engine.handler = .dev)
    (healthy : engine.health.isHealthy = true) (found : engine.exchange? id = some exchange)
    (arrived : exchange.phase = .arrived) (info : exchange.info = exchange.request.info) :
    engine.Leads id result (Settled id exchange.request) := by
  obtain ⟨metrics, dispatched⟩ := step_dispatch found arrived dev healthy
  refine .step (.advance id) rfl ?_
  rw [dispatched]
  have found : Engine.exchange? { engine with metrics } id = some exchange := found
  unfold firstPhase
  split
  · exact leads_of_sending (stands_setPhase found rfl rfl)
  rename_i plain
  rw [Bool.not_eq_true] at plain
  split
  · rename_i key asked
    split
    · rename_i volatile
      rw [info] at asked volatile
      exact leads_of_firstLook ⟨plain, asked, volatile⟩ (stands_setPhase found rfl rfl)
    · exact leads_of_sending (stands_setPhase found rfl rfl)
  · exact leads_of_sending (stands_setPhase found rfl rfl)

end Ways

end Engine

end Outpost.Proxy
