import Outpost.Proofs.Cache.Tiers
import Outpost.Proofs.Proxy.Views

/-!
# What a step of the engine can do

Every step of an engine either changes nothing but clocks and counters, or moves what stands
under one number and, with it, what all share.  `Move` lists the ways, with what has to hold for
each of them; what an invariant needs to know of the engine's steps is read off this list.
-/

namespace Outpost.Proxy

open Api Cache Coding Config Http Store Outpost.Stream

namespace Engine

def stageAfter (key : Key) : Except Unit Bytes → TaskStage
  | .ok payload => storing key payload
  | .error _ => .closing

def linesAfter (engine : Engine) (task : CachingTask) : Lines :=
  match task.gate with
  | none => engine.lines
  | some gate => engine.lines.leave gate task.exchange

/-- What an exchange may do on its own account: the phase that follows, and the store after a
look into it. -/
inductive Turns (engine : Engine) (exchange : Exchange) : Phase → CountedStore → Prop where
  | relay (arrived : exchange.phase = .arrived) (sample : engine.handler = .sample) :
      Turns engine exchange (.sending .relayed) engine.store
  | upgrade (arrived : exchange.phase = .arrived) (dev : engine.handler = .dev)
      (healthy : engine.health.isHealthy = true)
      (upgrade : isUpgrade exchange.request.headers = true) :
      Turns engine exchange (.sending .upgraded) engine.store
  | look (key : Key) (arrived : exchange.phase = .arrived) (dev : engine.handler = .dev)
      (healthy : engine.health.isHealthy = true)
      (plain : isUpgrade exchange.request.headers = false)
      (asked : Key.ofRequest? exchange.info = some key)
      (volatile : exchange.info.policy = .volatile) :
      Turns engine exchange (.firstLook key) engine.store
  | send (arrived : exchange.phase = .arrived) (dev : engine.handler = .dev)
      (healthy : engine.health.isHealthy = true)
      (plain : isUpgrade exchange.request.headers = false)
      (other : ∀ key, Key.ofRequest? exchange.info = some key → exchange.info.policy ≠ .volatile) :
      Turns engine exchange (.sending .treated) engine.store
  | fallBack (arrived : exchange.phase = .arrived) (dev : engine.handler = .dev)
      (unhealthy : engine.health.isHealthy = false) :
      Turns engine exchange
        (.responded (fallback engine.store exchange.info).2
          (Delivery.ofPayload (fallback engine.store exchange.info).2.payload))
        (fallback engine.store exchange.info).1
  | miss (key : Key) (looking : exchange.phase = .firstLook key)
      (absent : engine.tiers.volatile? key = none) :
      Turns engine exchange (.approaching key) engine.store
  | ungated (key : Key) (approaching : exchange.phase = .approaching key)
      (closed : (engine.tiers.gate? key).2 = none) :
      Turns engine exchange (.secondLook key) engine.store
  | admitted (key : Key) (gate deadline : Nat)
      (waiting : exchange.phase = .waiting key gate deadline)
      (held : engine.lines.isHeld gate exchange.id = true) :
      Turns engine exchange (.secondLook key) engine.store
  | missAgain (key : Key) (looking : exchange.phase = .secondLook key)
      (absent : engine.tiers.volatile? key = none) :
      Turns engine exchange (.sending .treated) engine.store
  | sent (relation : Relation) (request : Outgoing)
      (sending : exchange.phase = .sending relation)
      (sendable : outgoing engine.upstream exchange.request = .ok request) :
      Turns engine exchange (.awaiting relation request) engine.store
  | gather (kind : ResourceKind) (response : Response) (source rest : Source)
      (collector grown : Collector)
      (filtering : exchange.phase = .filtering kind response source collector)
      (unfinished : collectItems engine.now collector source.items = (rest.items, grown, none)) :
      Turns engine exchange (.filtering kind response rest grown) engine.store

/-- Why an exchange is answered, and with what, other than by a copied body. -/
inductive Concludes (engine : Engine) (exchange : Exchange) : Event → Response → Prop where
  | hit (key : Key) (payload : Bytes)
      (looking : exchange.phase = .firstLook key ∨ exchange.phase = .secondLook key)
      (present : engine.tiers.volatile? key = some payload) :
      Concludes engine exchange (.advance exchange.id) (Response.json 200 payload)
  | unsendable (relation : Relation) (error : ProxyError)
      (sending : exchange.phase = .sending relation)
      (refused : outgoing engine.upstream exchange.request = .error error) :
      Concludes engine exchange (.advance exchange.id) error.response
  | filtered (kind : ResourceKind) (response filtered : Response) (source : Source)
      (collector : Collector) (body : Except Unit Bytes)
      (filtering : exchange.phase = .filtering kind response source collector)
      (read : (collectItems engine.now collector source.items).2.2 = some body)
      (result : filterResponse engine.wording exchange.info kind engine.filterStart response
        body = .ok filtered) :
      Concludes engine exchange (.advance exchange.id) filtered
  | unfiltered (kind : ResourceKind) (response : Response) (error : ProxyError) (source : Source)
      (collector : Collector) (body : Except Unit Bytes)
      (filtering : exchange.phase = .filtering kind response source collector)
      (read : (collectItems engine.now collector source.items).2.2 = some body)
      (result : filterResponse engine.wording exchange.info kind engine.filterStart response
        body = .error error) :
      Concludes engine exchange (.advance exchange.id) error.response
  | failed (relation : Relation) (request : Outgoing) (failure : TransportFailure)
      (awaiting : exchange.phase = .awaiting relation request) :
      Concludes engine exchange (.answer exchange.id (.error failure))
        (ProxyError.transport failure).response
  | relayed (request : Outgoing) (reply : Reply)
      (awaiting : exchange.phase = .awaiting .relayed request) :
      Concludes engine exchange (.answer exchange.id (.ok reply)) (relay reply)
  | upgraded (request : Outgoing) (reply : Reply)
      (awaiting : exchange.phase = .awaiting .upgraded request) :
      Concludes engine exchange (.answer exchange.id (.ok reply)) (relayUpgrade reply)
  | passed (request : Outgoing) (reply : Reply)
      (awaiting : exchange.phase = .awaiting .treated request)
      (pass : treatment engine.tiers exchange.info reply.status
        (treatedResponse exchange.info reply).headers = .pass) :
      Concludes engine exchange (.answer exchange.id (.ok reply))
        (treatedResponse exchange.info reply)

/-- What the caching task of an exchange may do, and the tee and the shared state after it. -/
inductive Works (engine : Engine) (task : CachingTask) :
    Option CachingTask → Option Tee → Shared → Prop where
  | starved (collector : Collector) (tee after : Tee)
      (collecting : task.stage = .collecting collector)
      (found : engine.tee? task.exchange = some tee)
      (poll : tee.pollBackground = (after, .pending)) :
      Works engine task (engine.task? task.exchange) (some after) engine.shared
  | ended (collector : Collector) (tee after : Tee)
      (collecting : task.stage = .collecting collector)
      (found : engine.tee? task.exchange = some tee)
      (poll : tee.pollBackground = (after, .ended)) :
      Works engine task (some { task with stage := stageAfter task.key collector.finish })
        (some after.dropBackground) engine.shared
  | broken (collector : Collector) (tee after : Tee) (error : TeeError)
      (collecting : task.stage = .collecting collector)
      (found : engine.tee? task.exchange = some tee)
      (poll : tee.pollBackground = (after, .failed error)) :
      Works engine task (some { task with stage := .closing }) (some after.dropBackground)
        engine.shared
  | grown (collector grown : Collector) (tee after : Tee) (chunk : Bytes)
      (collecting : task.stage = .collecting collector)
      (found : engine.tee? task.exchange = some tee)
      (poll : tee.pollBackground = (after, .chunk chunk))
      (fed : collector.feed chunk = (grown, none)) :
      Works engine task (some { task with stage := .collecting grown }) (some after)
        engine.shared
  | decoded (collector grown : Collector) (tee after : Tee) (chunk : Bytes)
      (body : Except Unit Bytes) (collecting : task.stage = .collecting collector)
      (found : engine.tee? task.exchange = some tee)
      (poll : tee.pollBackground = (after, .chunk chunk))
      (fed : collector.feed chunk = (grown, some body)) :
      Works engine task (some { task with stage := stageAfter task.key body })
        (some after.dropBackground) engine.shared
  | insert (payload : Bytes) (inserting : task.stage = .inserting payload) :
      Works engine task (some { task with stage := .closing }) (engine.tee? task.exchange)
        { engine.shared with tiers := (engine.tiers.insertVolatile task.key payload).1 }
  | populate (population : Population) (stage : Population.Stage) (tiers : Tiers)
      (store : CountedStore) (populating : task.stage = .populating population)
      (step : population.step engine.tiers engine.store = (tiers, store, .next stage)) :
      Works engine task (some { task with stage := .populating { population with stage } })
        (engine.tee? task.exchange) { engine.shared with tiers, store }
  | populated (population : Population) (result : Except CacheError Outcome) (tiers : Tiers)
      (store : CountedStore) (populating : task.stage = .populating population)
      (step : population.step engine.tiers engine.store = (tiers, store, .finished result)) :
      Works engine task (some { task with stage := .closing }) (engine.tee? task.exchange)
        { engine.shared with tiers, store }
  | close (closing : task.stage = .closing) :
      Works engine task none (engine.tee? task.exchange)
        { engine.shared with lines := engine.linesAfter task }

/-- What an event may change under a number, and in what all share. -/
inductive Move (engine : Engine) (id : Nat) : Event → Slot → Shared → Prop where
  | arrive (request : Request) (fresh : id = engine.nextId) :
      Move engine id (.arrive request)
        { engine.slot id with
          exchange := (engine.exchange? id).or (some {
            id, request, info := RequestInfo.classify request.method request.target
            gate := none, phase := .arrived }) }
        engine.shared
  | turn (exchange : Exchange) (phase : Phase) (store : CountedStore)
      (found : engine.exchange? id = some exchange) (turns : Turns engine exchange phase store) :
      Move engine id (.advance id)
        { engine.slot id with exchange := some { exchange with phase } }
        { engine.shared with store }
  | join (exchange : Exchange) (key : Key) (tiers : Tiers) (gate : Nat)
      (found : engine.exchange? id = some exchange)
      (approaching : exchange.phase = .approaching key)
      (open_ : engine.tiers.gate? key = (tiers, some gate)) :
      Move engine id (.advance id)
        { engine.slot id with
          exchange := some { exchange with
            gate := some gate
            phase := .waiting key gate (engine.now + engine.populateWait) } }
        { engine.shared with tiers, lines := engine.lines.join gate id }
  | giveUp (exchange : Exchange) (key : Key) (gate deadline : Nat)
      (found : engine.exchange? id = some exchange)
      (waiting : exchange.phase = .waiting key gate deadline)
      (unheld : engine.lines.isHeld gate id = false) (late : deadline ≤ engine.now) :
      Move engine id (.advance id)
        { engine.slot id with
          exchange := some { exchange with gate := none, phase := .secondLook key } }
        { engine.shared with lines := engine.linesWithout exchange }
  | conclude (exchange : Exchange) (event : Event) (response : Response)
      (found : engine.exchange? id = some exchange)
      (concludes : Concludes engine exchange event response) :
      Move engine id event
        { engine.slot id with
          exchange := some { exchange with
            gate := none
            phase := .responded response (Delivery.ofPayload response.payload) } }
        { engine.shared with lines := engine.linesWithout exchange }
  | filter (exchange : Exchange) (kind : ResourceKind) (request : Outgoing) (reply : Reply)
      (found : engine.exchange? id = some exchange)
      (awaiting : exchange.phase = .awaiting .treated request)
      (filter : treatment engine.tiers exchange.info reply.status
        (treatedResponse exchange.info reply).headers = .filter kind) :
      Move engine id (.answer id (.ok reply))
        { engine.slot id with
          exchange := some { exchange with
            phase := .filtering kind (treatedResponse exchange.info reply) reply.body
              (Collector.start (declared? (treatedResponse exchange.info reply).headers)) } }
        engine.shared
  | copy (exchange : Exchange) (key : Key) (request : Outgoing) (reply : Reply)
      (found : engine.exchange? id = some exchange)
      (awaiting : exchange.phase = .awaiting .treated request)
      (cache : treatment engine.tiers exchange.info reply.status
        (treatedResponse exchange.info reply).headers = .cache key) :
      Move engine id (.answer id (.ok reply))
        { exchange := some { exchange with
            gate := none
            phase := .responded { treatedResponse exchange.info reply with payload := .copied }
              .copied }
          task := (engine.task? id).or (some {
            exchange := id, key, gate := exchange.gate
            stage := .collecting
              (Collector.start (declared? (treatedResponse exchange.info reply).headers)) })
          tee := (engine.tee? id).or (some (Tee.start reply.body engine.teeBuffer
            (declaredLength? (treatedResponse exchange.info reply).headers))) }
        engine.shared
  | readDirect (exchange : Exchange) (response : Response) (source : Source)
      (found : engine.exchange? id = some exchange)
      (responded : exchange.phase = .responded response (.direct source)) :
      Move engine id (.read id)
        { engine.slot id with
          exchange := some { exchange with
            phase := .responded response (.direct (source.poll engine.now).1) } }
        engine.shared
  | readCopy (exchange : Exchange) (response : Response) (tee : Tee)
      (found : engine.exchange? id = some exchange)
      (responded : exchange.phase = .responded response .copied)
      (copied : engine.tee? id = some tee) :
      Move engine id (.read id)
        { engine.slot id with tee := some (tee.pollForeground engine.now).1 }
        engine.shared
  | dropBody (exchange : Exchange) (response : Response) (delivery : Delivery)
      (found : engine.exchange? id = some exchange)
      (responded : exchange.phase = .responded response delivery)
      (uncopied : delivery = .copied → engine.tee? id = none) :
      Move engine id (.abandon id)
        { engine.slot id with
          exchange := some { exchange with phase := .responded response .dropped } }
        engine.shared
  | dropCopy (exchange : Exchange) (response : Response) (tee : Tee)
      (found : engine.exchange? id = some exchange)
      (responded : exchange.phase = .responded response .copied)
      (copied : engine.tee? id = some tee) :
      Move engine id (.abandon id)
        { engine.slot id with
          exchange := some { exchange with phase := .responded response .dropped }
          tee := some tee.dropForeground }
        engine.shared
  | abandon (exchange : Exchange) (found : engine.exchange? id = some exchange)
      (unanswered : ∀ response delivery, exchange.phase ≠ .responded response delivery) :
      Move engine id (.abandon id) { engine.slot id with exchange := none }
        { engine.shared with lines := engine.linesWithout exchange }
  | work (task : CachingTask) (after : Option CachingTask) (tee : Option Tee) (shared : Shared)
      (found : engine.task? id = some task) (works : Works engine task after tee shared) :
      Move engine id (.work id) { engine.slot id with task := after, tee } shared

structure Unmoved (engine after : Engine) : Prop where
  slots : ∀ id, after.slot id = engine.slot id
  shared : after.shared = engine.shared
  frame : after.frame = engine.frame

def frameAfter (engine : Engine) : Event → Frame
  | .arrive _ => { engine.frame with nextId := engine.nextId + 1 }
  | _ => engine.frame

/-- An event has moved what stands under one number, and nothing else. -/
structure Moved (engine : Engine) (id : Nat) (event : Event) (after : Engine) : Prop where
  move : Move engine id event (after.slot id) after.shared
  others : ∀ other, other ≠ id → after.slot other = engine.slot other
  frame : after.frame = engine.frameAfter event

variable {engine : Engine}

theorem Unmoved.refl (engine : Engine) : Unmoved engine engine := ⟨fun _ => rfl, rfl, rfl⟩

theorem slot_of_exchange? {id : Nat} {exchange : Exchange}
    (h : engine.exchange? id = some exchange) :
    engine.slot id = { engine.slot id with exchange := some exchange } := by
  rw [← h]
  rfl

theorem Moved.ofTee {before : Engine} {id : Nat} {event : Event} {present tee : Tee}
    (found : engine.tee? id = some present)
    (slots : ∀ id, before.slot id = engine.slot id)
    (frame : before.frame = engine.frameAfter event)
    (move : Move engine id event { engine.slot id with tee := some tee } before.shared) :
    Moved engine id event (before.setTee id tee) where
  move := by
    have there : before.tee? id = some present := (congrArg Slot.tee (slots id)).trans found
    rw [slot_setTee, if_pos rfl, there, slots id]
    exact move
  others := by
    intro other hother
    rw [slot_setTee, if_neg hother]
    exact slots other
  frame := frame

/-! ## Steps of exchanges -/

theorem Moved.ofExchange {before : Engine} {id : Nat} {event : Event}
    {exchange : Exchange} (slot : Slot) (present : Exchange) (number : exchange.id = id)
    (here : before.slot id = { slot with exchange := some present })
    (others : ∀ other, other ≠ id → before.slot other = engine.slot other)
    (frame : before.frame = engine.frameAfter event)
    (move : Move engine id event { slot with exchange := some exchange } before.shared) :
    Moved engine id event (before.setExchange exchange) where
  move := by
    have found : before.exchange? id = some present := congrArg Slot.exchange here
    rw [slot_setExchange, if_pos number.symm, found, here]
    exact move
  others := by
    intro other hother
    rw [slot_setExchange, if_neg (fun h => hother (h.trans number))]
    exact others other hother
  frame := frame

theorem slot_leaveGate {exchange : Exchange}
    (found : engine.exchange? exchange.id = some exchange) :
    (engine.leaveGate exchange).slot exchange.id =
      { engine.slot exchange.id with exchange := some { exchange with gate := none } } := by
  unfold leaveGate
  split
  · rename_i ungated
    rw [slot_of_exchange? found]
    rw [← ungated]
  · rw [slot_setExchange, if_pos rfl]
    refine congrArg (fun kept => { engine.slot exchange.id with exchange := kept }) ?_
    exact congrArg (Option.map _) found

theorem slot_leaveGate_of_ne {exchange : Exchange} {other : Nat} (h : other ≠ exchange.id) :
    (engine.leaveGate exchange).slot other = engine.slot other := by
  unfold leaveGate
  split
  · rfl
  · rw [slot_setExchange, if_neg h]
    rfl

theorem frame_leaveGate (exchange : Exchange) :
    (engine.leaveGate exchange).frame = engine.frame := by
  unfold leaveGate
  split <;> rfl

theorem Moved.ofPhase {before : Engine} {id : Nat} {event : Event} {exchange : Exchange}
    {phase : Phase} (found : engine.exchange? id = some exchange)
    (slots : ∀ id, before.slot id = engine.slot id)
    (frame : before.frame = engine.frameAfter event)
    (move : Move engine id event
      { engine.slot id with exchange := some { exchange with phase } } before.shared) :
    Moved engine id event (before.setPhase exchange phase) := by
  have number : exchange.id = id := id_of_exchange? found
  exact Moved.ofExchange (engine.slot id) exchange number
    ((slots id).trans (slot_of_exchange? found)) (fun other _ => slots other) frame move

theorem Moved.turn {id : Nat} {exchange : Exchange} {phase : Phase} (metrics : Metrics)
    (store : CountedStore) (found : engine.exchange? id = some exchange)
    (turns : Turns engine exchange phase store) :
    Moved engine id (.advance id) ({ engine with metrics, store }.setPhase exchange phase) :=
  Moved.ofPhase found (fun _ => rfl) rfl (.turn exchange phase store found turns)

theorem Moved.conclude {id : Nat} {event : Event} {exchange : Exchange} {response : Response}
    (metrics : Metrics) (found : engine.exchange? id = some exchange)
    (waits : engine.frameAfter event = engine.frame)
    (concludes : Concludes engine exchange event response) :
    Moved engine id event ({ engine with metrics }.conclude exchange response) := by
  have number := id_of_exchange? found
  subst number
  have there : Engine.exchange? { engine with metrics } exchange.id = some exchange := found
  refine Moved.ofExchange (engine.slot exchange.id) { exchange with gate := none } rfl
    (slot_leaveGate there) (fun other hother => slot_leaveGate_of_ne hother)
    ((frame_leaveGate exchange).trans waits.symm) ?_
  have shared := shared_leaveGate { engine with metrics } exchange
  exact shared ▸ .conclude exchange event response found concludes

def firstPhase (exchange : Exchange) : Phase :=
  if isUpgrade exchange.request.headers then .sending .upgraded
  else
    match Key.ofRequest? exchange.info with
    | some key =>
        if exchange.info.policy = .volatile then .firstLook key else .sending .treated
    | none => .sending .treated

def countAsked (engine : Engine) (exchange : Exchange) : Metrics :=
  if exchange.info.policy = .volatile then engine.metrics.recordVolatileRequest
  else engine.metrics

def countDispatch (engine : Engine) (exchange : Exchange) : Metrics :=
  match engine.handler with
  | .sample => engine.metrics
  | .dev =>
      if engine.health.isHealthy then engine.countAsked exchange
      else (engine.countAsked exchange).recordFallback

theorem countDispatch_dev (exchange : Exchange) (dev : engine.handler = .dev) :
    engine.countDispatch exchange =
      if engine.health.isHealthy then engine.countAsked exchange
      else (engine.countAsked exchange).recordFallback := by
  rw [countDispatch, dev]

/-- A dispatched exchange turns to its first phase, or it is answered from the store while the
upstream is unhealthy. -/
theorem dispatch_eq (exchange : Exchange) (dev : engine.handler = .dev) :
    engine.dispatch exchange =
      if engine.health.isHealthy then
        { engine with metrics := engine.countDispatch exchange }.setPhase exchange
          (firstPhase exchange)
      else
        { engine with
          metrics := (engine.countDispatch exchange).recordEnd
            (fallback engine.store exchange.info).2.status
          store := (fallback engine.store exchange.info).1 }.setPhase exchange
          (.responded (fallback engine.store exchange.info).2
            (Delivery.ofPayload (fallback engine.store exchange.info).2.payload)) := by
  have asked : (if exchange.info.policy = .volatile then
      { engine with metrics := engine.metrics.recordVolatileRequest } else engine) =
        { engine with metrics := engine.countAsked exchange } := by
    unfold countAsked
    split <;> rfl
  unfold dispatch
  split
  · rename_i sample
    cases sample.symm.trans dev
  rw [asked, countDispatch_dev exchange dev]
  simp only
  split
  · unfold firstPhase
    split
    · rfl
    cases found : Key.ofRequest? exchange.info with
    | none => rfl
    | some key => by_cases volatile : exchange.info.policy = .volatile <;> simp [volatile]
  · rfl

theorem firstPhase_turns {exchange : Exchange} (arrived : exchange.phase = .arrived)
    (dev : engine.handler = .dev) (healthy : engine.health.isHealthy = true) :
    Turns engine exchange (firstPhase exchange) engine.store := by
  unfold firstPhase
  split
  · rename_i upgrade
    exact .upgrade arrived dev healthy upgrade
  rename_i plain
  rw [Bool.not_eq_true] at plain
  split
  · rename_i key asked
    split
    · rename_i volatile
      exact .look key arrived dev healthy plain asked volatile
    · rename_i other
      exact .send arrived dev healthy plain fun _ _ => other
  · rename_i unasked
    exact .send arrived dev healthy plain fun key asked => by cases unasked.symm.trans asked

theorem dispatch_moved {id : Nat} {exchange : Exchange}
    (found : engine.exchange? id = some exchange) (arrived : exchange.phase = .arrived) :
    Moved engine id (.advance id) (engine.dispatch exchange) := by
  cases handler : engine.handler with
  | sample =>
      have relayed : engine.dispatch exchange = engine.setPhase exchange (.sending .relayed) := by
        unfold dispatch
        rw [handler]
      rw [relayed]
      exact .turn engine.metrics engine.store found (.relay arrived handler)
  | dev =>
      rw [dispatch_eq exchange handler]
      split
      · rename_i healthy
        exact .turn _ engine.store found (firstPhase_turns arrived handler healthy)
      · rename_i unhealthy
        rw [Bool.not_eq_true] at unhealthy
        exact .turn _ _ found (.fallBack arrived handler unhealthy)

theorem approach_moved {id : Nat} {exchange : Exchange} {key : Key}
    (found : engine.exchange? id = some exchange)
    (approaching : exchange.phase = .approaching key) :
    Moved engine id (.advance id) (engine.approach exchange key) := by
  unfold approach
  split
  · rename_i tiers closed
    have same : engine.tiers = tiers := by
      rw [← Tiers.gate?_fst_of_none (congrArg Prod.snd closed), closed]
    rw [← same]
    exact .turn engine.metrics engine.store found
      (.ungated key approaching (congrArg Prod.snd closed))
  · rename_i tiers gate opened
    have number := id_of_exchange? found
    refine Moved.ofExchange (engine.slot id) exchange number (slot_of_exchange? found)
      (fun _ _ => rfl) rfl ?_
    exact number ▸ .join exchange key tiers gate (number.symm ▸ found) approaching opened

theorem giveUp_moved {id : Nat} {exchange : Exchange} {key : Key} {gate deadline : Nat}
    (found : engine.exchange? id = some exchange)
    (waiting : exchange.phase = .waiting key gate deadline)
    (unheld : engine.lines.isHeld gate id = false) (late : deadline ≤ engine.now) :
    Moved engine id (.advance id)
      ((engine.leaveGate exchange).setPhase { exchange with gate := none } (.secondLook key)) := by
  have number := id_of_exchange? found
  subst number
  refine Moved.ofExchange (engine.slot exchange.id) { exchange with gate := none } rfl
    (slot_leaveGate found) (fun other hother => slot_leaveGate_of_ne hother)
    (frame_leaveGate exchange) ?_
  exact shared_leaveGate engine exchange ▸
    .giveUp exchange key gate deadline found waiting unheld late

theorem advance_moved (id : Nat) :
    Unmoved engine (engine.advance id).1 ∨
      Moved engine id (.advance id) (engine.advance id).1 := by
  unfold advance
  split
  · exact .inl (.refl engine)
  rename_i exchange found
  have number := id_of_exchange? found
  split
  · rename_i arrived
    exact .inr (dispatch_moved found arrived)
  · rename_i key looking
    split
    · rename_i payload present
      exact .inr (.conclude _ found rfl (number ▸ .hit key payload (.inl looking) present))
    · rename_i absent
      exact .inr (.turn engine.metrics engine.store found (.miss key looking absent))
  · rename_i key approaching
    exact .inr (approach_moved found approaching)
  · rename_i key gate deadline waiting
    split
    · rename_i held
      exact .inr (.turn engine.metrics engine.store found
        (.admitted key gate deadline waiting (number ▸ held)))
    rename_i unheld
    rw [Bool.not_eq_true] at unheld
    split
    · rename_i late
      exact .inr (giveUp_moved found waiting unheld late)
    · exact .inl (.refl engine)
  · rename_i key looking
    split
    · rename_i payload present
      exact .inr (.conclude _ found rfl (number ▸ .hit key payload (.inr looking) present))
    · rename_i absent
      exact .inr (.turn engine.metrics engine.store found (.missAgain key looking absent))
  · rename_i relation sending
    split
    · rename_i error refused
      exact .inr (.conclude engine.metrics found rfl
        (number ▸ .unsendable relation error sending refused))
    · rename_i request sendable
      exact .inr (.turn engine.metrics engine.store found (.sent relation request sending sendable))
  · exact .inl (.refl engine)
  · rename_i kind response source collector filtering
    split
    · rename_i items grown unfinished
      exact .inr (.turn engine.metrics engine.store found
        (.gather kind response source ⟨items⟩ collector grown filtering unfinished))
    · rename_i items grown body read
      have whole : (collectItems engine.now collector source.items).2.2 = some body := by
        rw [read]
      split
      · rename_i filtered result
        exact .inr (.conclude engine.metrics found rfl
          (number ▸ .filtered kind response filtered source collector body filtering whole result))
      · rename_i error result
        exact .inr (.conclude engine.metrics found rfl
          (number ▸ .unfiltered kind response error source collector body filtering whole result))
  · exact .inl (.refl engine)

theorem copyForCache_moved {exchange : Exchange} {key : Key} {request : Outgoing} {reply : Reply}
    (found : engine.exchange? exchange.id = some exchange)
    (awaiting : exchange.phase = .awaiting .treated request)
    (cache : treatment engine.tiers exchange.info reply.status
      (treatedResponse exchange.info reply).headers = .cache key) :
    Moved engine exchange.id (.answer exchange.id (.ok reply))
      (engine.copyForCache exchange key (treatedResponse exchange.info reply) reply.body) := by
  let response := treatedResponse exchange.info reply
  let task : CachingTask := {
    exchange := exchange.id, key, gate := exchange.gate
    stage := .collecting (Collector.start (declared? response.headers)) }
  let tee := Tee.start reply.body engine.teeBuffer (declaredLength? response.headers)
  have copied := slot_append engine task tee
  let slot : Slot := {
    exchange := some exchange
    task := (engine.task? exchange.id).or (some task)
    tee := (engine.tee? exchange.id).or (some tee) }
  have here : Engine.slot { engine with
      tasks := engine.tasks ++ [task]
      tees := engine.tees ++ [(exchange.id, tee)] } exchange.id = slot := by
    rw [copied, if_pos rfl, if_pos rfl, found]
  have others : ∀ other, other ≠ exchange.id → Engine.slot { engine with
      tasks := engine.tasks ++ [task]
      tees := engine.tees ++ [(exchange.id, tee)] } other = engine.slot other := by
    intro other hother
    rw [copied, if_neg (Ne.symm hother), if_neg (Ne.symm hother), Option.or_none, Option.or_none]
    rfl
  exact Moved.ofExchange slot exchange rfl here others rfl
    (.copy exchange key request reply found awaiting cache)

theorem treat_moved {exchange : Exchange} {request : Outgoing} (reply : Reply)
    (found : engine.exchange? exchange.id = some exchange)
    (awaiting : exchange.phase = .awaiting .treated request) :
    Moved engine exchange.id (.answer exchange.id (.ok reply)) (engine.treat exchange reply) := by
  unfold treat
  simp only
  split
  · rename_i pass
    exact .conclude engine.metrics found rfl (.passed request reply awaiting pass)
  · rename_i kind filter
    exact .ofPhase found (fun _ => rfl) rfl
      (.filter exchange kind request reply found awaiting filter)
  · rename_i key cache
    exact copyForCache_moved found awaiting cache

theorem answer_moved (id : Nat) (result : Except TransportFailure Reply) :
    Unmoved engine (engine.answer id result) ∨
      Moved engine id (.answer id result) (engine.answer id result) := by
  unfold answer
  split
  · exact .inl (.refl engine)
  rename_i exchange found
  have number := id_of_exchange? found
  subst number
  split
  · rename_i relation request awaiting
    right
    split
    · rename_i failure
      exact .conclude engine.metrics found rfl (.failed relation request failure awaiting)
    · rename_i reply
      split
      · exact .conclude engine.metrics found rfl (.relayed request reply awaiting)
      · exact .conclude engine.metrics found rfl (.upgraded request reply awaiting)
      · exact treat_moved reply found awaiting
  · exact .inl (.refl engine)

theorem read_moved (id : Nat) :
    Unmoved engine (engine.read id).1 ∨ Moved engine id (.read id) (engine.read id).1 := by
  unfold read
  split
  · exact .inl (.refl engine)
  rename_i exchange found
  split
  · rename_i response source responded
    exact .inr (.ofPhase found (fun _ => rfl) rfl
      (.readDirect exchange response source found responded))
  · rename_i response responded
    split
    · exact .inl (.refl engine)
    · rename_i tee copied
      exact .inr (.ofTee copied (fun _ => rfl) rfl
        (.readCopy exchange response tee found responded copied))
  · exact .inl (.refl engine)

theorem dropCopy_moved {exchange : Exchange} {response : Response} {tee : Tee}
    (found : engine.exchange? exchange.id = some exchange)
    (responded : exchange.phase = .responded response .copied)
    (copied : engine.tee? exchange.id = some tee) :
    Moved engine exchange.id (.abandon exchange.id)
      ((engine.setPhase exchange (.responded response .dropped)).setTee exchange.id
        tee.dropForeground) where
  move := by
    have there : (engine.setPhase exchange (.responded response .dropped)).tee? exchange.id =
        some tee := copied
    have here : (engine.setPhase exchange (.responded response .dropped)).slot exchange.id =
        { engine.slot exchange.id with
          exchange := some { exchange with phase := .responded response .dropped } } := by
      unfold setPhase
      rw [slot_setExchange, if_pos rfl, found]
      rfl
    rw [slot_setTee, if_pos rfl, there, here]
    exact .dropCopy exchange response tee found responded copied
  others := by
    intro other hother
    unfold setPhase
    rw [slot_setTee, if_neg hother, slot_setExchange, if_neg hother]
    rfl
  frame := rfl

theorem giveAway_moved {exchange : Exchange}
    (found : engine.exchange? exchange.id = some exchange)
    (unanswered : ∀ response delivery, exchange.phase ≠ .responded response delivery) :
    Moved engine exchange.id (.abandon exchange.id)
      ((engine.leaveGate exchange).removeExchange exchange.id) where
  move := by
    rw [slot_removeExchange, if_pos rfl, slot_leaveGate found]
    exact shared_leaveGate engine exchange ▸ .abandon exchange found unanswered
  others := by
    intro other hother
    have left := @slot_leaveGate_of_ne engine _ _ hother
    rw [slot_removeExchange, if_neg hother, ← left]
    rfl
  frame := frame_leaveGate exchange

theorem abandon_moved (id : Nat) :
    Unmoved engine (engine.abandon id) ∨ Moved engine id (.abandon id) (engine.abandon id) := by
  unfold abandon
  split
  · exact .inl (.refl engine)
  rename_i exchange found
  have number := id_of_exchange? found
  subst number
  right
  split
  · rename_i response delivery responded
    have dropped : (delivery = .copied → engine.tee? exchange.id = none) →
        Moved engine exchange.id (.abandon exchange.id)
          (engine.setPhase exchange (.responded response .dropped)) := fun uncopied =>
      .ofPhase found (fun _ => rfl) rfl
        (.dropBody exchange response delivery found responded uncopied)
    simp only
    split
    · rename_i tee copied
      exact dropCopy_moved found responded copied
    · rename_i uncopied
      refine dropped fun hcopied => ?_
      cases htee : engine.tee? exchange.id with
      | none => rfl
      | some tee => exact (uncopied tee hcopied htee).elim
  · rename_i unanswered
    exact giveAway_moved found fun response delivery h => unanswered response delivery h

/-! ## Steps of tasks -/

theorem Moved.ofTask {before : Engine} {id : Nat} {task after : CachingTask} {tee : Option Tee}
    (found : engine.task? id = some task) (number : after.exchange = id)
    (here : before.slot id = { engine.slot id with tee })
    (others : ∀ other, other ≠ id → before.slot other = engine.slot other)
    (frame : before.frame = engine.frame)
    (works : Works engine task (some after) tee before.shared) :
    Moved engine id (.work id) (before.setTask after) where
  move := by
    have there : before.task? id = some task := (congrArg Slot.task here).trans found
    rw [slot_setTask, if_pos number.symm, there, here]
    exact .work task (some after) tee before.shared found works
  others := by
    intro other hother
    rw [slot_setTask, if_neg (fun h => hother (h.trans number))]
    exact others other hother
  frame := frame

theorem slot_setTee_self {id : Nat} {present tee : Tee} (found : engine.tee? id = some present) :
    (engine.setTee id tee).slot id = { engine.slot id with tee := some tee } := by
  rw [slot_setTee, if_pos rfl, found]
  rfl

theorem slot_setTee_of_ne {id other : Nat} {tee : Tee} (h : other ≠ id) :
    (engine.setTee id tee).slot other = engine.slot other := by
  rw [slot_setTee, if_neg h]
  rfl

theorem collected_moved {task : CachingTask} {present tee : Tee} (body : Except Unit Bytes)
    (found : engine.task? task.exchange = some task)
    (copied : engine.tee? task.exchange = some present)
    (works : Works engine task (some { task with stage := stageAfter task.key body })
      (some tee.dropBackground) engine.shared) :
    Moved engine task.exchange (.work task.exchange) (engine.collected task tee body) := by
  unfold collected
  exact Moved.ofTask found rfl (slot_setTee_self copied) (fun other h => slot_setTee_of_ne h) rfl
    works

theorem close_moved {task : CachingTask} (found : engine.task? task.exchange = some task)
    (closing : task.stage = .closing) :
    Moved engine task.exchange (.work task.exchange)
      (match task.gate with
        | none => engine.removeTask task.exchange
        | some gate => { engine.removeTask task.exchange with
            lines := (engine.removeTask task.exchange).lines.leave gate task.exchange }) := by
  generalize hafter : (match task.gate with
    | none => engine.removeTask task.exchange
    | some gate => { engine.removeTask task.exchange with
        lines := (engine.removeTask task.exchange).lines.leave gate task.exchange }) = after
  have slots : ∀ id, after.slot id = (engine.removeTask task.exchange).slot id := by
    intro id
    rw [← hafter]
    cases task.gate <;> rfl
  have shared : after.shared = { engine.shared with lines := engine.linesAfter task } := by
    rw [← hafter, linesAfter]
    cases task.gate <;> rfl
  have frame : after.frame = engine.frame := by
    rw [← hafter]
    cases task.gate <;> rfl
  refine ⟨?_, fun other hother => ?_, frame⟩
  · rw [slots, slot_removeTask, if_pos rfl, shared]
    exact .work task none (engine.tee? task.exchange) _ found (.close closing)
  · rw [slots, slot_removeTask, if_neg hother]
    rfl

theorem work_moved (id : Nat) :
    Unmoved engine (engine.work id).1 ∨ Moved engine id (.work id) (engine.work id).1 := by
  unfold work
  split
  · exact .inl (.refl engine)
  rename_i task found
  have number := exchange_of_task? found
  subst number
  split
  · rename_i collector collecting
    split
    · exact .inl (.refl engine)
    rename_i tee copied
    right
    split
    · rename_i after poll
      exact .ofTee copied (fun _ => rfl) rfl
        (.work task _ _ _ found (.starved collector tee after collecting copied poll))
    · rename_i after poll
      exact collected_moved collector.finish found copied
        (.ended collector tee after collecting copied poll)
    · rename_i after error poll
      exact collected_moved (.error ()) found copied
        (.broken collector tee after error collecting copied poll)
    · rename_i after chunk poll
      split
      · rename_i grown body fed
        exact collected_moved body found copied
          (.decoded collector grown tee after chunk body collecting copied poll fed)
      · rename_i grown fed
        exact .ofTask found rfl (slot_setTee_self copied) (fun other h => slot_setTee_of_ne h) rfl
          (.grown collector grown tee after chunk collecting copied poll fed)
  · rename_i payload inserting
    exact .inr (.ofTask found rfl rfl (fun _ _ => rfl) rfl (.insert payload inserting))
  · rename_i population populating
    right
    split
    · rename_i tiers store stage step
      exact .ofTask found rfl rfl (fun _ _ => rfl) rfl
        (.populate population stage tiers store populating step)
    · rename_i tiers store result step
      exact .ofTask found rfl rfl (fun _ _ => rfl) rfl
        (.populated population result tiers store populating step)
  · rename_i closing
    exact .inr (close_moved found closing)

/-! ## All steps -/

theorem exchange?_arrive (request : Request) (id : Nat) :
    (engine.arrive request).exchange? id =
      (engine.exchange? id).or (if engine.nextId = id then some {
        id := engine.nextId, request
        info := RequestInfo.classify request.method request.target
        gate := none, phase := .arrived } else none) := by
  have appended := row_append Exchange.id engine.exchanges [{
    id := engine.nextId, request
    info := RequestInfo.classify request.method request.target
    gate := none, phase := .arrived }] id
  rwa [row_singleton] at appended

theorem arrive_moved (request : Request) :
    Moved engine engine.nextId (.arrive request) (engine.arrive request) where
  move := by
    have arrived := @exchange?_arrive engine request engine.nextId
    rw [if_pos rfl] at arrived
    have here : (engine.arrive request).slot engine.nextId =
        { engine.slot engine.nextId with
          exchange := (engine.arrive request).exchange? engine.nextId } := rfl
    rw [here, arrived]
    exact .arrive request rfl
  others := by
    intro other hother
    have arrived := @exchange?_arrive engine request other
    rw [if_neg (Ne.symm hother), Option.or_none] at arrived
    have here : (engine.arrive request).slot other =
        { engine.slot other with exchange := (engine.arrive request).exchange? other } := rfl
    rw [here, arrived]
    rfl
  frame := rfl

/-- A step moves what stands under one number, or nothing but clocks and counters. -/
theorem step_moved (engine : Engine) (event : Event) :
    Unmoved engine (engine.step event) ∨ ∃ id, Moved engine id event (engine.step event) := by
  cases event with
  | arrive request => exact .inr ⟨_, arrive_moved request⟩
  | advance id => exact (advance_moved id).imp_right fun moved => ⟨id, moved⟩
  | answer id result => exact (answer_moved id result).imp_right fun moved => ⟨id, moved⟩
  | read id => exact (read_moved id).imp_right fun moved => ⟨id, moved⟩
  | abandon id => exact (abandon_moved id).imp_right fun moved => ⟨id, moved⟩
  | work id => exact (work_moved id).imp_right fun moved => ⟨id, moved⟩
  | probed success => exact .inl ⟨fun _ => rfl, rfl, rfl⟩
  | pass time => exact .inl ⟨fun _ => rfl, rfl, rfl⟩

theorem step_slot_cases (engine : Engine) (event : Event) (id : Nat) :
    (engine.step event).slot id = engine.slot id ∨
      Move engine id event ((engine.step event).slot id) (engine.step event).shared := by
  rcases step_moved engine event with unmoved | ⟨moved, hmoved⟩
  · exact .inl (unmoved.slots id)
  by_cases same : id = moved
  · subst same
    exact .inr hmoved.move
  · exact .inl (hmoved.others id same)

end Engine

end Outpost.Proxy
