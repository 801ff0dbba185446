import Outpost.Config.Settings
import Outpost.Proxy.Exchange
import Outpost.Proxy.Fallback
import Outpost.Proxy.Health
import Outpost.Proxy.Metrics
import Outpost.Url.Alphabets

/-!
# The proxy in motion

The state of a running proxy and its steps.  A step takes one exchange or one caching task a
little further; steps of different ones may come in any order.  What happens outside is an event
too: requests arrive, the upstream answers, clients read bodies or go away, probes end, and time
passes.
-/

namespace Outpost.Proxy

open Api Cache Coding Config Http Store Outpost.Stream

structure Engine where
  now : Nat
  handler : HandlerKind
  upstream : Upstream
  teeBuffer : Nat
  populateWait : Nat
  filterStart : String
  wording : Wording
  health : Health
  metrics : Metrics
  tiers : Tiers
  store : CountedStore
  lines : Lines
  nextId : Nat
  exchanges : List Exchange
  tasks : List CachingTask
  tees : List (Nat × Tee)
  deriving Inhabited

/-- Whether a step was made, or something else has to happen first. -/
inductive Motion where
  | moved
  | waits
  deriving DecidableEq, Repr

namespace Engine

def start (settings : Settings) (store : CountedStore) (now : Nat) : Engine where
  now := now
  handler := settings.handler
  upstream := settings.upstream
  teeBuffer := settings.teeBuffer
  populateWait := settings.populateWait
  filterStart := skipStart
  wording := settings.wording
  health := Health.start now
  metrics := Metrics.zero
  tiers := Tiers.empty
  store := store
  lines := []
  nextId := 0
  exchanges := []
  tasks := []
  tees := []

/-! ## Parts of the state -/

def exchange? (engine : Engine) (id : Nat) : Option Exchange :=
  engine.exchanges.find? fun exchange => exchange.id == id

def task? (engine : Engine) (id : Nat) : Option CachingTask :=
  engine.tasks.find? fun task => task.exchange == id

def tee? (engine : Engine) (id : Nat) : Option Tee :=
  (engine.tees.find? fun entry => entry.1 == id).map (·.2)

def setExchange (engine : Engine) (exchange : Exchange) : Engine :=
  { engine with
    exchanges := engine.exchanges.map fun other =>
      if other.id = exchange.id then exchange else other }

def removeExchange (engine : Engine) (id : Nat) : Engine :=
  { engine with exchanges := engine.exchanges.filter fun exchange => exchange.id ≠ id }

def setTask (engine : Engine) (task : CachingTask) : Engine :=
  { engine with
    tasks := engine.tasks.map fun other =>
      if other.exchange = task.exchange then task else other }

def removeTask (engine : Engine) (id : Nat) : Engine :=
  { engine with tasks := engine.tasks.filter fun task => task.exchange ≠ id }

def setTee (engine : Engine) (id : Nat) (tee : Tee) : Engine :=
  { engine with
    tees := engine.tees.map fun entry => if entry.1 = id then (id, tee) else entry }

def setPhase (engine : Engine) (exchange : Exchange) (phase : Phase) : Engine :=
  engine.setExchange { exchange with phase }

def leaveGate (engine : Engine) (exchange : Exchange) : Engine :=
  match exchange.gate with
  | none => engine
  | some gate =>
      { engine with lines := engine.lines.leave gate exchange.id }.setExchange
        { exchange with gate := none }

/-! ## Requests -/

def arrive (engine : Engine) (request : Request) : Engine :=
  { engine with
    metrics := engine.metrics.recordStart
    nextId := engine.nextId + 1
    exchanges := engine.exchanges ++ [{
      id := engine.nextId
      request
      info := RequestInfo.classify request.method request.target
      gate := none
      phase := .arrived }] }

/-- The head of the response is ready: the request is counted as answered. -/
def respond (engine : Engine) (exchange : Exchange) (response : Response) : Engine :=
  { engine with metrics := engine.metrics.recordEnd response.status }.setPhase exchange
    (.responded response (Delivery.ofPayload response.payload))

def conclude (engine : Engine) (exchange : Exchange) (response : Response) : Engine :=
  (engine.leaveGate exchange).respond { exchange with gate := none } response

/-- A dispatched request is relayed, or answered from the cache while the upstream is unhealthy,
or takes the way of its policy. -/
def dispatch (engine : Engine) (exchange : Exchange) : Engine :=
  match engine.handler with
  | .sample => engine.setPhase exchange (.sending .relayed)
  | .dev =>
      let counted :=
        if exchange.info.policy = .volatile then
          { engine with metrics := engine.metrics.recordVolatileRequest }
        else engine
      if counted.health.isHealthy then
        if isUpgrade exchange.request.headers then
          counted.setPhase exchange (.sending .upgraded)
        else
          match Key.ofRequest? exchange.info with
          | some key =>
              if exchange.info.policy = .volatile then counted.setPhase exchange (.firstLook key)
              else counted.setPhase exchange (.sending .treated)
          | none => counted.setPhase exchange (.sending .treated)
      else
        let (store, response) := fallback counted.store exchange.info
        { counted with store, metrics := counted.metrics.recordFallback }.respond exchange response

def hit (engine : Engine) (exchange : Exchange) (payload : Bytes) : Engine :=
  { engine with metrics := engine.metrics.recordVolatileHit }.conclude exchange
    (Response.json 200 payload)

/-- Finds the gate of a key and stands in line; without a gate there is nothing to wait for. -/
def approach (engine : Engine) (exchange : Exchange) (key : Key) : Engine :=
  match engine.tiers.gate? key with
  | (tiers, none) => { engine with tiers }.setPhase exchange (.secondLook key)
  | (tiers, some gate) =>
      { engine with tiers, lines := engine.lines.join gate exchange.id }.setExchange
        { exchange with
          gate := some gate
          phase := .waiting key gate (engine.now + engine.populateWait) }

def advance (engine : Engine) (id : Nat) : Engine × Motion :=
  match engine.exchange? id with
  | none => (engine, .waits)
  | some exchange =>
      match exchange.phase with
      | .arrived => (engine.dispatch exchange, .moved)
      | .firstLook key =>
          match engine.tiers.volatile? key with
          | some payload => (engine.hit exchange payload, .moved)
          | none => (engine.setPhase exchange (.approaching key), .moved)
      | .approaching key => (engine.approach exchange key, .moved)
      | .waiting key gate deadline =>
          if engine.lines.isHeld gate id then
            (engine.setPhase exchange (.secondLook key), .moved)
          else if deadline ≤ engine.now then
            ((engine.leaveGate exchange).setPhase { exchange with gate := none } (.secondLook key),
              .moved)
          else (engine, .waits)
      | .secondLook key =>
          match engine.tiers.volatile? key with
          | some payload => (engine.hit exchange payload, .moved)
          | none => (engine.setPhase exchange (.sending .treated), .moved)
      | .sending relation =>
          match outgoing engine.upstream exchange.request with
          | .error error => (engine.conclude exchange error.response, .moved)
          | .ok request => (engine.setPhase exchange (.awaiting relation request), .moved)
      | .awaiting _ _ => (engine, .waits)
      | .filtering kind response source collector =>
          match collectItems engine.now collector source.items with
          | (items, grown, none) =>
              (engine.setPhase exchange (.filtering kind response ⟨items⟩ grown), .waits)
          | (_, _, some body) =>
              match filterResponse engine.wording exchange.info kind engine.filterStart response
                  body with
              | .ok filtered => (engine.conclude exchange filtered, .moved)
              | .error error => (engine.conclude exchange error.response, .moved)
      | .responded _ _ => (engine, .waits)

/-- Copies the body of a response for the cache; the gate goes over to the caching task. -/
def copyForCache (engine : Engine) (exchange : Exchange) (key : Key) (response : Response)
    (source : Source) : Engine :=
  let task : CachingTask := {
    exchange := exchange.id
    key
    gate := exchange.gate
    stage := .collecting (Collector.start (declared? response.headers)) }
  { engine with
    tasks := engine.tasks ++ [task]
    tees := engine.tees ++
      [(exchange.id, Tee.start source engine.teeBuffer (declaredLength? response.headers))]
    }.respond { exchange with gate := none } { response with payload := .copied }

def treat (engine : Engine) (exchange : Exchange) (reply : Reply) : Engine :=
  let response := treatedResponse exchange.info reply
  match treatment engine.tiers exchange.info reply.status response.headers with
  | .pass => engine.conclude exchange response
  | .filter kind =>
      engine.setPhase exchange (.filtering kind response reply.body
        (Collector.start (declared? response.headers)))
  | .cache key => engine.copyForCache exchange key response reply.body

def answer (engine : Engine) (id : Nat) (result : Except TransportFailure Reply) : Engine :=
  match engine.exchange? id with
  | none => engine
  | some exchange =>
      match exchange.phase with
      | .awaiting relation _ =>
          match result with
          | .error failure => engine.conclude exchange (ProxyError.transport failure).response
          | .ok reply =>
              match relation with
              | .relayed => engine.conclude exchange (relay reply)
              | .upgraded => engine.conclude exchange (relayUpgrade reply)
              | .treated => engine.treat exchange reply
      | _ => engine

/-! ## Clients -/

def read (engine : Engine) (id : Nat) : Engine × Poll String :=
  match engine.exchange? id with
  | none => (engine, .ended)
  | some exchange =>
      match exchange.phase with
      | .responded response (.direct source) =>
          let (rest, poll) := source.poll engine.now
          (engine.setPhase exchange (.responded response (.direct rest)), poll)
      | .responded _ .copied =>
          match engine.tee? id with
          | none => (engine, .ended)
          | some tee =>
              let (after, poll) := tee.pollForeground engine.now
              (engine.setTee id after, poll)
      | _ => (engine, .ended)

/-- The client goes away: before the response is ready the request is given up as it stands,
and later the rest of the body is. -/
def abandon (engine : Engine) (id : Nat) : Engine :=
  match engine.exchange? id with
  | none => engine
  | some exchange =>
      match exchange.phase with
      | .responded response delivery =>
          let without := engine.setPhase exchange (.responded response .dropped)
          match delivery, engine.tee? id with
          | .copied, some tee => without.setTee id tee.dropForeground
          | _, _ => without
      | _ => (engine.leaveGate exchange).removeExchange id

/-! ## Caching tasks -/

def storing (key : Key) (payload : Bytes) : TaskStage :=
  if key.queryClass = .resourceUsage then .inserting payload
  else .populating (Population.start key payload)

/-- The body is over for a task, which gives up its half of the tee. -/
def collected (engine : Engine) (task : CachingTask) (tee : Tee)
    (body : Except Unit Bytes) : Engine :=
  let stage := match body with
    | .ok payload => storing task.key payload
    | .error _ => .closing
  (engine.setTee task.exchange tee.dropBackground).setTask { task with stage }

def usesFiles (engine : Engine) (id : Nat) : Bool :=
  match (engine.task? id).map CachingTask.stage with
  | some (.populating population) =>
      match population.stage with
      | .lookUp => engine.store.readsFiles
      | .write _ _ => true
      | _ => false
  | _ => false

def work (engine : Engine) (id : Nat) : Engine × Motion :=
  match engine.task? id with
  | none => (engine, .waits)
  | some task =>
      match task.stage with
      | .collecting collector =>
          match engine.tee? id with
          | none => (engine, .waits)
          | some tee =>
              match tee.pollBackground with
              | (after, .pending) => (engine.setTee id after, .waits)
              | (after, .ended) => (engine.collected task after collector.finish, .moved)
              | (after, .failed _) => (engine.collected task after (.error ()), .moved)
              | (after, .chunk bytes) =>
                  match collector.feed bytes with
                  | (_, some result) => (engine.collected task after result, .moved)
                  | (grown, none) =>
                      ((engine.setTee id after).setTask { task with stage := .collecting grown },
                        .moved)
      | .inserting payload =>
          ({ engine with tiers := (engine.tiers.insertVolatile task.key payload).1 }.setTask
            { task with stage := .closing }, .moved)
      | .populating population =>
          match population.step engine.tiers engine.store with
          | (tiers, store, .next stage) =>
              ({ engine with tiers, store }.setTask
                { task with stage := .populating { population with stage } }, .moved)
          | (tiers, store, .finished _) =>
              ({ engine with tiers, store }.setTask { task with stage := .closing }, .moved)
      | .closing =>
          let without := engine.removeTask id
          (match task.gate with
            | none => without
            | some gate => { without with lines := without.lines.leave gate id }, .moved)

/-! ## Events -/

inductive Event where
  | arrive (request : Request)
  | advance (id : Nat)
  | answer (id : Nat) (result : Except TransportFailure Reply)
  | read (id : Nat)
  | abandon (id : Nat)
  | work (id : Nat)
  | probed (success : Bool)
  | pass (time : Nat)

def step (engine : Engine) : Event → Engine
  | .arrive request => engine.arrive request
  | .advance id => (engine.advance id).1
  | .answer id result => engine.answer id result
  | .read id => (engine.read id).1
  | .abandon id => engine.abandon id
  | .work id => (engine.work id).1
  | .probed success => { engine with health := engine.health.record engine.now success }
  | .pass time => { engine with now := max engine.now time }

def run (engine : Engine) (events : List Event) : Engine := events.foldl step engine

end Engine

end Outpost.Proxy
