import Outpost.Proxy.Engine
import Outpost.Simulation.Script

/-!
# Simulated runs

A proxy together with a scripted upstream, clients that read their responses, and rows of probes,
in virtual time.  All of them are taken as far as they go, in the order in which they came to be,
and again until nothing moves.  What reads or writes files goes on only then, one step each.  Time
stands still meanwhile, and jumps to the next moment that something waits for only when everything
waits.
-/

namespace Outpost.Simulation

open Config Http Proxy Store Outpost.Stream

inductive ClientState where
  | active
  | stopped
  | complete
  | failed
  deriving DecidableEq, Repr, Inhabited

structure Client where
  exchange : Nat
  limit : Option Nat
  received : Bytes
  state : ClientState
  deriving Inhabited

def Client.take (client : Client) (bytes : Bytes) : Client :=
  { client with received := client.received ++ bytes, limit := client.limit.map (· - 1) }

structure Watch where
  prober : Prober
  outcome : Option Bool

structure Coming where
  exchange : Nat
  time : Nat
  result : Except TransportFailure Reply

structure World where
  engine : Engine
  script : Script
  healthInterval : Nat
  healthTimeout : Nat
  cancelled : Bool
  clients : List Client
  watches : List Watch
  coming : List Coming

namespace World

def start (engine : Engine) (script : Script) (settings : Settings) : World where
  engine := engine
  script := script
  healthInterval := settings.healthInterval
  healthTimeout := settings.healthTimeout
  cancelled := false
  clients := []
  watches := []
  coming := []

def now (world : World) : Nat := world.engine.now

def withScript (world : World) (script : Script) : World := { world with script }

def withStore (world : World) (store : CountedStore) : World :=
  { world with engine := { world.engine with store } }

/-! ## Clients -/

def client? (world : World) (id : Nat) : Option Client :=
  world.clients.find? fun client => client.exchange == id

def setClient (world : World) (client : Client) : World :=
  { world with
    clients := world.clients.map fun other =>
      if other.exchange = client.exchange then client else other }

def readBody (world : World) (client : Client) : World × Motion :=
  if client.limit = some 0 then (world.setClient { client with state := .stopped }, .moved)
  else
    let (engine, poll) := world.engine.read client.exchange
    let polled := { world with engine }
    match poll with
    | .pending => (polled, .waits)
    | .chunk bytes => (polled.setClient (Client.take client bytes), .moved)
    | .ended => (polled.setClient { client with state := .complete }, .moved)
    | .failed _ => (polled.setClient { client with state := .failed }, .moved)

def exchangeUpstream (world : World) (id : Nat) (request : Outgoing) : World × Motion :=
  match world.coming.find? fun coming => coming.exchange == id with
  | none =>
      let (script, answer) := world.script.answer request
      ({ world with
          script
          coming := world.coming ++ [⟨id, world.now + answer.delay, answer.result⟩] },
        .moved)
  | some coming =>
      if world.now < coming.time then (world, .waits)
      else
        ({ world with
            engine := world.engine.answer id coming.result
            coming := world.coming.filter fun other => other.exchange ≠ id },
          .moved)

def stepClient (world : World) (id : Nat) : World × Motion :=
  match world.client? id, world.engine.exchange? id with
  | some client, some exchange =>
      if client.state ≠ .active then (world, .waits)
      else
        match exchange.phase with
        | .responded _ _ => world.readBody client
        | .awaiting _ request => world.exchangeUpstream id request
        | _ =>
            let (engine, motion) := world.engine.advance id
            ({ world with engine }, motion)
  | _, _ => (world, .waits)

/-! ## Probes -/

def setProber (world : World) (index : Nat) (prober : Prober) : World :=
  { world with watches := world.watches.modify index fun watch => { watch with prober } }

def probed (world : World) (index : Nat) (prober : Prober) (success : Bool) : World :=
  { world with
    engine := world.engine.step (.probed success)
    watches := world.watches.set index ⟨prober.rest world.now, some success⟩ }

def stepWatch (world : World) (index : Nat) : World × Motion :=
  match world.watches[index]? with
  | none => (world, .waits)
  | some watch =>
      let prober := watch.prober
      match prober.stage with
      | .ended => (world, .waits)
      | .sending =>
          match probeRequest world.engine.upstream with
          | .error _ => (world.probed index prober false, .moved)
          | .ok request =>
              let (script, answer) := world.script.answer request
              ({ world with script }.setProber index
                (prober.sent world.now world.healthTimeout answer), .moved)
      | .probing probe =>
          match probe.poll world.now with
          | (after, none) =>
              (world.setProber index { prober with stage := .probing after }, .waits)
          | (_, some success) => (world.probed index prober success, .moved)
      | .sleeping time =>
          if world.cancelled then (world.setProber index { prober with stage := .ended }, .moved)
          else if time ≤ world.now then
            (world.setProber index { prober with stage := .sending }, .moved)
          else (world, .waits)

/-! ## Scheduling -/

def drive (step : World → World × Motion) : Nat → World → World × Motion
  | 0, world => (world, .waits)
  | fuel + 1, world =>
      match step world with
      | (after, .waits) => (after, .waits)
      | (after, .moved) => ((drive step fuel after).1, .moved)

def driveAll (fuel : Nat) (steps : List (World → World × Motion)) (world : World) :
    World × Motion :=
  steps.foldl (fun (state : World × Motion) step =>
    match drive step fuel state.1 with
    | (after, .moved) => (after, .moved)
    | (after, .waits) => (after, state.2)) (world, .waits)

/-- Takes a caching task further: with files, if its next step uses them, and otherwise if it
does not. -/
def stepTask (world : World) (id : Nat) (withFiles : Bool) : World × Motion :=
  if world.engine.usesFiles id = withFiles then
    let (engine, motion) := world.engine.work id
    ({ world with engine }, motion)
  else (world, .waits)

def taskActors (world : World) (withFiles : Bool) : List (World → World × Motion) :=
  world.engine.tasks.map fun task => fun (world : World) => world.stepTask task.exchange withFiles

def actors (world : World) : List (World → World × Motion) :=
  ((world.clients.filter fun client => client.state = .active).map fun client =>
    fun (world : World) => world.stepClient client.exchange) ++
  world.taskActors false ++
  (List.range world.watches.length).map fun index => fun (world : World) => world.stepWatch index

/-- Takes everything as far as it goes at the present time. -/
def settle : Nat → World → World
  | 0, world => world
  | fuel + 1, world =>
      match driveAll (fuel + 1) world.actors world with
      | (after, .moved) => settle fuel after
      | (rested, .waits) =>
          match driveAll 1 (rested.taskActors true) rested with
          | (after, .moved) => settle fuel after
          | (after, .waits) => after

def patience : Nat := 1000000

def sourceWakeTimes (engine : Engine) (id : Nat) : List Nat :=
  match (engine.exchange? id).map Exchange.phase with
  | some (.waiting _ _ deadline) => [deadline]
  | some (.filtering _ _ source _) => source.wakeTime?.toList
  | some (.responded _ (.direct source)) => source.wakeTime?.toList
  | some (.responded _ .copied) =>
      match engine.tee? id with
      | some tee => tee.source.wakeTime?.toList
      | none => []
  | _ => []

def wakeTimes (world : World) : List Nat :=
  (world.clients.filter fun client => client.state = .active).flatMap
    (fun client => sourceWakeTimes world.engine client.exchange) ++
  world.coming.map (·.time) ++
  world.watches.flatMap fun watch => watch.prober.wakeTimes

def nextWake? (world : World) : Option Nat :=
  (world.wakeTimes.filter fun time => world.now < time).min?

def passTo (world : World) (time : Nat) : World :=
  { world with engine := world.engine.step (.pass time) }

/-- Runs until a condition holds, or nothing is left that could bring it about. -/
def runUntil (condition : World → Bool) : Nat → World → World
  | 0, world => world
  | fuel + 1, world =>
      let settled := world.settle patience
      if condition settled then settled
      else
        match settled.nextWake? with
        | none => settled
        | some time => runUntil condition fuel (settled.passTo time)

def runTo (time : Nat) : Nat → World → World
  | 0, world => world
  | fuel + 1, world =>
      let settled := world.settle patience
      match settled.nextWake? with
      | none => settled.passTo time
      | some next =>
          if time < next then settled.passTo time
          else runTo time fuel (settled.passTo next)

/-! ## What can be done to a world -/

structure Report where
  status : StatusCode
  headers : Headers
  body : Bytes
  state : ClientState

def report? (world : World) (id : Nat) : Option Report := do
  let client ← world.client? id
  let exchange ← world.engine.exchange? id
  match exchange.phase with
  | .responded response _ =>
      return ⟨response.status, response.sentHeaders, client.received, client.state⟩
  | _ => none

/-- A request arrives, of whose response at most so many chunks are read at first. -/
def arrive (world : World) (request : Request) (limit : Option Nat) : World :=
  { world with
    engine := world.engine.step (.arrive request)
    clients := world.clients ++ [⟨world.engine.nextId, limit, [], .active⟩] }

def isIdle (world : World) : Bool := world.clients.all fun client => client.state ≠ .active

def serve (world : World) : World := world.runUntil isIdle patience

def resume (world : World) (id : Nat) (limit : Option Nat) : World :=
  match world.client? id with
  | none => world
  | some client => (world.setClient { client with limit, received := [], state := .active }).serve

def drop (world : World) (id : Nat) : World :=
  let without := { world with
    engine := world.engine.step (.abandon id)
    clients := world.clients.filter fun client => client.exchange ≠ id }
  without.settle patience

def sleep (world : World) (duration : Nat) : World :=
  (world.runTo (world.now + duration) patience).settle patience

def watch (world : World) (prober : Prober) : World :=
  { world with watches := world.watches ++ [⟨prober, none⟩] }

def hasEnded (world : World) (index : Nat) : Bool :=
  match world.watches[index]? with
  | some watch => watch.prober.isEnded
  | none => true

def outcome? (world : World) (index : Nat) : Option Bool :=
  world.watches[index]?.bind (·.outcome)

def awaitProbe (world : World) : World :=
  let index := world.watches.length - 1
  world.runUntil (fun world => (world.outcome? index).isSome) patience

def watchOn (world : World) : World := (world.watch (Prober.loop world.healthInterval)).awaitProbe

def check (world : World) : World × Bool :=
  let after := (world.watch Prober.once).awaitProbe
  (after, (after.outcome? (after.watches.length - 1)).getD false)

def settled (world : World) : World := world.settle patience

def cancel (world : World) : World := { world with cancelled := true }.settled

end World

end Outpost.Simulation
