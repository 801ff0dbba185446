import Outpost.Config.Upstream
import Outpost.Http.Message
import Outpost.Url.Alphabets

/-!
# Health of the upstream

A probe asks for the liveness path and succeeds only if the answer arrives in time, with a status
of success and exactly the expected body.  The health is unhealthy at first and then what the
latest probe found.
-/

namespace Outpost.Proxy

open Config Http Outpost.Stream

structure Health where
  isHealthy : Bool
  lastTransition : Nat
  unhealthyTransitions : UInt64
  deriving DecidableEq, Repr, Inhabited

namespace Health

def start (now : Nat) : Health := ⟨false, now, 0⟩

def record (health : Health) (now : Nat) (success : Bool) : Health :=
  if success then { health with isHealthy := true, lastTransition := now }
  else if health.isHealthy then
    ⟨false, now, health.unhealthyTransitions + 1⟩
  else health

end Health

/-! ## One probe -/

def livenessPath : String := "/livez"

def livenessBody : Bytes := Bytes.ofText "ok"

def probeRequest (upstream : Upstream) : Except ConfigError Outgoing :=
  (upstream.urlFor livenessPath).map fun url => ⟨Method.get, url, [], none⟩

inductive ProbeStage where
  | awaiting (time : Nat) (result : Except TransportFailure Reply)
  | reading (status : StatusCode) (source : Source) (received : Bytes)

structure Probe where
  deadline : Nat
  stage : ProbeStage

namespace Probe

def start (now timeout : Nat) (answer : Answer) : Probe :=
  ⟨now + timeout, .awaiting (now + answer.delay) answer.result⟩

def readBody (now : Nat) (status : StatusCode) (source : Source) (received : Bytes) :
    ProbeStage × Option Bool :=
  let (rest, grown, ending) := source.drain now received
  match ending with
  | .pending => (.reading status rest grown, none)
  | .ended => (.reading status rest grown, some (isSuccess status && grown == livenessBody))
  | .failed => (.reading status rest grown, some false)

def stageAt (now : Nat) : ProbeStage → ProbeStage × Option Bool
  | .awaiting time result =>
      if now < time then (.awaiting time result, none)
      else
        match result with
        | .error _ => (.awaiting time result, some false)
        | .ok reply => readBody now reply.status reply.body []
  | .reading status source received => readBody now status source received

/-- What a probe knows at a time: its outcome as soon as the exchange is over, and a failure when
the deadline comes first. -/
def poll (now : Nat) (probe : Probe) : Probe × Option Bool :=
  let (stage, outcome) := stageAt now probe.stage
  let after := { probe with stage }
  match outcome with
  | some success => (after, some success)
  | none => if probe.deadline ≤ now then (after, some false) else (after, none)

def wakeTimes (probe : Probe) : List Nat :=
  probe.deadline :: match probe.stage with
    | .awaiting time _ => [time]
    | .reading _ source _ => source.wakeTime?.toList

end Probe

/-! ## Rows of probes -/

inductive ProberStage where
  | sending
  | probing (probe : Probe)
  | sleeping (time : Nat)
  | ended

structure Prober where
  interval : Option Nat
  stage : ProberStage

namespace Prober

def once : Prober := ⟨none, .sending⟩

def loop (interval : Nat) : Prober := ⟨some interval, .sending⟩

def rest (prober : Prober) (now : Nat) : Prober :=
  { prober with
    stage := match prober.interval with
      | none => .ended
      | some interval => .sleeping (now + interval) }

def sent (prober : Prober) (now timeout : Nat) (answer : Answer) : Prober :=
  { prober with stage := .probing (Probe.start now timeout answer) }

def isEnded (prober : Prober) : Bool :=
  match prober.stage with
  | .ended => true
  | _ => false

def wakeTimes (prober : Prober) : List Nat :=
  match prober.stage with
  | .probing probe => probe.wakeTimes
  | .sleeping time => [time]
  | .sending | .ended => []

end Prober

end Outpost.Proxy
