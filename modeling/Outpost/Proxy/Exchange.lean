import Outpost.Cache.Population
import Outpost.Proxy.Treatment

/-!
# Exchanges

A request on its way through the proxy, and the task that caches the answer to it.  Requests for
the same volatile entry wait for each other at a gate: they stand in line, and the first one
holds the gate.
-/

namespace Outpost.Proxy

open Api Cache Coding Http Outpost.Stream

/-! ## Lines at gates -/

/-- For every gate who stands in line there; the first one holds the gate. -/
abbrev Lines := List (Nat × List Nat)

namespace Lines

def at? (lines : Lines) (gate : Nat) : List Nat :=
  ((lines.find? fun line => line.1 == gate).map (·.2)).getD []

def join (lines : Lines) (gate who : Nat) : Lines :=
  if lines.any fun line => line.1 == gate then
    lines.map fun line => if line.1 = gate then (gate, line.2 ++ [who]) else line
  else List.append lines [(gate, [who])]

/-- Leaves the line of a gate, which is handed on if it was held. -/
def leave (lines : Lines) (gate who : Nat) : Lines :=
  (lines.map fun line => if line.1 = gate then (gate, line.2.filter (· ≠ who)) else line).filter
    fun line => !line.2.isEmpty

def isHeld (lines : Lines) (gate who : Nat) : Bool := (lines.at? gate).head? == some who

end Lines

/-! ## Requests -/

inductive Relation where
  | relayed
  | upgraded
  | treated
  deriving DecidableEq, Repr, Inhabited

inductive Delivery where
  | direct (source : Source)
  | copied
  | dropped
  deriving Inhabited

def Delivery.ofPayload : Payload → Delivery
  | .whole bytes => .direct (Source.ofBytes bytes)
  | .relayed source => .direct source
  | .copied => .copied

inductive Phase where
  | arrived
  | firstLook (key : Key)
  | approaching (key : Key)
  | waiting (key : Key) (gate deadline : Nat)
  | secondLook (key : Key)
  | sending (relation : Relation)
  | awaiting (relation : Relation) (outgoing : Outgoing)
  | filtering (kind : ResourceKind) (response : Response) (source : Source) (collector : Collector)
  | responded (response : Response) (delivery : Delivery)
  deriving Inhabited

structure Exchange where
  id : Nat
  request : Request
  info : RequestInfo
  gate : Option Nat
  phase : Phase
  deriving Inhabited

/-! ## Caching tasks -/

inductive TaskStage where
  | collecting (collector : Collector)
  | inserting (payload : Bytes)
  | populating (population : Population)
  | closing

/-- Caches the body that the tee of an exchange copies. -/
structure CachingTask where
  exchange : Nat
  key : Key
  gate : Option Nat
  stage : TaskStage

end Outpost.Proxy
