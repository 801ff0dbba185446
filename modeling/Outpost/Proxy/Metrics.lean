import Outpost.Http.Message

/-!
# Request counters

Counters of 64 bits.  A request in flight is counted when it starts; when its response is ready
it is counted in the total and, unless its status is below 200, in one of three classes.
-/

namespace Outpost.Proxy

open Http

structure Metrics where
  total : UInt64
  inFlight : UInt64
  succeeded : UInt64
  clientErrors : UInt64
  serverErrors : UInt64
  fallbacks : UInt64
  volatileRequests : UInt64
  volatileHits : UInt64
  deriving DecidableEq, Repr, Inhabited

namespace Metrics

def zero : Metrics := ⟨0, 0, 0, 0, 0, 0, 0, 0⟩

def recordFallback (metrics : Metrics) : Metrics :=
  { metrics with fallbacks := metrics.fallbacks + 1 }

def recordVolatileRequest (metrics : Metrics) : Metrics :=
  { metrics with volatileRequests := metrics.volatileRequests + 1 }

def recordVolatileHit (metrics : Metrics) : Metrics :=
  { metrics with volatileHits := metrics.volatileHits + 1 }

def recordStatus (metrics : Metrics) (status : StatusCode) : Metrics :=
  if 500 ≤ status then { metrics with serverErrors := metrics.serverErrors + 1 }
  else if 400 ≤ status then { metrics with clientErrors := metrics.clientErrors + 1 }
  else if 200 ≤ status then { metrics with succeeded := metrics.succeeded + 1 }
  else metrics

def recordStart (metrics : Metrics) : Metrics := { metrics with inFlight := metrics.inFlight + 1 }

def recordEnd (metrics : Metrics) (status : StatusCode) : Metrics :=
  { metrics with
    inFlight := metrics.inFlight - 1
    total := metrics.total + 1 }.recordStatus status

def toList (metrics : Metrics) : List UInt64 :=
  [metrics.total, metrics.inFlight, metrics.succeeded, metrics.clientErrors,
    metrics.serverErrors, metrics.fallbacks, metrics.volatileRequests, metrics.volatileHits]

end Metrics

end Outpost.Proxy
