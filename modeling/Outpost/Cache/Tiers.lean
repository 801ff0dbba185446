import Outpost.Cache.Key

/-!
# Cache tiers

What a process remembers of cached lists: the payloads of the volatile tier, which keys the
durable store is known to hold, and the gates of the keys whose volatile entry is still being
fetched.  In either tier the first entry of a key stays.
-/

namespace Outpost.Cache

structure Tiers where
  volatile : List (Key × Bytes)
  populated : List Key
  gates : List (Key × Nat)
  nextGate : Nat
  deriving DecidableEq, Repr, Inhabited

namespace Tiers

def empty : Tiers := ⟨[], [], [], 0⟩

def restart (tiers : Tiers) : Tiers := { empty with nextGate := tiers.nextGate }

/-! ## The volatile tier -/

def volatile? (tiers : Tiers) (key : Key) : Option Bytes :=
  (tiers.volatile.find? fun entry => entry.1 == key).map (·.2)

/-- Keeps a payload unless its key has one, and closes the gate of the key either way.  Tells
whether it was kept. -/
def insertVolatile (tiers : Tiers) (key : Key) (payload : Bytes) : Tiers × Bool :=
  let gates := tiers.gates.filter fun gate => gate.1 ≠ key
  if (tiers.volatile? key).isSome then ({ tiers with gates }, false)
  else ({ tiers with gates, volatile := tiers.volatile ++ [(key, payload)] }, true)

/-- The gate at which requests for a key wait for each other, opened if there is none; nothing
once the key has an entry. -/
def gate? (tiers : Tiers) (key : Key) : Tiers × Option Nat :=
  if (tiers.volatile? key).isSome then (tiers, none)
  else
    match tiers.gates.find? fun gate => gate.1 == key with
    | some (_, number) => (tiers, some number)
    | none =>
        ({ tiers with
            gates := tiers.gates ++ [(key, tiers.nextGate)]
            nextGate := tiers.nextGate + 1 },
          some tiers.nextGate)

/-! ## The durable tier -/

def isPopulated (tiers : Tiers) (key : Key) : Bool := tiers.populated.contains key

def markPopulated (tiers : Tiers) (key : Key) : Tiers :=
  if tiers.isPopulated key then tiers
  else { tiers with populated := tiers.populated ++ [key] }

end Tiers

end Outpost.Cache
