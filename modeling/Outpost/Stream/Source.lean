import Outpost.Bytes

/-!
# Byte sources

A body as it arrives: chunks, pauses and possibly a failure.  A source is polled at a time, and
answers with what is there by then.
-/

namespace Outpost.Stream

inductive Item where
  | chunk (bytes : Bytes)
  | hold
  /-- Nothing is there for a while, counted from the first poll that finds this. -/
  | delay (duration : Nat)
  | timer (time : Nat)
  | silence
  | failure (message : String)
  deriving DecidableEq, Repr

structure Source where
  items : List Item
  deriving DecidableEq, Repr, Inhabited

inductive Poll (ε : Type) where
  | pending
  | chunk (bytes : Bytes)
  | ended
  | failed (error : ε)
  deriving DecidableEq, Repr

namespace Source

def pollItems (now : Nat) : List Item → List Item × Poll String
  | [] => ([], .ended)
  | .chunk bytes :: rest => (rest, .chunk bytes)
  | .hold :: rest => (rest, .pending)
  | .delay duration :: rest =>
      if duration = 0 then pollItems now rest else (.timer (now + duration) :: rest, .pending)
  | .timer time :: rest =>
      if time ≤ now then pollItems now rest else (.timer time :: rest, .pending)
  | .silence :: rest => (.silence :: rest, .pending)
  | .failure message :: _ => ([], .failed message)

def poll (now : Nat) (source : Source) : Source × Poll String :=
  let (items, answer) := pollItems now source.items
  (⟨items⟩, answer)

inductive Ending where
  | pending
  | ended
  | failed
  deriving DecidableEq, Repr

def drainItems (now : Nat) : List Item → Bytes → List Item × Bytes × Ending
  | [], received => ([], received, .ended)
  | .chunk bytes :: rest, received => drainItems now rest (received ++ bytes)
  | .hold :: rest, received => (rest, received, .pending)
  | .delay duration :: rest, received =>
      if duration = 0 then drainItems now rest received
      else (.timer (now + duration) :: rest, received, .pending)
  | .timer time :: rest, received =>
      if time ≤ now then drainItems now rest received else (.timer time :: rest, received, .pending)
  | .silence :: rest, received => (.silence :: rest, received, .pending)
  | .failure _ :: _, received => ([], received, .failed)

def drain (source : Source) (now : Nat) (received : Bytes) : Source × Bytes × Ending :=
  let (items, grown, ending) := drainItems now source.items received
  (⟨items⟩, grown, ending)

def wakeTime? (source : Source) : Option Nat :=
  match source.items with
  | .timer time :: _ => some time
  | _ => none

def ofBytes (bytes : Bytes) : Source := ⟨if bytes.isEmpty then [] else [.chunk bytes]⟩

/-- All bytes that the source delivers before it ends or fails. -/
def bytes (source : Source) : Bytes :=
  (source.items.takeWhile fun item =>
    match item with
    | .failure _ | .silence => false
    | _ => true).flatMap fun item =>
      match item with
      | .chunk bytes => bytes
      | _ => []

end Source

end Outpost.Stream
