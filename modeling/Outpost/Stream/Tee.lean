import Outpost.Stream.Source

/-!
# Splitting a body in two

The foreground half reads the source and passes every chunk on to a bounded queue before it
yields it; the background half reads the queue.  A full queue holds the foreground back, and a
background half that is gone does not.  The background ends well only if the foreground met the
end of the source or has yielded as many bytes as were declared.
-/

namespace Outpost.Stream

inductive TeeError where
  | aborted
  | source (message : String)
  deriving DecidableEq, Repr

def TeeError.message : TeeError → String
  | .aborted => "response body was abandoned before it completed"
  | .source message => "response body failed: " ++ message

inductive Message where
  | chunk (bytes : Bytes)
  | failure (message : String)
  deriving DecidableEq, Repr

structure Tee where
  source : Source
  capacity : Nat
  expectedLength : Option Nat
  /-- A chunk read from the source but not yet queued. -/
  parked : Option Bytes
  delivered : Nat
  finished : Bool
  /-- The whole body went through the foreground. -/
  complete : Bool
  sending : Bool
  queue : List Message
  receiving : Bool
  drained : Bool
  deriving DecidableEq, Repr, Inhabited

namespace Tee

def finish (tee : Tee) : Tee := { tee with finished := true, complete := true, sending := false }

/-- Splits a source; a body declared to be empty is complete at once. -/
def start (source : Source) (buffer : Nat) (expectedLength : Option Nat) : Tee :=
  let fresh : Tee := {
    source, expectedLength
    capacity := max buffer 1
    parked := none
    delivered := 0
    finished := false
    complete := false
    sending := true
    queue := []
    receiving := true
    drained := false }
  if expectedLength = some 0 then fresh.finish else fresh

def reachedExpectedLength (tee : Tee) : Bool :=
  match tee.expectedLength with
  | none => false
  | some length => length ≤ tee.delivered

def deliver (tee : Tee) (chunk : Bytes) : Tee :=
  let delivered := { tee with parked := none, delivered := tee.delivered + chunk.length }
  if delivered.reachedExpectedLength then delivered.finish else delivered

/-- Passes a chunk on and yields it, unless the queue is full. -/
def pass (tee : Tee) (chunk : Bytes) : Tee × Poll String :=
  if tee.receiving then
    if tee.queue.length < tee.capacity then
      ({ tee with queue := tee.queue ++ [Message.chunk chunk] }.deliver chunk, .chunk chunk)
    else ({ tee with parked := some chunk }, .pending)
  else (tee.deliver chunk, .chunk chunk)

/-- Tells the background of a failure if there is room for it. -/
def fail (tee : Tee) (message : String) : Tee :=
  let queue :=
    if tee.receiving && tee.queue.length < tee.capacity then tee.queue ++ [.failure message]
    else tee.queue
  { tee with queue, finished := true, sending := false }

/-- The first chunk of a source that is not empty, or what else the source answers. -/
def pollSource (now : Nat) : List Item → List Item × Poll String
  | .chunk [] :: rest => pollSource now rest
  | .delay duration :: rest =>
      if duration = 0 then pollSource now rest else (.timer (now + duration) :: rest, .pending)
  | .timer time :: rest =>
      if time ≤ now then pollSource now rest else (.timer time :: rest, .pending)
  | items => Source.pollItems now items

def pollForeground (now : Nat) (tee : Tee) : Tee × Poll String :=
  if tee.finished then (tee, .ended)
  else
    match tee.parked with
    | some chunk => tee.pass chunk
    | none =>
        let (items, answer) := pollSource now tee.source.items
        let polled := { tee with source := ⟨items⟩ }
        match answer with
        | .pending => (polled, .pending)
        | .chunk chunk => polled.pass chunk
        | .ended => (polled.finish, .ended)
        | .failed message => (polled.fail message, .failed message)

def pollBackground (tee : Tee) : Tee × Poll TeeError :=
  if tee.drained then (tee, .ended)
  else
    match tee.queue with
    | .chunk bytes :: rest => ({ tee with queue := rest }, .chunk bytes)
    | .failure message :: rest =>
        ({ tee with queue := rest, drained := true }, .failed (.source message))
    | [] =>
        if tee.sending then (tee, .pending)
        else if tee.complete then ({ tee with drained := true }, .ended)
        else ({ tee with drained := true }, .failed .aborted)

/-- Gives up the foreground; the background still gets what is queued. -/
def dropForeground (tee : Tee) : Tee :=
  { tee with sending := false, parked := none, finished := true }

def dropBackground (tee : Tee) : Tee := { tee with receiving := false, queue := [] }

end Tee

end Outpost.Stream
