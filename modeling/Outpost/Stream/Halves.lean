import Outpost.Stream.Tee

/-!
# The halves of a tee in hand

Who holds which half of a tee, and in which form: the background can be polled as it is, be
collected into one piece, or be turned into a plain body.  A half that was given up or has been
used up is gone.
-/

namespace Outpost.Stream

inductive Background where
  | plain
  | collecting (received : Bytes)
  | boxed
  | gone
  deriving DecidableEq, Repr, Inhabited

structure Halves where
  tee : Tee
  hasForeground : Bool
  background : Background
  deriving DecidableEq, Repr, Inhabited

inductive Yield where
  | pending
  | ended
  | chunk (bytes : Bytes)
  | body (bytes : Bytes)
  | done
  | gone
  | sourceFailed (message : String)
  | teeFailed (error : TeeError)
  | boxedFailed (error : TeeError)
  deriving DecidableEq, Repr

namespace Halves

def start (source : Source) (buffer : Nat) (expectedLength : Option Nat) : Halves :=
  ⟨Tee.start source buffer expectedLength, true, .plain⟩

def foreground (halves : Halves) : Halves × Yield :=
  if halves.hasForeground then
    let (tee, poll) := halves.tee.pollForeground 0
    ({ halves with tee },
      match poll with
      | .pending => .pending
      | .chunk bytes => .chunk bytes
      | .ended => .ended
      | .failed message => .sourceFailed message)
  else (halves, .gone)

def pollWith (halves : Halves) (failure : TeeError → Yield) : Halves × Yield :=
  let (tee, poll) := halves.tee.pollBackground
  ({ halves with tee },
    match poll with
    | .pending => .pending
    | .chunk bytes => .chunk bytes
    | .ended => .ended
    | .failed error => failure error)

def poll (halves : Halves) : Halves × Yield :=
  match halves.background with
  | .plain => halves.pollWith .teeFailed
  | .boxed => halves.pollWith .boxedFailed
  | .collecting _ | .gone => (halves, .gone)

/-- Collects what is in the queue, which bounds the work. -/
def collectFor : Nat → Halves → Bytes → Halves × Yield
  | 0, halves, received => ({ halves with background := .collecting received }, .pending)
  | fuel + 1, halves, received =>
      let (tee, poll) := halves.tee.pollBackground
      match poll with
      | .pending => ({ halves with tee, background := .collecting received }, .pending)
      | .chunk bytes => collectFor fuel { halves with tee } (received ++ bytes)
      | .ended => ({ halves with tee := tee.dropBackground, background := .gone }, .body received)
      | .failed error =>
          ({ halves with tee := tee.dropBackground, background := .gone }, .teeFailed error)

def collect (halves : Halves) : Halves × Yield :=
  match halves.background with
  | .plain => collectFor (halves.tee.queue.length + 1) halves []
  | .collecting received => collectFor (halves.tee.queue.length + 1) halves received
  | .boxed | .gone => (halves, .gone)

def box (halves : Halves) : Halves × Yield :=
  match halves.background with
  | .plain => ({ halves with background := .boxed }, .done)
  | _ => (halves, .gone)

def dropForeground (halves : Halves) : Halves × Yield :=
  ({ halves with tee := halves.tee.dropForeground, hasForeground := false }, .done)

def dropBackground (halves : Halves) : Halves × Yield :=
  ({ halves with tee := halves.tee.dropBackground, background := .gone }, .done)

end Halves

end Outpost.Stream
