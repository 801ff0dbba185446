import Outpost.Coding.Member
import Outpost.Http.Headers
import Outpost.Stream.Source

/-!
# Content codings

The coding that a response declares, and the decoding of a body that arrives in pieces: it is
over as soon as one member is complete, whatever follows, and it fails when the body ends or
breaks off before.
-/

namespace Outpost.Coding

open Http Outpost.Stream

/-- The format that the first content coding names; unknown ones are left alone. -/
def declared? (headers : Headers) : Option Format := do
  let value ← headers.firstText? "content-encoding"
  match Text.asciiLower (Text.trim value) with
  | "gzip" => some .gzip
  | "x-gzip" => some .gzip
  | "deflate" => some .zlib
  | _ => none

/-- A body that is read to its end, through a decoder if it has a coding. -/
structure Collector where
  format : Option Format
  received : Bytes
  deriving DecidableEq, Repr

namespace Collector

def start (format : Option Format) : Collector := ⟨format, []⟩

/-- What is known after a further piece: a decoder may be done or have failed early. -/
def feed (collector : Collector) (chunk : Bytes) : Collector × Option (Except Unit Bytes) :=
  let grown := { collector with received := collector.received ++ chunk }
  match collector.format with
  | none => (grown, none)
  | some format =>
      match decode format grown.received with
      | .ok contents => (grown, some (.ok contents))
      | .error .corrupt => (grown, some (.error ()))
      | .error .starved => (grown, none)

def finish (collector : Collector) : Except Unit Bytes :=
  match collector.format with
  | none => .ok collector.received
  | some _ => .error ()

end Collector

/-! ## Reading a body to its end -/

def collectItems (now : Nat) (collector : Collector) :
    List Item → List Item × Collector × Option (Except Unit Bytes)
  | [] => ([], collector, some collector.finish)
  | .chunk bytes :: rest =>
      match collector.feed bytes with
      | (grown, some result) => (rest, grown, some result)
      | (grown, none) => collectItems now grown rest
  | .hold :: rest => (rest, collector, none)
  | .delay duration :: rest =>
      if duration = 0 then collectItems now collector rest
      else (.timer (now + duration) :: rest, collector, none)
  | .timer time :: rest =>
      if time ≤ now then collectItems now collector rest
      else (.timer time :: rest, collector, none)
  | .silence :: rest => (.silence :: rest, collector, none)
  | .failure _ :: _ => ([], collector, some (.error ()))

def readAll (headers : Headers) (items : List Item) : Option (Except Unit Bytes) :=
  (collectItems 0 (Collector.start (declared? headers)) (items.filter (· ≠ .hold))).2.2

end Outpost.Coding
