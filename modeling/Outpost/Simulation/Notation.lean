import Outpost.Json.Value
import Outpost.Simulation.Script

/-!
# Notation of scripts

How bytes, bodies, answers and routes are written in JSON.  Bytes that are UTF-8 are a text, and
others stand in base 64; in input they may also be repeated and joined.
-/

namespace Outpost.Simulation.Notation

open Http Json Outpost.Stream

/-! ## Base 64 -/

def digits : List Char := "ABCDEFGHIJKLMNOPQRSTUVWXYZabcdefghijklmnopqrstuvwxyz0123456789+/".toList

def digit (value : Nat) : Char := digits.getD (value % 64) 'A'

def toBase64 : Bytes → List Char
  | a :: b :: c :: rest =>
      let bits := a.toNat * 65536 + b.toNat * 256 + c.toNat
      digit (bits >>> 18) :: digit (bits >>> 12) :: digit (bits >>> 6) :: digit bits ::
        toBase64 rest
  | [a, b] =>
      let bits := a.toNat * 65536 + b.toNat * 256
      [digit (bits >>> 18), digit (bits >>> 12), digit (bits >>> 6), '=']
  | [a] =>
      let bits := a.toNat * 65536
      [digit (bits >>> 18), digit (bits >>> 12), '=', '=']
  | [] => []

def digitValue (char : Char) : Nat := digits.idxOf char % 64

def ofBase64 : List Char → Bytes
  | a :: b :: c :: d :: rest =>
      let bits := digitValue a * 262144 + digitValue b * 4096 + digitValue c * 64 + digitValue d
      let group : Bytes := [(bits / 65536).toUInt8, (bits / 256).toUInt8, bits.toUInt8]
      (if c = '=' then group.take 1 else if d = '=' then group.take 2 else group) ++
        ofBase64 rest
  | _ => []

/-! ## Fields -/

def field? (value : Value) (name : String) : Option Value :=
  match value with
  | .object fields =>
      match Fields.find? fields name with
      | some .null => none
      | found => found
  | _ => none

def items : Value → List Value
  | .array values => values
  | _ => []

def listField (value : Value) (name : String) : List Value :=
  ((field? value name).map items).getD []

def natField? (value : Value) (name : String) : Option Nat :=
  match field? value name with
  | some (.number (.integer count)) => some count.toNat
  | _ => none

/-! ## Bytes -/

def ofBytes (bytes : Bytes) : Value :=
  match Bytes.text? bytes with
  | some text => .string text
  | none => .object [("b64", .string (String.ofList (toBase64 bytes)))]

mutual

def bytes : Value → Bytes
  | .string text => Bytes.ofText text
  | .object fields => bytesOfFields 1 fields
  | .array parts => joined parts
  | _ => []

def joined : List Value → Bytes
  | [] => []
  | part :: rest => bytes part ++ joined rest

/-- Fields in the order of their names: how often a part is repeated comes after the part. -/
def bytesOfFields (times : Nat) : List (String × Value) → Bytes
  | [] => []
  | ("b64", .string text) :: _ => ofBase64 text.toList
  | ("cat", parts) :: _ => bytes parts
  | ("repeat", part) :: rest =>
      let times := match natField? (.object rest) "times" with
        | some count => count
        | none => times
      (List.replicate times (bytes part)).flatten
  | _ :: rest => bytesOfFields times rest

end

def text (value : Value) : String := (Bytes.text? (bytes value)).getD ""

def bytesField (value : Value) (name : String) : Bytes := ((field? value name).map bytes).getD []

def textField? (value : Value) (name : String) : Option String := (field? value name).map text

def textField (value : Value) (name : String) : String := (textField? value name).getD ""

def pair (value : Value) : Value × Value :=
  match value with
  | .array [first, second] => (first, second)
  | _ => (.null, .null)

/-! ## Messages -/

def headersField (value : Value) (name : String) : Headers :=
  Headers.ofList ((listField value name).map fun entry =>
    let (key, content) := pair entry
    (text key, bytes content))

def ofHeaders (headers : Headers) : Value :=
  let names := headers.foldl (fun (names : List String) field =>
    if names.contains field.1 then names else names ++ [field.1]) []
  .object (names.map fun name => (name, .array ((headers.values name).map ofBytes)))

def item (value : Value) : Item :=
  match field? value "pending", field? value "error", natField? value "delay_ms" with
  | some _, _, _ => .hold
  | _, some message, _ => .failure (text message)
  | _, _, some duration => .delay duration
  | none, none, none => .chunk (bytes value)

def source (values : List Value) : Source := ⟨values.map item⟩

def answer (reply : Value) : Answer :=
  let delay := (natField? reply "delay_ms").getD 0
  match field? reply "error" with
  | some failure =>
      let (kind, message) := pair failure
      ⟨delay, .error ⟨text kind, text message⟩⟩
  | none =>
      let body := match field? reply "chunks" with
        | some chunks => source (items chunks)
        | none => Source.ofBytes (bytesField reply "body")
      ⟨delay, .ok ⟨((natField? reply "status").getD 200).toUInt16,
        headersField reply "headers", body⟩⟩

def route (value : Value) : Route :=
  ⟨textField? value "contains", textField? value "method", (listField value "replies").map answer⟩

end Outpost.Simulation.Notation
