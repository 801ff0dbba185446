import Outpost.Percent

/-!
# Domain names

A domain is compared and written in ASCII lower case.  Labels with other characters are mapped
and written in Punycode; labels that are already written so must decode to something that is its
own mapping and needed it.
-/

namespace Outpost.Url

/-! ## Punycode -/

namespace Punycode

def adapt (delta count : Nat) (first : Bool) : Nat :=
  let scaled := if first then delta / 700 else delta / 2
  let rec reduce (fuel value bias : Nat) : Nat :=
    match fuel with
    | 0 => bias
    | fuel + 1 =>
        if value > 455 then reduce fuel (value / 35) (bias + 36)
        else bias + 36 * value / (value + 38)
  reduce 32 (scaled + scaled / count) 0

def threshold (place bias : Nat) : Nat :=
  if place ≤ bias then 1 else if bias + 26 ≤ place then 26 else place - bias

def digitChar (digit : Nat) : Char :=
  if digit < 26 then Char.ofNat ('a'.toNat + digit) else Char.ofNat ('0'.toNat + (digit - 26))

def digitValue? (char : Char) : Option Nat :=
  if char.isDigit then some (char.toNat - '0'.toNat + 26)
  else if char.isLower then some (char.toNat - 'a'.toNat)
  else if char.isUpper then some (char.toNat - 'A'.toNat)
  else none

def encodeNumber (bias : Nat) : Nat → Nat → Nat → List Char
  | 0, _, _ => []
  | fuel + 1, place, number =>
      let limit := threshold place bias
      if number < limit then [digitChar number]
      else
        digitChar (limit + (number - limit) % (36 - limit)) ::
          encodeNumber bias fuel (place + 36) ((number - limit) / (36 - limit))

structure EncodeState where
  delta : Nat
  bias : Nat
  handled : Nat
  output : List Char

/-- Passes over the label once for one code point, and emits a number at each of its places. -/
def encodePoint (basic point : Nat) (state : EncodeState) (char : Char) : EncodeState :=
  if char.toNat < point then { state with delta := state.delta + 1 }
  else if char.toNat = point then
    { delta := 0
      bias := adapt state.delta (state.handled + 1) (state.handled == basic)
      handled := state.handled + 1
      output := state.output ++ encodeNumber state.bias 64 36 state.delta }
  else state

def insertPoint (point : Nat) : List Nat → List Nat
  | [] => [point]
  | other :: rest =>
      if point < other then point :: other :: rest
      else if point = other then other :: rest
      else other :: insertPoint point rest

def encode (label : List Char) : List Char :=
  let basic := label.filter fun char => char.toNat < 0x80
  let points := label.foldl (fun sorted char =>
    if char.toNat < 0x80 then sorted else insertPoint char.toNat sorted) []
  let start := basic ++ (if basic.isEmpty then [] else ['-'])
  let step := fun (state : EncodeState × Nat) (point : Nat) =>
    let jump := (point - state.2) * (state.1.handled + 1)
    let passed := label.foldl (encodePoint basic.length point)
      { state.1 with delta := state.1.delta + jump }
    ({ passed with delta := passed.delta + 1 }, point + 1)
  (points.foldl step (⟨0, 72, basic.length, start⟩, 0x80)).1.output

def decodeNumber? (bias : Nat) : Nat → Nat → Nat → List Char → Option (Nat × List Char)
  | _, _, _, [] => none
  | place, weight, value, char :: rest => do
      let digit ← digitValue? char
      let total := value + digit * weight
      let limit := threshold place bias
      if digit < limit then some (total, rest)
      else decodeNumber? bias (place + 36) (weight * (36 - limit)) total rest

def decodePoints? : Nat → Nat → Nat → Nat → List Nat → List Char → Option (List Nat)
  | _, _, _, _, label, [] => some label
  | 0, _, _, _, _, _ => none
  | fuel + 1, point, index, bias, label, chars => do
      let (value, rest) ← decodeNumber? bias 36 1 0 chars
      let length := label.length + 1
      let position := index + value
      let next := point + position / length
      if 0x10FFFF < next || (0xD800 ≤ next && next ≤ 0xDFFF) then none
      else
        let place := position % length
        decodePoints? fuel next (place + 1) (adapt value length (index == 0 && point == 0x80))
          (label.take place ++ next :: label.drop place) rest

def decode? (label : List Char) : Option (List Nat) :=
  let parts := label.splitOn '-'
  let basic := if parts.length ≤ 1 then [] else List.intercalate ['-'] parts.dropLast
  decodePoints? label.length 0x80 0 72 (basic.map Char.toNat) (parts.getLast?.getD [])

end Punycode

/-! ## Domains -/

namespace Domain

def isForbidden (char : Char) : Bool :=
  char.toNat ≤ 0x20 || char.toNat = 0x7F || "%#/:<>?@[\\]^|".toList.contains char

/-- What names beyond ASCII are mapped to before they are written.  Case, compatibility forms and
composition are settled by tables, which belong to whoever brings the mapping. -/
class Mapping where
  map? : List Char → Option (List Char)

def isAscii (chars : List Char) : Bool := chars.all fun char => char.toNat < 0x80

/-- A name in ASCII needs no tables.  No name holds a forbidden character once it is mapped. -/
def mapped? [Mapping] (name : List Char) : Option (List Char) :=
  (if isAscii name then some (name.map Char.toLower) else Mapping.map? name).filter fun mapped =>
    !mapped.any isForbidden

def needsEncoding [Mapping] (points : List Nat) : Bool :=
  points.any (0x80 ≤ ·) &&
    mapped? (points.map Char.ofNat) == some (points.map Char.ofNat)

def label? [Mapping] (label : List Char) : Option (List Char) :=
  if isAscii label then
    match label with
    | 'x' :: 'n' :: '-' :: '-' :: encoded =>
        match Punycode.decode? encoded with
        | some points => if needsEncoding points then some label else none
        | none => none
    | _ => some label
  else some ("xn--".toList ++ Punycode.encode label)

/-- The written form of a host name whose percent codes stand for bytes. -/
def normalize? [Mapping] (host : List Char) : Option (List Char) := do
  let text ← Bytes.text? (Percent.decode (Bytes.ofText (String.ofList host)))
  let name ← mapped? text.toList
  let labels ← (name.splitOn '.').mapM label?
  return List.intercalate ['.'] labels

end Domain

end Outpost.Url
