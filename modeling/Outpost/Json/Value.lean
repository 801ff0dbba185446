import Outpost.Json.Raw
import Outpost.Number.Shortest

/-!
# JSON values

A `Value` is a document with its texts decoded, its numbers read and the fields of every object
in the order of their names, each name once.  Reading refuses ill-formed Unicode and numbers
beyond the largest double; of a repeated name the last field counts.  Writing is compact.
-/

namespace Outpost.Json

open Bytes Number

/-- An integer is one that fits 64 bits, with or without a sign; every other number is a double. -/
inductive Num where
  | integer (value : Int)
  | double (value : Binary64)
  deriving DecidableEq, Repr

inductive Value where
  | null
  | bool (value : Bool)
  | number (value : Num)
  | string (text : String)
  | array (items : List Value)
  | object (fields : List (String × Value))
  deriving Inhabited

def maxDepth : Nat := 127

/-! ## Fields in the order of their names -/

namespace Fields

/-- Puts a field at its place, instead of an earlier one of the same name. -/
def insert {α : Type} (name : String) (value : α) : List (String × α) → List (String × α)
  | [] => [(name, value)]
  | (other, kept) :: rest =>
      if name < other then (name, value) :: (other, kept) :: rest
      else if name = other then (name, value) :: rest
      else (other, kept) :: insert name value rest

def ofList {α : Type} (fields : List (String × α)) : List (String × α) :=
  fields.foldl (fun sorted field => insert field.1 field.2 sorted) []

def find? {α : Type} (fields : List (String × α)) (name : String) : Option α :=
  (fields.find? fun field => field.1 == name).map (·.2)

end Fields

/-! ## Numbers -/

/-- Digits taken into a 64-bit significand as long as they fit, and the digits left over. -/
def gather (significand : Nat) : Bytes → Nat × Bytes
  | [] => (significand, [])
  | digit :: rest =>
      let next := 10 * significand + (digit.toNat - 0x30)
      if next < Nat.pow 2 64 then gather next rest else (significand, digit :: rest)

private def natOfDigits (digits : Bytes) : Nat :=
  digits.foldl (fun value digit => 10 * value + (digit.toNat - 0x30)) 0

/-- The number a text writes.  Digits before the point that no longer fit raise the exponent,
those after it that no longer fit are dropped.  A negative zero is a double. -/
def Num.ofText? (text : NumberText) : Option Num :=
  let (whole, excess) := gather 0 text.whole
  if text.fraction.isEmpty && text.exponent.isNone && excess.isEmpty then
    if !text.negative then some (.integer whole)
    else if 0 < whole ∧ whole ≤ Nat.pow 2 63 then some (.integer (-whole))
    else (Binary64.ofDecimal? true whole 0).map .double
  else
    let (significand, dropped) := gather whole text.fraction
    let places : Int := excess.length - (text.fraction.length - dropped.length : Nat)
    let power : Int := match text.exponent with
      | none => places
      | some (true, digits) => places - natOfDigits digits
      | some (false, digits) => places + natOfDigits digits
    (Binary64.ofDecimal? text.negative significand power).map .double

def Num.render : Num → Bytes
  | .integer value => ofText (toString value)
  | .double value => value.render

/-! ## Reading -/

mutual

def Value.ofRaw? : Raw → Option Value
  | .null => some .null
  | .bool value => some (.bool value)
  | .number text => (Num.ofText? text).map .number
  | .string body => (Quoted.text? body).map .string
  | .array items => (itemsOfRaw? items).map .array
  | .object members => (membersOfRaw? members).map fun fields => .object (Fields.ofList fields)

def Value.itemsOfRaw? : List Raw → Option (List Value)
  | [] => some []
  | item :: rest => do
      let value ← ofRaw? item
      let values ← itemsOfRaw? rest
      return value :: values

def Value.membersOfRaw? : List (Bytes × Raw) → Option (List (String × Value))
  | [] => some []
  | (key, item) :: rest => do
      let name ← Quoted.text? key
      let value ← ofRaw? item
      let fields ← membersOfRaw? rest
      return (name, value) :: fields

end

def Value.parse? (bytes : Bytes) : Option Value := do
  let document ← Raw.parse? bytes
  if document.depth ≤ maxDepth then Value.ofRaw? document else none

/-! ## Writing -/

def quote (text : String) : Bytes := 0x22 :: Quoted.escape (ofText text) ++ [0x22]

mutual

def Value.render : Value → Bytes
  | .null => ofText "null"
  | .bool true => ofText "true"
  | .bool false => ofText "false"
  | .number value => value.render
  | .string text => quote text
  | .array items => 0x5B :: renderItems items ++ [0x5D]
  | .object fields => 0x7B :: renderFields fields ++ [0x7D]

def Value.renderItems : List Value → Bytes
  | [] => []
  | [item] => item.render
  | item :: rest => item.render ++ 0x2C :: renderItems rest

def Value.renderFields : List (String × Value) → Bytes
  | [] => []
  | [(name, value)] => quote name ++ 0x3A :: value.render
  | (name, value) :: rest => quote name ++ 0x3A :: value.render ++ 0x2C :: renderFields rest

end

end Outpost.Json
