import Outpost.Bytes

/-!
# Internet addresses in hosts

IPv4 addresses in every spelling that a URL admits: one to four numbers, decimal, octal or
hexadecimal, of which the last fills the bytes that are left.  IPv6 addresses with one optional
gap and an optional dotted end, written back with their longest run of zeros left out.
-/

namespace Outpost.Url

/-! ## IPv4 -/

namespace IPv4

def digitValue? (char : Char) : Option Nat := Bytes.hexValue? (Bytes.ofChar char)

def inBase? (base : Nat) (digits : List Char) : Option Nat :=
  digits.foldlM (fun value char =>
    match digitValue? char with
    | some digit => if char.toNat < 0x80 ∧ digit < base then some (base * value + digit) else none
    | none => none) 0

/-- One part of an address: `0x` begins a hexadecimal number and a further zero an octal one. -/
def number? : List Char → Option Nat
  | [] => none
  | '0' :: 'x' :: digits => inBase? 16 digits
  | '0' :: 'X' :: digits => inBase? 16 digits
  | '0' :: digit :: digits => inBase? 8 (digit :: digits)
  | digits => inBase? 10 digits

def isDecimal (digits : List Char) : Bool := !digits.isEmpty && digits.all Char.isDigit

def parts (domain : List Char) : List (List Char) :=
  let pieces := domain.splitOn '.'
  if pieces.getLast? = some [] then pieces.dropLast else pieces

/-- Whether the last part is a number, so that the domain has to be an address. -/
def endsInNumber (domain : List Char) : Bool :=
  match (parts domain).getLast? with
  | none => false
  | some part => isDecimal part || (number? part).isSome

def parse? (domain : List Char) : Option Nat := do
  let pieces := parts domain
  if 4 < pieces.length then none
  else do
    let numbers ← pieces.mapM number?
    let last ← numbers.getLast?
    let leading := numbers.dropLast
    if last < Nat.pow 256 (4 - leading.length) ∧ leading.all (· < 256) then
      some (leading.zipIdx.foldl
        (fun sum (number, place) => sum + number * Nat.pow 256 (3 - place)) last)
    else none

def render (address : Nat) : String :=
  ".".intercalate
    [toString (address / Nat.pow 2 24 % 256), toString (address / Nat.pow 2 16 % 256),
      toString (address / Nat.pow 2 8 % 256), toString (address % 256)]

end IPv4

/-! ## IPv6 -/

namespace IPv6

def piece? (digits : List Char) : Option Nat :=
  if digits.isEmpty || 4 < digits.length then none else IPv4.inBase? 16 digits

def byte? (digits : List Char) : Option Nat :=
  if IPv4.isDecimal digits && (digits.length = 1 || digits.head? ≠ some '0') then
    (IPv4.inBase? 10 digits).filter (· < 256)
  else none

def dotted? (chars : List Char) : Option (List Nat) := do
  match ← (chars.splitOn '.').mapM byte? with
  | [a, b, c, d] => some [256 * a + b, 256 * c + d]
  | _ => none

/-- The pieces between colons; only the last of an address may be dotted. -/
def pieces? (mayBeDotted : Bool) : List (List Char) → Option (List Nat)
  | [] => some []
  | [last] =>
      if mayBeDotted && last.contains '.' then dotted? last else (piece? last).map ([·])
  | first :: rest => do
      let piece ← piece? first
      let pieces ← pieces? mayBeDotted rest
      return piece :: pieces

def side? (mayBeDotted : Bool) (chars : List Char) : Option (List Nat) :=
  if chars.isEmpty then some [] else pieces? mayBeDotted (chars.splitOn ':')

def splitGap : List Char → Option (List Char × List Char)
  | ':' :: ':' :: rest => some ([], rest)
  | char :: rest => (splitGap rest).map fun (before, after) => (char :: before, after)
  | [] => none

def parse? (chars : List Char) : Option (List Nat) := do
  match splitGap chars with
  | none =>
      let pieces ← side? true chars
      if pieces.length = 8 then some pieces else none
  | some (before, after) =>
      let front ← side? false before
      let back ← side? true after
      let given := front.length + back.length
      if given < 8 then some (front ++ List.replicate (8 - given) 0 ++ back) else none

def hex (number : Nat) : String := String.ofList (Nat.toDigits 16 number)

def zeros (pieces : List Nat) : Nat := (pieces.takeWhile (· = 0)).length

/-- Start and length of the first longest run of at least two zeros. -/
def longestGap (pieces : List Nat) : Option (Nat × Nat) :=
  (List.range pieces.length).foldl (fun best start =>
    let length := zeros (pieces.drop start)
    if length < 2 then best
    else
      match best with
      | some (_, longest) => if longest < length then some (start, length) else best
      | none => some (start, length)) none

def render (pieces : List Nat) : String :=
  match longestGap pieces with
  | none => ":".intercalate (pieces.map hex)
  | some (start, length) =>
      ":".intercalate ((pieces.take start).map hex) ++ "::" ++
        ":".intercalate ((pieces.drop (start + length)).map hex)

end IPv6

end Outpost.Url
