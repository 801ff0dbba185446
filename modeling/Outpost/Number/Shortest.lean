import Outpost.Number.Binary64
import Outpost.Bytes

/-!
# Shortest decimal digits

The text of a double has the fewest decimal digits that still read back as the same double; of
two such decimals the nearer one is taken, and of two equally near ones the even one.  The
search tries one digit, then two, and so on, and looks at each length at the two neighbours of
the value on the grid of decimals of that length.
-/

namespace Outpost.Number

/-- Digits `d₁ d₂ …` and a position `point`, for the value `0.d₁d₂… * 10 ^ point`. -/
structure Decimal where
  digits : List Nat
  point : Int
  deriving DecidableEq, Repr

namespace Shortest

def digitCount (number : Nat) : Nat :=
  if number = 0 then 0 else (Nat.toDigits 10 number).length

/-- The position of the decimal point of a positive ratio: the least power of ten above it. -/
def pointOf (numerator denominator : Nat) : Int :=
  if denominator ≤ numerator then digitCount (numerator / denominator)
  else 1 - (digitCount ((denominator - 1) / numerator) : Int)

/-- The reals that round to a double, in quarters of its unit: half a unit to either side, but a
quarter below a power of two, where the grid is twice as fine. -/
structure Interval where
  low : Nat
  middle : Nat
  high : Nat
  closed : Bool

def intervalOf (value : Magnitude) : Interval where
  low :=
    if value.significand = Nat.pow 2 52 ∧ value.exponent > -1074 then 4 * value.significand - 1
    else 4 * value.significand - 2
  middle := 4 * value.significand
  high := 4 * value.significand + 2
  closed := value.significand % 2 == 0

def Interval.holds (interval : Interval) (unit scale candidate : Nat) : Bool :=
  if interval.closed then
    interval.low * unit ≤ candidate * scale && candidate * scale ≤ interval.high * unit
  else
    interval.low * unit < candidate * scale && candidate * scale < interval.high * unit

def candidate? (value : Magnitude) (point : Int) (count : Nat) : Option Nat :=
  let interval := intervalOf value
  let quarter : Magnitude := ⟨1, value.exponent - 2⟩
  let shift : Int := count - point
  let unit := quarter.ratio.1 * (if 0 ≤ shift then Nat.pow 10 shift.toNat else 1)
  let scale := quarter.ratio.2 * (if 0 ≤ shift then 1 else Nat.pow 10 (-shift).toNat)
  let exact := interval.middle * unit
  let below := exact / scale
  let above := below + 1
  match interval.holds unit scale below, interval.holds unit scale above with
  | true, true =>
      let toBelow := exact - below * scale
      let toAbove := above * scale - exact
      if toBelow < toAbove || (toBelow == toAbove && below % 2 == 0) then some below
      else some above
  | true, false => some below
  | false, true => some above
  | false, false => none

def dropTrailingZeros (digits : List Nat) : List Nat :=
  (digits.reverse.dropWhile (· == 0)).reverse

def digitsOf (number : Nat) : List Nat :=
  (Nat.toDigits 10 number).map fun char => char.toNat - '0'.toNat

def search (value : Magnitude) (point : Int) (count : Nat) : Nat → Decimal
  | 0 => ⟨[], point⟩
  | tries + 1 =>
      match candidate? value point count with
      | some number =>
          let digits := digitsOf number
          ⟨dropTrailingZeros digits, point + (digits.length - count : Int)⟩
      | none => search value point (count + 1) tries

end Shortest

/-- The shortest decimal of a magnitude; seventeen digits always suffice. -/
def Magnitude.shortest (value : Magnitude) : Decimal :=
  if value.isZero then ⟨[], 0⟩
  else
    let point := Shortest.pointOf value.ratio.1 value.ratio.2
    Shortest.search value point 1 18

/-! ## Layout -/

structure DecimalFormat where
  plainAbove : Int
  plainUpTo : Int

/-- Points above -5 and up to 16 are written plainly. -/
def Binary64.format : DecimalFormat := ⟨-5, 16⟩

private def digitBytes (digits : List Nat) : Bytes := digits.map fun digit => 0x30 + digit.toUInt8

def Decimal.plain (decimal : Decimal) : Bytes :=
  let digits := digitBytes decimal.digits
  if decimal.point ≤ 0 then
    Bytes.ofText "0." ++ List.replicate (-decimal.point).toNat 0x30 ++ digits
  else
    let whole := decimal.point.toNat
    if digits.length ≤ whole then
      digits ++ List.replicate (whole - digits.length) 0x30 ++ Bytes.ofText ".0"
    else
      digits.take whole ++ 0x2E :: digits.drop whole

def Decimal.scientific (decimal : Decimal) : Bytes :=
  let digits := digitBytes decimal.digits
  let fraction := digits.drop 1
  let exponent := decimal.point - 1
  digits.take 1 ++ (if fraction.isEmpty then [] else 0x2E :: fraction) ++ [0x65] ++
    [if exponent < 0 then 0x2D else 0x2B] ++ Bytes.ofNat exponent.natAbs

def Binary64.render (value : Binary64) : Bytes :=
  let sign : Bytes := if value.negative then [0x2D] else []
  if value.magnitude.isZero then sign ++ Bytes.ofText "0.0"
  else
    let decimal := value.magnitude.shortest
    if Binary64.format.plainAbove < decimal.point ∧ decimal.point ≤ Binary64.format.plainUpTo then
      sign ++ decimal.plain
    else
      sign ++ decimal.scientific

end Outpost.Number
