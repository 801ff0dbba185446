/-!
# Finite doubles

A finite double is a sign and a magnitude `significand * 2 ^ exponent` on the grid of 53-bit
significands with exponents from -1074 to 971.  Every operation here rounds one exact ratio of
natural numbers to the nearest point of that grid, ties to an even significand, and says so when
the ratio lies beyond the largest double.
-/

namespace Outpost.Number

structure Magnitude where
  significand : Nat
  exponent : Int
  deriving DecidableEq, Repr, Inhabited

structure Binary64 where
  negative : Bool
  magnitude : Magnitude
  deriving DecidableEq, Repr, Inhabited

namespace Magnitude

def zero : Magnitude := ⟨0, -1074⟩

def isZero (value : Magnitude) : Bool := value.significand == 0

def ratio (value : Magnitude) : Nat × Nat :=
  if 0 ≤ value.exponent then (value.significand * Nat.pow 2 value.exponent.toNat, 1)
  else (value.significand, Nat.pow 2 (-value.exponent).toNat)

/-- The nearest natural number to a ratio, a half going to the even neighbour. -/
def roundHalfEven (numerator denominator : Nat) : Nat :=
  let floor := numerator / denominator
  let remainder := numerator % denominator
  if 2 * remainder > denominator || (2 * remainder == denominator && floor % 2 == 1) then
    floor + 1
  else
    floor

def inUnits (numerator denominator : Nat) (exponent : Int) : Nat × Nat :=
  if 0 ≤ exponent then (numerator, denominator * Nat.pow 2 exponent.toNat)
  else (numerator * Nat.pow 2 (-exponent).toNat, denominator)

/-- The exponent at which a positive ratio has a significand of 53 bits, or the least one. -/
def gridExponent (numerator denominator : Nat) : Int :=
  let estimate : Int := (numerator.log2 : Int) - (denominator.log2 : Int) - 52
  let scaled := inUnits numerator denominator estimate
  let exponent := if scaled.1 / scaled.2 < Nat.pow 2 52 then estimate - 1 else estimate
  max exponent (-1074)

def ofRatio? (numerator denominator : Nat) : Option Magnitude :=
  if numerator = 0 then some zero
  else
    let exponent := gridExponent numerator denominator
    let scaled := inUnits numerator denominator exponent
    let rounded := roundHalfEven scaled.1 scaled.2
    let result : Magnitude :=
      if rounded = Nat.pow 2 53 then ⟨Nat.pow 2 52, exponent + 1⟩ else ⟨rounded, exponent⟩
    if result.exponent > 971 then none else some result

def ofNat? (number : Nat) : Option Magnitude := ofRatio? number 1

def mul? (first second : Magnitude) : Option Magnitude :=
  ofRatio? (first.ratio.1 * second.ratio.1) (first.ratio.2 * second.ratio.2)

def div? (first second : Magnitude) : Option Magnitude :=
  ofRatio? (first.ratio.1 * second.ratio.2) (first.ratio.2 * second.ratio.1)

def tenPower (power : Nat) : Magnitude := (ofNat? (Nat.pow 10 power)).getD zero

def divRepeatedly? (divisor : Magnitude) : Nat → Magnitude → Option Magnitude
  | 0, value => some value
  | times + 1, value =>
      if value.isZero then some value
      else (div? value divisor).bind (divRepeatedly? divisor times)

/-- A magnitude times a power of ten.  The double of the power is multiplied or divided by;
powers below the reach of a double are first taken off 308 decimal places at a time. -/
def scaleByTen? (value : Magnitude) (power : Int) : Option Magnitude :=
  if value.isZero then some value
  else if 308 < power then none
  else if 0 ≤ power then mul? value (tenPower power.toNat)
  else
    let places := (-power).toNat
    let rounds := (places - 1) / 308
    (divRepeatedly? (tenPower 308) rounds value).bind fun smaller =>
      div? smaller (tenPower (places - 308 * rounds))

end Magnitude

/-- The double that a decimal significand and a power of ten are read as: the significand
becomes a double first and is then scaled, with one rounding each. -/
def Binary64.ofDecimal? (negative : Bool) (significand : Nat) (power : Int) :
    Option Binary64 := do
  let whole ← Magnitude.ofNat? significand
  let scaled ← Magnitude.scaleByTen? whole power
  return ⟨negative, scaled⟩

end Outpost.Number
