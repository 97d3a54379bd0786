-- SUMMARY: Numbers with a fraction, finite or beyond all finite ones: their exact value, and reading a decimal with rounding to 53 bits.

/-!
# Binary fractions

The numbers with a fraction that a document can hold: `± mantissa · 2 ^ exponent`
with at most 53 significant bits and an exponent from -1074 to 971, and the two
that are beyond these on either side. A zero keeps its sign. Numbers are compared
by their `Fraction.magnitude`; `Fraction.ofDecimal` reads a decimal to the nearest
number, a tie going to the even mantissa. There is no undefined number: it would
not be equal to itself.
-/

namespace ClientForge

structure Binary where
  negative : Bool
  mantissa : Nat
  exponent : Int
deriving DecidableEq, Repr, Inhabited

namespace Binary

/-- Significant bits of a number. -/
def precision : Nat := 53

/-- The least exponent a mantissa may carry. -/
def minExponent : Int := -1074

/-- The largest exponent a mantissa may carry. -/
def maxExponent : Int := 971

def twoTo (n : Nat) : Nat := Nat.pow 2 n

def tenTo (n : Nat) : Nat := Nat.pow 10 n

/-- The exact value. -/
def toRat (x : Binary) : Rat :=
  let signed : Int := if x.negative then -(x.mantissa : Int) else x.mantissa
  if 0 ≤ x.exponent then
    ((signed * twoTo x.exponent.toNat : Int) : Rat)
  else
    mkRat signed (twoTo (-x.exponent).toNat)

/-! ## Rounding -/

/-- The whole number nearest to `num / den`, a tie going to the even one. -/
def roundQuotient (num den : Nat) : Nat :=
  let q := num / den
  let twice := 2 * (num % den)
  if twice < den then q
  else if den < twice then q + 1
  else if q % 2 = 0 then q else q + 1

/-- Whole numbers whose ratio is that of `num / den` to `2 ^ e`. -/
def scaled (num den : Nat) (e : Int) : Nat × Nat :=
  if 0 ≤ e then (num, den * twoTo e.toNat) else (num * twoTo (-e).toNat, den)

/-- The `e` with `2 ^ e ≤ num / den < 2 ^ (e + 1)`, for a positive quotient. -/
def floorLog (num den : Nat) : Int :=
  let e : Int := (num.log2 : Int) - den.log2
  let (n, d) := scaled num den e
  if d ≤ n then e else e - 1

/-- The number `± m · 2 ^ e`, where rounding may have carried the mantissa to one bit
too many. It is a power of two then, which half the mantissa says as well. -/
def carried (negative : Bool) (m : Nat) (e : Int) : Binary :=
  if m = twoTo precision then ⟨negative, twoTo (precision - 1), e + 1⟩ else ⟨negative, m, e⟩

/-- The number nearest to `± num / den`, whatever exponent it takes. -/
def ofQuotient (negative : Bool) (num den : Nat) : Binary :=
  if num = 0 then ⟨negative, 0, 0⟩
  else
    let e := max (floorLog num den - (precision - 1)) minExponent
    let (n, d) := scaled num den e
    carried negative (roundQuotient n d) e

/-- The value of the number nearest to a positive one. -/
def rounded (r : Rat) : Rat := (ofQuotient false r.num.natAbs r.den).toRat

/-- How far a decimal may be from one before its exponent is cut off. -/
def reach : Nat := 400

/-- An exponent that is not so small that the decimal is below every number but
zero, nor so large that it is above them all. -/
def withinReach (digits : Nat) (e : Int) : Int :=
  min (max e (-((reach + 1 + digits.log2 : Nat) : Int))) reach

/-- A number is zero, of either sign, when its mantissa is. -/
def isZero (x : Binary) : Bool := x.mantissa == 0

end Binary

/-- A number with a fraction: a finite one, or what is beyond all finite ones. -/
inductive Fraction
  | finite (x : Binary)
  | infinite (negative : Bool)
deriving DecidableEq, Repr, Inhabited

/-- What numbers are compared by: an exact value, or the side on which it is beyond
all values. -/
inductive Magnitude
  | value (x : Rat)
  | infinite (negative : Bool)
deriving DecidableEq

namespace Fraction

/-- The number itself unless its exponent is too large. -/
def ofBinary (x : Binary) : Fraction :=
  if Binary.maxExponent < x.exponent then .infinite x.negative else .finite x

/-- The number nearest to the decimal `± digits · 10 ^ e`. -/
def ofDecimal (negative : Bool) (digits : Nat) (e : Int) : Fraction :=
  let e := Binary.withinReach digits e
  ofBinary <|
    if 0 ≤ e then Binary.ofQuotient negative (digits * Binary.tenTo e.toNat) 1
    else Binary.ofQuotient negative digits (Binary.tenTo (-e).toNat)

def magnitude : Fraction → Magnitude
  | .finite x => .value x.toRat
  | .infinite negative => .infinite negative

/-- The exact value of a finite number. -/
def value? : Fraction → Option Rat
  | .finite x => some x.toRat
  | .infinite _ => none

def isZero : Fraction → Bool
  | .finite x => x.isZero
  | .infinite _ => false

end Fraction

end ClientForge
