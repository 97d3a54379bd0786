-- SUMMARY: The decimal text of a binary fraction: the fewest digits that read back, and how they are laid out.
import ClientForge.Number.Binary

/-!
# Shortest decimals

`Binary.shortest` finds the fewest decimal digits that round back to a number:
of the two neighbours of its exact value on each decimal grid, from one digit
up, the first that lies in the interval of values rounding to the number, and of
two the nearer. `Binary.text` lays the digits out: positionally from `10 ^ -4`
to below `10 ^ 16`, always with a fraction, and with an exponent of at least two
digits outside that range.
-/

namespace ClientForge

namespace Binary

/-- The mantissa shifted to full precision, as far as the exponent allows. -/
def normal (x : Binary) : Nat × Int :=
  let room := precision - 1 - x.mantissa.log2
  let shift := min room (x.exponent - minExponent).toNat
  (x.mantissa * twoTo shift, x.exponent - shift)

/-! ## The interval of values that round to a number -/

/-- Everything between `low / den` and `high / den` rounds to `mid / den`; so do
the ends when `closed`. -/
structure Interval where
  low : Nat
  mid : Nat
  high : Nat
  den : Nat
  closed : Bool

def interval (x : Binary) : Interval :=
  let (m, e) := x.normal
  -- A power of two has its lower neighbour at half the distance.
  let below := if m = twoTo (precision - 1) ∧ minExponent < e then 1 else 2
  let q := e - 2
  let scale := twoTo q.toNat
  { low := (4 * m - below) * scale
    mid := 4 * m * scale
    high := (4 * m + 2) * scale
    den := twoTo (-q).toNat
    closed := m % 2 == 0 }

namespace Interval

/-- Whether `num / den` lies in the interval. -/
def holds (i : Interval) (num den : Nat) : Bool :=
  if i.closed then
    decide (i.low * den ≤ num * i.den ∧ num * i.den ≤ i.high * den)
  else
    decide (i.low * den < num * i.den ∧ num * i.den < i.high * den)

def digitCount (n : Nat) : Nat := (Nat.toDigits 10 n).length

/-- The `k` with `10 ^ k ≤ mid / den < 10 ^ (k + 1)`. -/
def decimalExponent (i : Interval) : Int :=
  if i.den ≤ i.mid then (digitCount (i.mid / i.den) : Int) - 1
  else
    let k := digitCount (i.den / i.mid)
    if i.den ≤ i.mid * tenTo (k - 1) then 1 - (k : Int) else -(k : Int)

/-- The neighbour of the number in the interval on the grid of multiples of
`10 ^ p`, the nearer if both are, as a multiple. -/
def onGrid? (i : Interval) (p : Int) : Option Nat :=
  let up := tenTo p.toNat
  let down := tenTo (-p).toNat
  let t := i.mid * down / (i.den * up)
  match i.holds (t * up) down, i.holds ((t + 1) * up) down with
  | true, false => some t
  | false, true => some (t + 1)
  | false, false => none
  | true, true =>
    let twice := 2 * i.mid * down
    let middle := (2 * t + 1) * up * i.den
    if twice < middle ∨ (twice = middle ∧ t % 2 = 0) then some t else some (t + 1)

/-- The first grid with a hit, from `digits` significant digits on. -/
def search (i : Interval) (k : Int) : Nat → Nat → Nat × Int
  | 0, _ => (0, 0)
  | fuel + 1, digits =>
    let p := k - digits + 1
    match i.onGrid? p with
    | some t => (t, p)
    | none => search i k fuel (digits + 1)

end Interval

/-- The `d` and `p` of the shortest decimal `d · 10 ^ p` that rounds to `|x|`.
Seventeen digits always suffice. -/
def shortest (x : Binary) : Nat × Int :=
  if x.isZero then (0, 0)
  else
    let i := x.interval
    i.search i.decimalExponent 17 1

/-! ## Layout -/

/-- Digits with the trailing zeros removed, but at least one digit. -/
def significant (digits : List Char) : List Char :=
  match (digits.reverse.dropWhile (· == '0')).reverse with
  | [] => ['0']
  | ds => ds

/-- The exponents of the first digit that are written positionally. -/
def positional (k : Int) : Bool := decide (-4 ≤ k ∧ k < 16)

def layPositional (ds : List Char) (k : Int) : List Char :=
  if k < 0 then
    '0' :: '.' :: List.replicate ((-k).toNat - 1) '0' ++ ds
  else
    let whole := k.toNat + 1
    let before := ds.take whole ++ List.replicate (whole - ds.length) '0'
    let after := ds.drop whole
    before ++ '.' :: (if after.isEmpty then ['0'] else after)

def layExponent (ds : List Char) (k : Int) : List Char :=
  let e := Nat.toDigits 10 k.natAbs
  let padded := if e.length < 2 then '0' :: e else e
  let fraction := match ds.tail with
    | [] => []
    | rest => '.' :: rest
  ds.take 1 ++ fraction ++ 'e' :: (if k < 0 then '-' else '+') :: padded

/-- The decimal text of a number. -/
def text (x : Binary) : List Char :=
  let (d, p) := x.shortest
  let digits := Nat.toDigits 10 d
  let k := p + digits.length - 1
  let ds := significant digits
  let body := if positional k then layPositional ds k else layExponent ds k
  if x.negative then '-' :: body else body

end Binary

/-- The text of a number, in which `word` stands for what is beyond all finite ones. -/
def Fraction.textWith (word : List Char) : Fraction → List Char
  | .finite x => x.text
  | .infinite negative => if negative then '-' :: word else word

/-- The text of a number in messages and generated text. -/
def Fraction.text (x : Fraction) : List Char := x.textWith "inf".toList

/-- The text of a number in JSON. -/
def Fraction.written (x : Fraction) : List Char := x.textWith "Infinity".toList

end ClientForge
