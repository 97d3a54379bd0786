-- SUMMARY: What an unquoted YAML scalar stands for.
import ClientForge.Json.Display
import ClientForge.Json.Reader
import ClientForge.Text.Parts

/-!
# Scalars

An unquoted scalar is null, a truth value, a whole number or a number with a
fraction if it is written like one, and a text otherwise. Numbers may hold
underscores. Whole numbers may be binary, octal or hexadecimal, or in base sixty
with colons; a number with a fraction has a point, and its exponent a sign, or it
is in base sixty too, or a word for what is beyond all numbers. The undefined number,
dates and times are written unquoted too, but are no `Json`. Two signs are no values:
`<<` and `=`.
-/

namespace ClientForge

namespace Yaml

/-- What an unquoted scalar stands for. -/
inductive Meaning
  | value (v : Json)
  /-- As a key, that the members of its value belong here. -/
  | merge
  /-- As a key, the text of the sign itself. -/
  | equals
deriving Repr

def nullWords : List String := ["", "~", "null", "Null", "NULL"]

def trueWords : List String :=
  ["yes", "Yes", "YES", "true", "True", "TRUE", "on", "On", "ON"]

def falseWords : List String :=
  ["no", "No", "NO", "false", "False", "FALSE", "off", "Off", "OFF"]

/-! ## Digits -/

/-- A digit of a base or an underscore. -/
def isDigitOf (base : Nat) (c : Char) : Bool :=
  c == '_' ||
    match Json.Reader.hexValue? c with
    | some d => decide (d < base)
    | none => false

/-- Digits without the underscores among them. -/
def bare (cs : List Char) : List Char := cs.filter (· ≠ '_')

/-- The value of digits in a base. -/
def inBase (base : Nat) (cs : List Char) : Nat :=
  cs.foldl (fun n c => base * n + (Json.Reader.hexValue? c).getD 0) 0

/-- A sign in front, if there is one, and the rest. -/
def signed : List Char → Bool × List Char
  | '-' :: cs => (true, cs)
  | '+' :: cs => (false, cs)
  | cs => (false, cs)

/-- A part after a colon: one or two digits, of a number below sixty. -/
def isSixtieth : List Char → Bool
  | [d] => d.isDigit
  | [t, d] => decide ('0' ≤ t ∧ t ≤ '5') && d.isDigit
  | _ => false

/-- Digits and underscores, a digit first. -/
def isDigits : List Char → Bool
  | [] => false
  | c :: cs => c.isDigit && cs.all (isDigitOf 10)

/-! ## Whole numbers -/

/-- How a whole number is written. -/
inductive Numeral
  | inBase (base : Nat) (digits : List Char)
  | inSixties (first : List Char) (parts : List (List Char))
deriving DecidableEq, Repr

/-- A number in base sixty has no leading zero, and a colon at least. -/
def sixties? (cs : List Char) : Option Numeral :=
  match Text.parts ':' cs with
  | first :: p :: ps =>
    if isDigits first && first.head? != some '0' && (p :: ps).all isSixtieth then
      some (.inSixties first (p :: ps))
    else none
  | _ => none

/-- The numeral that unsigned characters are. -/
def numeral? : List Char → Option Numeral
  | [] => none
  | ['0'] => some (.inBase 10 ['0'])
  | '0' :: 'b' :: ds =>
    if !ds.isEmpty && ds.all (isDigitOf 2) then some (.inBase 2 ds) else none
  | '0' :: 'x' :: ds =>
    if !ds.isEmpty && ds.all (isDigitOf 16) then some (.inBase 16 ds) else none
  | '0' :: ds => if ds.all (isDigitOf 8) then some (.inBase 8 ('0' :: ds)) else none
  | cs => if isDigits cs then some (.inBase 10 cs) else sixties? cs

/-- The number of a decimal numeral that may be too long to be read. -/
def decimal (digits : List Char) : Except ReadFault Nat :=
  if Text.mostDigits < digits.length then .error .noNumber else .ok (inBase 10 digits)

/-- The number that a numeral stands for: none if it has underscores only, or too many
decimal digits. -/
def Numeral.value : Numeral → Except ReadFault Nat
  | .inBase base written =>
    let digits := bare written
    if digits.isEmpty then .error .noNumber
    else if base = 10 then decimal digits
    else .ok (Yaml.inBase base digits)
  | .inSixties first parts => do
    return parts.foldl (fun n part => 60 * n + Yaml.inBase 10 part) (← decimal (bare first))

/-! ## Numbers with a fraction -/

/-- An exponent, which must have a sign; none written counts as zero. -/
def exponent? (cs : List Char) : Option Int :=
  match cs with
  | [] => some 0
  | e :: sign :: ds =>
    if (e == 'e' || e == 'E') && (sign == '-' || sign == '+') && !ds.isEmpty &&
        ds.all Char.isDigit then
      let n : Int := Json.Reader.natOf ds
      some (if sign = '-' then -n else n)
    else none
  | _ => none

/-- The number of digits before and after a point, with an exponent. -/
def pointed (negative : Bool) (whole digits : List Char) (e : Int) : Fraction :=
  Fraction.ofDecimal negative (inBase 10 (bare (whole ++ digits))) (e - (bare digits).length)

/-- The number with a point that characters write. -/
def fraction? (cs : List Char) : Option Fraction :=
  let (negative, body) := signed cs
  let whole := body.takeWhile (isDigitOf 10)
  match body.dropWhile (isDigitOf 10) with
  | '.' :: rest =>
    let digits := rest.takeWhile (isDigitOf 10)
    -- Digits before the point start with a digit; without any, no sign is
    -- allowed and some must follow, the first no underscore.
    let wellFormed :=
      if whole.isEmpty then isDigits digits && body.length == cs.length else isDigits whole
    if wellFormed then
      (exponent? (rest.dropWhile (isDigitOf 10))).map (pointed negative whole digits)
    else none
  | _ => none

/-- The sum of parts in base sixty, the last one first, where `unit` is what the next
one counts; each step is rounded. -/
def sumOfSixties (sum : Rat) (unit : Nat) : List Rat → Rat
  | [] => sum
  | part :: parts =>
    let term := Binary.rounded (part * Binary.rounded unit)
    sumOfSixties (Binary.rounded (sum + term)) (60 * unit) parts

/-- The number in base sixty with a point in its last part that characters write. -/
def sixtiesFraction? (cs : List Char) : Option Fraction :=
  let (negative, body) := signed cs
  match Text.parts ':' (body.takeWhile (· ≠ '.')), body.dropWhile (· ≠ '.') with
  | first :: p :: ps, '.' :: digits =>
    let parts := p :: ps
    if isDigits first && parts.all isSixtieth && digits.all (isDigitOf 10) then
      let last := pointed false (parts.getLastD []) digits 0
      let others := (first :: parts.dropLast).map fun part => pointed false part [] 0
      match (others ++ [last]).mapM Fraction.value? with
      | none => some (.infinite negative)
      | some values =>
        let sum := sumOfSixties 0 1 values.reverse
        some (.ofBinary (Binary.ofQuotient negative sum.num.natAbs sum.den))
    else none
  | _, _ => none

def infiniteWords : List String := [".inf", ".Inf", ".INF"]

def undefinedWords : List String := [".nan", ".NaN", ".NAN"]

/-- What is beyond all numbers on one side. -/
def infinite? (cs : List Char) : Option Fraction :=
  let (negative, body) := signed cs
  if String.ofList body ∈ infiniteWords then some (.infinite negative) else none

/-! ## Dates and times -/

/-- What follows at least and at most so many digits. -/
def afterDigits (least most : Nat) (cs : List Char) : Option (List Char) :=
  let found := (cs.take most).takeWhile Char.isDigit
  if least ≤ found.length then some (cs.drop found.length) else none

/-- What follows a character. -/
def afterChar (c : Char) : List Char → Option (List Char)
  | [] => none
  | d :: cs => if d = c then some cs else none

/-- What follows a year, a month and a day of at least so many digits. -/
def afterDate (least : Nat) (cs : List Char) : Option (List Char) := do
  let cs ← afterChar '-' (← afterDigits 4 4 cs)
  let cs ← afterChar '-' (← afterDigits least 2 cs)
  afterDigits least 2 cs

def isGap (c : Char) : Bool := c == ' ' || c == '\t'

/-- What follows the sign or the gap between a date and a time. -/
def afterDateMark : List Char → Option (List Char)
  | [] => none
  | c :: cs => if c = 'T' ∨ c = 't' then some cs else if isGap c then some (cs.dropWhile isGap) else none

/-- What follows hours, minutes and seconds with their fraction. -/
def afterTime (cs : List Char) : Option (List Char) := do
  let cs ← afterChar ':' (← afterDigits 1 2 cs)
  let cs ← afterChar ':' (← afterDigits 2 2 cs)
  let cs ← afterDigits 2 2 cs
  return match cs with
  | '.' :: fraction => fraction.dropWhile Char.isDigit
  | _ => cs

/-- The distance from the time at Greenwich, or none. -/
def isZone : List Char → Bool
  | [] => true
  | ['Z'] => true
  | sign :: cs =>
    (sign == '-' || sign == '+') &&
      match afterDigits 1 2 cs with
      | none => false
      | some [] => true
      | some rest => (afterChar ':' rest).bind (afterDigits 2 2) == some []

/-- Whether characters write a date, or a date and a time. -/
def isTimestamp (cs : List Char) : Bool :=
  afterDate 2 cs == some [] ||
    match (afterDate 1 cs).bind afterDateMark |>.bind afterTime with
    | none => false
    | some rest => isZone (rest.dropWhile isGap)

/-! ## All scalars -/

/-- The value of an unquoted scalar that is none of the words. -/
def valueOf (cs : List Char) : Except ReadFault Json :=
  let (negative, body) := signed cs
  match numeral? body with
  | some numeral => numeral.value.map fun n => .int (if negative then -(n : Int) else n)
  | none =>
    match (fraction? cs).or ((sixtiesFraction? cs).or (infinite? cs)) with
    | some x => .ok (.float x)
    | none => .ok (.str (String.ofList cs))

/-- What an unquoted scalar stands for; a fault if it is written like a number and is
none. -/
def meaning (cs : List Char) : Except ReadFault Meaning :=
  let s := String.ofList cs
  if s ∈ nullWords then .ok (.value .null)
  else if s ∈ trueWords then .ok (.value (.bool true))
  else if s ∈ falseWords then .ok (.value (.bool false))
  else if s = "<<" then .ok .merge
  else if s = "=" then .ok .equals
  else if s ∈ undefinedWords ∨ isTimestamp cs then .error .outside
  else (valueOf cs).map .value

end Yaml

end ClientForge
