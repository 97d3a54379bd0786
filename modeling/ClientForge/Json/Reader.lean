-- SUMMARY: Reading JSON text.
import ClientForge.Json.Basic
import ClientForge.Text.Digit

/-!
# Reading JSON

`Json.read` reads a whole text as one value. Numbers without fraction and
exponent are whole numbers of up to `Text.mostDigits` digits, others are read to
the nearest binary fraction; texts hold no raw control character; a repeated key
keeps its first place and its last value. `Infinity`, with a minus or without, is
the number beyond all finite ones. Two things that can be written are no `Json`:
the undefined number, and a text in which half of a surrogate pair stands alone.
-/

namespace ClientForge

/-- Why a text cannot be read as a value. -/
inductive ReadFault
  /-- It is not written as one. -/
  | illFormed
  /-- Something in it that is written like a number stands for none. -/
  | noNumber
  /-- It nests more deeply than its reader follows. -/
  | tooDeep
  /-- It is the text of something that is no `Json`, such as a date, the undefined number or
  half of a surrogate pair, or it is written in a form that its reader does not follow. -/
  | outside
deriving DecidableEq, Repr

namespace Json

namespace Reader

def isSpace (c : Char) : Bool := c == ' ' || c == '\t' || c == '\n' || c == '\r'

def skipSpace (cs : List Char) : List Char := cs.dropWhile isSpace

/-! ## Texts -/

def hexValue? (c : Char) : Option Nat :=
  if c.isDigit then some (c.toNat - '0'.toNat)
  else if 'a' ≤ c ∧ c ≤ 'f' then some (c.toNat - 'a'.toNat + 10)
  else if 'A' ≤ c ∧ c ≤ 'F' then some (c.toNat - 'A'.toNat + 10)
  else none

def unit? (a b c d : Char) : Option Nat := do
  return (((← hexValue? a) * 16 + (← hexValue? b)) * 16 + (← hexValue? c)) * 16 + (← hexValue? d)

def escaped? (c : Char) : Option Nat :=
  match c with
  | '"' => some 0x22
  | '\\' => some 0x5C
  | '/' => some 0x2F
  | 'b' => some 0x08
  | 'f' => some 0x0C
  | 'n' => some 0x0A
  | 'r' => some 0x0D
  | 't' => some 0x09
  | _ => none

/-- The numbers of the characters and escapes up to the closing quote, and what
follows it. -/
def units : List Char → Except ReadFault (List Nat × List Char)
  | [] => .error .illFormed
  | '"' :: rest => .ok ([], rest)
  | '\\' :: 'u' :: a :: b :: c :: d :: rest =>
    match unit? a b c d with
    | none => .error .illFormed
    | some n => do
      let (ns, rest') ← units rest
      return (n :: ns, rest')
  | '\\' :: c :: rest =>
    match escaped? c with
    | none => .error .illFormed
    | some n => do
      let (ns, rest') ← units rest
      return (n :: ns, rest')
  | c :: rest =>
    if c.toNat < 0x20 then .error .illFormed
    else do
      let (ns, rest') ← units rest
      return (c.toNat :: ns, rest')

/-- The number of a surrogate pair. -/
def pair? (n m : Nat) : Option Nat :=
  if 0xD800 ≤ n ∧ n < 0xDC00 ∧ 0xDC00 ≤ m ∧ m < 0xE000 then
    some (0x10000 + (n - 0xD800) * 0x400 + (m - 0xDC00))
  else none

/-- The numbers with the two halves of every surrogate pair joined. -/
def joinUnits : List Nat → List Nat
  | [] => []
  | [n] => [n]
  | n :: m :: ns =>
    match pair? n m with
    | some joined => joined :: joinUnits ns
    | none => n :: joinUnits (m :: ns)

/-- The character of a number; half of a surrogate pair is none. -/
def charOf (n : Nat) : Except ReadFault Char :=
  if n.isValidChar then .ok (Char.ofNat n) else .error .outside

/-- A text whose opening quote has been read. -/
def text (cs : List Char) : Except ReadFault (String × List Char) := do
  let (ns, rest) ← units cs
  return (String.ofList (← (joinUnits ns).mapM charOf), rest)

/-! ## Numbers -/

def digits (cs : List Char) : List Char × List Char :=
  (cs.takeWhile Char.isDigit, cs.dropWhile Char.isDigit)

def natOf (ds : List Char) : Nat := ds.foldl (fun n d => 10 * n + (d.toNat - '0'.toNat)) 0

/-- The digits before the point: a lone zero, or digits not starting with one. -/
def wholePart (cs : List Char) : Option (List Char × List Char) :=
  match cs with
  | '0' :: rest => some (['0'], rest)
  | _ =>
    match digits cs with
    | ([], _) => none
    | found => some found

/-- A point with digits after it, if the text goes on with one. -/
def fractionPart (cs : List Char) : List Char × List Char :=
  match cs with
  | '.' :: rest =>
    match digits rest with
    | ([], _) => ([], cs)
    | found => found
  | _ => ([], cs)

/-- An exponent, if the text goes on with one. -/
def exponentPart (cs : List Char) : Option Int × List Char :=
  match cs with
  | [] => (none, cs)
  | e :: rest =>
    if e = 'e' ∨ e = 'E' then
      let (negative, rest) := match rest with
        | '-' :: rest => (true, rest)
        | '+' :: rest => (false, rest)
        | rest => (false, rest)
      match digits rest with
      | ([], _) => (none, cs)
      | (ds, rest) =>
        let n : Int := natOf ds
        (some (if negative then -n else n), rest)
    else (none, cs)

/-- A number from its digits before the point, those after it and its exponent. -/
def numberOf (negative : Bool) (whole fraction : List Char) (exponent : Option Int) :
    Except ReadFault Json :=
  if fraction.isEmpty ∧ exponent.isNone then
    let n : Int := natOf whole
    if Text.mostDigits < whole.length then .error .noNumber
    else .ok (.int (if negative then -n else n))
  else
    let e := exponent.getD 0 - fraction.length
    .ok (.float (Fraction.ofDecimal negative (natOf (whole ++ fraction)) e))

/-- A minus in front, if there is one, and the rest. -/
def minus : List Char → Bool × List Char
  | '-' :: rest => (true, rest)
  | cs => (false, cs)

def number (cs : List Char) : Except ReadFault (Json × List Char) :=
  let (negative, cs) := minus cs
  match wholePart cs with
  | none => .error .illFormed
  | some (whole, rest) =>
    let (fraction, rest) := fractionPart rest
    let (exponent, rest) := exponentPart rest
    (numberOf negative whole fraction exponent).map fun v => (v, rest)

/-! ## Values -/

/-- What follows a word, if the text starts with it. -/
def after? (word : List Char) (cs : List Char) : Option (List Char) :=
  if word.isPrefixOf cs then some (cs.drop word.length) else none

/-- The words that stand for a value, and the one that stands for none. -/
def constants : List (List Char × Except ReadFault Json) :=
  [("null".toList, .ok .null), ("true".toList, .ok (.bool true)),
    ("false".toList, .ok (.bool false)), ("Infinity".toList, .ok (.float (.infinite false))),
    ("-Infinity".toList, .ok (.float (.infinite true))), ("NaN".toList, .error .outside)]

/-- The first of some words that the text starts with, and what follows it. -/
def constantOf? : List (List Char × Except ReadFault Json) → List Char →
    Option (Except ReadFault (Json × List Char))
  | [], _ => none
  | (word, v) :: others, cs =>
    match after? word cs with
    | some rest => some (v.map fun v => (v, rest))
    | none => constantOf? others cs

mutual

/-- A value at the start of a text, and what follows it. The fuel bounds the
number of nested and neighbouring values; the length of the text suffices. -/
def value : Nat → List Char → Except ReadFault (Json × List Char)
  | 0, _ => .error .illFormed
  | fuel + 1, cs =>
    match cs with
    | '"' :: rest => do
      let (s, rest) ← text rest
      return (.str s, rest)
    | '[' :: rest =>
      match skipSpace rest with
      | ']' :: rest => .ok (.arr [], rest)
      | rest => do
        let (vs, rest) ← items fuel rest
        return (.arr vs, rest)
    | '\x7b' :: rest =>
      match skipSpace rest with
      | '\x7d' :: rest => .ok (.obj [], rest)
      | rest => do
        let (ms, rest) ← members fuel rest
        return (.obj (Members.ofWritten ms), rest)
    | _ =>
      match constantOf? constants cs with
      | some found => found
      | none => number cs

/-- The values of an array up to its closing bracket. -/
def items : Nat → List Char → Except ReadFault (List Json × List Char)
  | 0, _ => .error .illFormed
  | fuel + 1, cs => do
    let (v, rest) ← value fuel cs
    match skipSpace rest with
    | ']' :: rest => return ([v], rest)
    | ',' :: rest =>
      let (vs, rest) ← items fuel (skipSpace rest)
      return (v :: vs, rest)
    | _ => .error .illFormed

/-- The members of an object up to its closing brace, as written. -/
def members : Nat → List Char → Except ReadFault (List (Key × Json) × List Char)
  | 0, _ => .error .illFormed
  | fuel + 1, cs =>
    match cs with
    | '"' :: rest => do
      let (k, rest) ← text rest
      match skipSpace rest with
      | ':' :: rest =>
        let (v, rest) ← value fuel (skipSpace rest)
        match skipSpace rest with
        | '\x7d' :: rest => return ([(.text k, v)], rest)
        | ',' :: rest =>
          let (ms, rest) ← members fuel (skipSpace rest)
          return ((.text k, v) :: ms, rest)
        | _ => .error .illFormed
      | _ => .error .illFormed
    | _ => .error .illFormed

end

end Reader

/-- The value that a whole text denotes. -/
def read (cs : List Char) : Except ReadFault Json := do
  let (v, rest) ← Reader.value (cs.length + 1) (Reader.skipSpace cs)
  if (Reader.skipSpace rest).isEmpty then .ok v else .error .illFormed

end Json

end ClientForge
