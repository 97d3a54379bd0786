-- SUMMARY: The words of a text: runs of letters and digits, cut at the humps of mixed case.
import ClientForge.Text.Digit

/-!
# Words

A word character is an ASCII letter or a decimal digit of any script; anything
else separates words. Inside a run of word characters a new word starts

- at a capital after small letters or digits,
- at the last capital of several when a small letter follows (`XMLFile` is
  `XML`, `File`),
- at a small letter after digits that did not follow small letters, and
- at a digit of another script after small letters and ASCII digits.

`Words.Phase` is what the current word has shown so far; one pass with one
character of lookahead decides every cut.
-/

namespace ClientForge

namespace Words

/-- A word character: an ASCII letter or a decimal digit of any script. -/
def isWordChar (c : Char) : Bool := c.isUpper || c.isLower || Text.isDecimal c

/-- What the current word has shown so far. -/
inductive Phase
  /-- No word is open. -/
  | gap
  /-- One capital. -/
  | capital
  /-- Several capitals. -/
  | capitals
  /-- Small letters and ASCII digits, perhaps after one capital. -/
  | small
  /-- Digits that no small letter came before. -/
  | digits
deriving DecidableEq, Repr

/-- What a character does to the current word. -/
inductive Step
  | separate
  | start (phase : Phase)
  | extend (phase : Phase)
deriving DecidableEq, Repr

/-- What a capital does; `humped` when a small letter follows it. -/
def Phase.atCapital (humped : Bool) : Phase → Step
  | .gap => .start .capital
  | .capital => if humped then .start .capital else .extend .capitals
  | .capitals => if humped then .start .capital else .extend .capitals
  | .small => .start .capital
  | .digits => .start .capital

def Phase.atSmall : Phase → Step
  | .gap => .start .small
  | .capital => .extend .small
  | .capitals => .start .small
  | .small => .extend .small
  | .digits => .start .small

/-- What an ASCII digit does. -/
def Phase.atDigit : Phase → Step
  | .gap => .start .small
  | .capital => .extend .small
  | .capitals => .extend .digits
  | .small => .extend .small
  | .digits => .extend .digits

/-- What a digit of another script does. -/
def Phase.atOtherDigit : Phase → Step
  | .gap => .start .digits
  | .capital => .extend .digits
  | .capitals => .extend .digits
  | .small => .start .digits
  | .digits => .extend .digits

/-- What `c` does to a word in a phase; `humped` when a small letter follows it. -/
def Phase.step (p : Phase) (c : Char) (humped : Bool) : Step :=
  if c.isUpper then p.atCapital humped
  else if c.isLower then p.atSmall
  else if c.isDigit then p.atDigit
  else if Text.isDecimal c then p.atOtherDigit
  else .separate

def startsSmall : List Char → Bool
  | [] => false
  | c :: _ => c.isLower

/-- The current word, if any, as the last of its kind. -/
def close (word : List Char) : List (List Char) :=
  if word.isEmpty then [] else [word]

/-- The words of the rest of a text, `word` being the one in progress. -/
def scan : Phase → List Char → List Char → List (List Char)
  | _, word, [] => close word
  | p, word, c :: cs =>
    match p.step c (startsSmall cs) with
    | .separate => close word ++ scan .gap [] cs
    | .start q => close word ++ scan q [c] cs
    | .extend q => scan q (word ++ [c]) cs

/-- The words of a text, in order. -/
def split (cs : List Char) : List (List Char) := scan .gap [] cs

end Words

end ClientForge
