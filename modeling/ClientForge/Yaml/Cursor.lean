-- SUMMARY: A place in a YAML text, and what the blanks and line breaks after it stand for.

/-!
# Places in a text

A cursor carries its line and its column, by which blocks are told apart, and what
follows it. A line ends at a line feed or at one of the separators U+2028 and
U+2029; other line ends have become line feeds before. `Cursor.gap` reads what lies
between two words of a scalar, where line breaks are folded.

The fuel of a loop bounds its steps; the number of characters ahead suffices.
-/

namespace ClientForge

namespace Yaml

/-- A place in a text: where it is and what follows. The offset counts the
characters before it, the column those before it on its line. -/
structure Cursor where
  line : Nat
  column : Nat
  offset : Nat
  rest : List Char
deriving Repr

/-! ## Characters -/

def isBreak (c : Char) : Bool := c == '\n' || c == '\u2028' || c == '\u2029'

/-- Whether a character, or the end, separates what is before it. -/
def endsWord : Option Char → Bool
  | none => true
  | some c => c == ' ' || c == '\t' || isBreak c

/-- The mark of a byte order, which takes up no column. -/
def orderMark : Char := '\uFEFF'

/-- Whether three dashes or three dots stand on their own. -/
def isMarker : List Char → Bool
  | a :: b :: c :: rest => (a == '-' || a == '.') && a == b && b == c && endsWord rest.head?
  | _ => false

/-- What line breaks between two words stand for: a single line feed is a blank,
the first of several says nothing, and all others stand for themselves. -/
def folded : List Char → List Char
  | [] => []
  | [c] => if c = '\n' then [' '] else [c]
  | c :: cs => if c = '\n' then cs else c :: cs

/-! ## Moving on -/

namespace Cursor

/-- The start of a text, past the mark of its byte order. -/
def start (cs : List Char) : Cursor :=
  match cs with
  | [] => ⟨0, 0, 0, []⟩
  | c :: rest => if c = orderMark then ⟨0, 0, 1, rest⟩ else ⟨0, 0, 0, cs⟩

/-- One character further. -/
def step (c : Cursor) : Cursor :=
  match c.rest with
  | [] => c
  | d :: rest =>
    if isBreak d then ⟨c.line + 1, 0, c.offset + 1, rest⟩
    else ⟨c.line, if d = orderMark then c.column else c.column + 1, c.offset + 1, rest⟩

def advance : Nat → Cursor → Cursor
  | 0, c => c
  | n + 1, c => advance n c.step

/-- Past the characters of a kind. -/
def past (p : Char → Bool) (c : Cursor) : Cursor := c.advance (c.rest.takeWhile p).length

/-- Past blanks, line breaks and comments, which run to the end of their line. -/
def next : Nat → Cursor → Cursor
  | 0, c => c
  | fuel + 1, c =>
    match c.rest with
    | [] => c
    | d :: _ =>
      if d = ' ' ∨ isBreak d then next fuel c.step
      else if d = '#' then next fuel (c.past (!isBreak ·))
      else c

/-- Whether a line starts here that starts or ends a document. -/
def atMarker (c : Cursor) : Bool := c.column == 0 && isMarker c.rest

/-! ## Between two words -/

/-- The line breaks ahead with blanks around them, and the place after them. -/
def breaks (isBlank : Char → Bool) : Nat → Cursor → List Char × Cursor
  | 0, c => ([], c)
  | fuel + 1, c =>
    match c.rest with
    | [] => ([], c)
    | d :: _ =>
      if isBreak d then
        let (more, last) := breaks isBlank fuel c.step
        (d :: more, last)
      else if isBlank d then breaks isBlank fuel c.step
      else ([], c)

/-- What the blanks and line breaks ahead stand for, and the place after them.
Blanks on one line stand for themselves, those around a break for nothing. -/
def gap (isBlank : Char → Bool) (fuel : Nat) (c : Cursor) : List Char × Cursor :=
  let ahead := c.past isBlank
  let (found, last) := breaks isBlank fuel ahead
  if found.isEmpty then (c.rest.takeWhile isBlank, ahead) else (folded found, last)

end Cursor

end Yaml

end ClientForge
