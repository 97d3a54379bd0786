-- SUMMARY: The lines of a text, and blocks of text set in by some columns.
import ClientForge.Text.Blank

/-!
# Lines

A line ends at a line feed, a carriage return with or without a line feed, a
vertical tab, a form feed, one of the separators U+001C to U+001E, U+0085,
U+2028 or U+2029. `Text.setIn` moves a block to the right; its line ends become
line feeds and its empty lines stay empty, the first one apart.
-/

namespace ClientForge

namespace Text

def lineBreaks : List Nat :=
  [0x0A, 0x0B, 0x0C, 0x0D, 0x1C, 0x1D, 0x1E, 0x85, 0x2028, 0x2029]

def isLineBreak (c : Char) : Bool := lineBreaks.contains c.toNat

/-- A line: what it says and the break that ends it, empty at the end of a text
without one. -/
structure Line where
  content : List Char
  ending : List Char
deriving DecidableEq, Repr

def Line.whole (l : Line) : List Char := l.content ++ l.ending

/-- Put a character in front of the first of some lines. -/
def pushChar (c : Char) : List Line → List Line
  | [] => [⟨[c], []⟩]
  | l :: ls => { l with content := c :: l.content } :: ls

/-- The lines of a text. A break at the very end opens no further line. -/
def lines : List Char → List Line
  | [] => []
  | '\r' :: '\n' :: cs => ⟨[], ['\r', '\n']⟩ :: lines cs
  | c :: cs => if isLineBreak c then ⟨[], [c]⟩ :: lines cs else pushChar c (lines cs)

/-- A block of text set in by `width` columns, the first line always and the
others unless they are empty. -/
def setIn (width : Nat) (block : List Char) : List Char :=
  let margin := List.replicate width ' '
  match lines (block ++ ['\n']) with
  | [] => margin
  | first :: rest =>
    margin ++ first.content ++
      rest.flatMap fun l => '\n' :: (if l.content.isEmpty then [] else margin ++ l.content)

/-- The runs of a text that each end with their blanks. -/
def runs : List Char → List (List Char)
  | [] => []
  | c :: cs =>
    match cs with
    | [] => [[c]]
    | d :: _ =>
      if isBlank c ∧ !isBlank d then [c] :: runs cs
      else
        match runs cs with
        | [] => [[c]]
        | r :: rs => (c :: r) :: rs

end Text

end ClientForge
