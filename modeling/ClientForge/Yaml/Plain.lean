-- SUMMARY: Scalars without quotes.
import ClientForge.Yaml.Cursor

/-!
# Plain scalars

A plain scalar is a run of words. It ends before a comment, before a colon that
ends a key, before a line that is not indented more deeply than the block around it
or that starts or ends a document, and between brackets or braces before their marks.
-/

namespace ClientForge

namespace Yaml

def isPlainBlank (c : Char) : Bool := c == ' '

/-- Characters that end a plain scalar between brackets or braces. -/
def flowMarks : List Char := [',', '?', '[', ']', '\x7b', '\x7d']

/-- Whether a colon in front of `next` ends a plain scalar. -/
def colonEnds (flow : Bool) (next : Option Char) : Bool :=
  endsWord next || (flow && next.any fun c => c != '?' && flowMarks.contains c)

/-- The part of a plain scalar up to the next blank or mark. -/
def plainWord (flow : Bool) : List Char → List Char
  | [] => []
  | c :: cs =>
    if endsWord (some c) then []
    else if c = ':' ∧ colonEnds flow cs.head? then []
    else if flow ∧ flowMarks.contains c then []
    else c :: plainWord flow cs

/-- A plain scalar that has been read: its text, the line of its last word, and the
place after it and the gap that follows it. -/
structure PlainScalar where
  text : List Char
  line : Nat
  after : Cursor

/-- Whether a plain scalar does not go on after a gap. -/
def plainStops (flow : Bool) (indent : Int) (blanks : List Char) (next : Cursor) : Bool :=
  blanks.isEmpty || next.atMarker || next.rest.head? == some '#' ||
    (!flow && decide ((next.column : Int) ≤ indent))

/-- The plain scalar that starts here; `indent` is the column of the block around it,
-1 at the top. -/
def plain (flow : Bool) (indent : Int) : Nat → Cursor → PlainScalar
  | 0, c => ⟨[], c.line, c⟩
  | fuel + 1, c =>
    let word := plainWord flow c.rest
    let last := c.advance word.length
    let (blanks, next) := last.gap isPlainBlank fuel
    if plainStops flow indent blanks next || (plainWord flow next.rest).isEmpty then
      ⟨word, last.line, next⟩
    else
      let more := plain flow indent fuel next
      { more with text := word ++ blanks ++ more.text }

/-- Characters that no plain scalar starts with, or not with them alone. -/
def indicators : List Char :=
  ['-', '?', ':', ',', '[', ']', '\x7b', '\x7d', '#', '&', '*', '!', '|', '>', '\'', '"', '%',
    '@', '\x60']

/-- Whether a plain scalar can start here. A dash may start one, and outside
brackets and braces a question mark and a colon, if it goes on at once. -/
def startsPlain (flow : Bool) : List Char → Bool
  | [] => false
  | c :: rest =>
    (!endsWord (some c) && !indicators.contains c) ||
      (!endsWord rest.head? && (c == '-' || (!flow && (c == '?' || c == ':'))))

end Yaml

end ClientForge
