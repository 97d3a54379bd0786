-- SUMMARY: Texts in single and in double quotes.
import ClientForge.Json.Reader
import ClientForge.Yaml.Cursor

/-!
# Quoted texts

Between single quotes a doubled quote stands for one. Between double quotes a
backslash escapes a character, or the end of a line; two escaped halves of a surrogate
pair are not joined. Either text may go on over several lines, but not past a line that
starts or ends a document.
-/

namespace ClientForge

namespace Yaml

def isQuotedBlank (c : Char) : Bool := c == ' ' || c == '\t'

/-- A place within quotes. -/
def withinQuotes (c : Cursor) : Except ReadFault Cursor :=
  if c.atMarker then .error .illFormed else .ok c

/-! ## Single quotes -/

/-- A text in single quotes whose opening quote has been read, and the place after
it. -/
def single : Nat → Cursor → Except ReadFault (List Char × Cursor)
  | 0, _ => .error .illFormed
  | fuel + 1, c =>
    match c.rest with
    | [] => .error .illFormed
    | '\'' :: '\'' :: _ => do
      let (cs, last) ← single fuel (c.advance 2)
      return ('\'' :: cs, last)
    | '\'' :: _ => .ok ([], c.step)
    | d :: _ =>
      if endsWord (some d) then do
        let (blanks, next) := c.gap isQuotedBlank fuel
        let (cs, last) ← single fuel (← withinQuotes next)
        return (blanks ++ cs, last)
      else do
        let (cs, last) ← single fuel c.step
        return (d :: cs, last)

/-! ## Double quotes -/

/-- The characters that a backslash and a letter stand for. -/
def escapes : List (Char × Nat) :=
  [('0', 0x00), ('a', 0x07), ('b', 0x08), ('t', 0x09), ('\t', 0x09), ('n', 0x0A), ('v', 0x0B),
    ('f', 0x0C), ('r', 0x0D), ('e', 0x1B), (' ', 0x20), ('"', 0x22), ('\\', 0x5C), ('/', 0x2F),
    ('N', 0x85), ('_', 0xA0), ('L', 0x2028), ('P', 0x2029)]

/-- How many hexadecimal digits follow a letter that announces a character by its
number. -/
def numberedEscapes : List (Char × Nat) := [('x', 2), ('u', 4), ('U', 8)]

def hexNumber? (cs : List Char) : Option Nat :=
  cs.foldlM (fun n c => do return 16 * n + (← Json.Reader.hexValue? c)) 0

/-- What follows a backslash: the number of the character meant, and how many
characters say so. -/
def escape : List Char → Except ReadFault (Nat × Nat)
  | [] => .error .illFormed
  | d :: rest =>
    match escapes.lookup d, numberedEscapes.lookup d with
    | some n, _ => .ok (n, 1)
    | none, none => .error .illFormed
    | none, some width =>
      match hexNumber? (rest.take width) with
      | none => .error .illFormed
      | some n =>
        if rest.length < width then .error .illFormed
        else if n < 0x110000 then .ok (n, width + 1)
        else .error .noNumber

/-- The numbers of the characters of a text in double quotes whose opening quote has been read, and the
place after it. -/
def double : Nat → Cursor → Except ReadFault (List Nat × Cursor)
  | 0, _ => .error .illFormed
  | fuel + 1, c =>
    match c.rest with
    | [] => .error .illFormed
    | '"' :: _ => .ok ([], c.step)
    | '\\' :: rest =>
      if rest.head?.any isBreak then do
        -- The break is left out together with the blanks after it.
        let (more, next) := (c.advance 2).breaks isQuotedBlank fuel
        let (ns, last) ← double fuel (← withinQuotes next)
        return (more.map Char.toNat ++ ns, last)
      else do
        let (n, width) ← escape rest
        let (ns, last) ← double fuel (c.advance (width + 1))
        return (n :: ns, last)
    | d :: _ =>
      if endsWord (some d) then do
        let (blanks, next) := c.gap isQuotedBlank fuel
        let (ns, last) ← double fuel (← withinQuotes next)
        return (blanks.map Char.toNat ++ ns, last)
      else do
        let (ns, last) ← double fuel c.step
        return (d.toNat :: ns, last)

/-- The quoted text that starts here, and the place after it. -/
def quoted (fuel : Nat) (c : Cursor) : Except ReadFault (String × Cursor) :=
  if c.rest.head? = some '"' then do
    let (ns, last) ← double fuel c.step
    return (String.ofList (← ns.mapM Json.Reader.charOf), last)
  else do
    let (cs, last) ← single fuel c.step
    return (String.ofList cs, last)

end Yaml

end ClientForge
