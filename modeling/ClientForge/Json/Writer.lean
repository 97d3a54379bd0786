-- SUMMARY: JSON text of a value, on one line or indented.
import ClientForge.Json.Display

/-!
# JSON text

`Json.inline` writes a value on one line, a comma and a space between entries;
`Json.indented` writes every entry on a line of its own, two columns deeper than
its container. An encoding says whether characters outside ASCII stand for
themselves or are escaped as UTF-16 units.
-/

namespace ClientForge

namespace Json

/-- How characters outside ASCII are written. -/
inductive Encoding
  | plain
  | ascii
deriving DecidableEq, Repr

/-- A UTF-16 unit by its number. -/
def unitEscape (n : Nat) : List Char := '\\' :: 'u' :: Text.hex 4 n

def writtenChar (e : Encoding) (c : Char) : List Char :=
  if c = '"' ∨ c = '\\' then ['\\', c]
  else if c = '\n' then ['\\', 'n']
  else if c = '\r' then ['\\', 'r']
  else if c = '\t' then ['\\', 't']
  else if c = '\x0c' then ['\\', 'f']
  else if c = '\x08' then ['\\', 'b']
  else if c.toNat < 0x20 then unitEscape c.toNat
  else if c.toNat < 0x7F ∨ e = .plain then [c]
  else if c.toNat < 0x10000 then unitEscape c.toNat
  else
    let n := c.toNat - 0x10000
    unitEscape (0xD800 + n / 0x400) ++ unitEscape (0xDC00 + n % 0x400)

def writtenText (e : Encoding) (s : String) : List Char :=
  '"' :: s.toList.flatMap (writtenChar e) ++ ['"']

def writtenScalar (e : Encoding) : Json → List Char
  | .null => "null".toList
  | .bool b => if b then "true".toList else "false".toList
  | .int n => intDisplay n
  | .float x => x.written
  | .str s => writtenText e s
  | _ => []

/-- A key, which is a text whatever it stands for. -/
def writtenKey (e : Encoding) : Key → List Char
  | .text s => writtenText e s
  | k => '"' :: writtenScalar e k.toJson ++ ['"']

mutual

def inlineChars (e : Encoding) : Json → List Char
  | .arr items => '[' :: inlineItems e items ++ [']']
  | .obj members => '\x7b' :: inlineMembers e members ++ ['\x7d']
  | v => writtenScalar e v

def inlineItems (e : Encoding) : List Json → List Char
  | [] => []
  | [v] => inlineChars e v
  | v :: vs => inlineChars e v ++ ',' :: ' ' :: inlineItems e vs

def inlineMembers (e : Encoding) : List (Key × Json) → List Char
  | [] => []
  | [(k, v)] => writtenKey e k ++ ':' :: ' ' :: inlineChars e v
  | (k, v) :: ms =>
    writtenKey e k ++ ':' :: ' ' :: inlineChars e v ++ ',' :: ' ' :: inlineMembers e ms

end

def inline (v : Json) : String := String.ofList (inlineChars .plain v)

def indentedLine (margin : Nat) : List Char := '\n' :: List.replicate margin ' '

mutual

/-- The lines of a value, which start at the column `margin`. -/
def indentedChars (e : Encoding) (margin : Nat) : Json → List Char
  | .arr [] => ['[', ']']
  | .obj [] => ['\x7b', '\x7d']
  | .arr items => '[' :: indentedItems e (margin + 2) items ++ indentedLine margin ++ [']']
  | .obj members =>
    '\x7b' :: indentedMembers e (margin + 2) members ++ indentedLine margin ++ ['\x7d']
  | v => writtenScalar e v

def indentedItems (e : Encoding) (margin : Nat) : List Json → List Char
  | [] => []
  | [v] => indentedLine margin ++ indentedChars e margin v
  | v :: vs =>
    indentedLine margin ++ indentedChars e margin v ++ ',' :: indentedItems e margin vs

def indentedMembers (e : Encoding) (margin : Nat) : List (Key × Json) → List Char
  | [] => []
  | [(k, v)] =>
    indentedLine margin ++ writtenKey e k ++ ':' :: ' ' :: indentedChars e margin v
  | (k, v) :: ms =>
    indentedLine margin ++ writtenKey e k ++ ':' :: ' ' :: indentedChars e margin v ++
      ',' :: indentedMembers e margin ms

end

def indented (v : Json) : String := String.ofList (indentedChars .ascii 0 v)

end Json

end ClientForge
