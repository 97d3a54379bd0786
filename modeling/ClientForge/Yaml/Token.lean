-- SUMMARY: The tokens of a YAML text: scalars, marks, and where blocks start and end.
import ClientForge.Yaml.Plain
import ClientForge.Yaml.Quoted

/-!
# Tokens

`Token.scan` splits a text into tokens. Blocks start and end by their columns, and
their tokens are made up for that. What stands before a colon turns out to be a key
only at the colon: a place where a key may have started is kept until then, and its
token is marked. A key ends on the line that it starts on, within `longestKey`
characters. A text that cannot be split to its end has a fault as its last token.
-/

namespace ClientForge

namespace Yaml

inductive Token
  /-- A block of items starts. -/
  | sequenceStart
  /-- A block of members starts. -/
  | mappingStart
  /-- A block ends. -/
  | blockEnd
  /-- The dash of an item. -/
  | dash
  /-- A key follows. -/
  | key
  /-- The colon behind a key. -/
  | colon
  | bracketOpen
  | bracketClose
  | braceOpen
  | braceClose
  | comma
  | plain (text : String)
  | quoted (text : String)
  | documentStart
  | documentEnd
  | fault (f : ReadFault)
deriving DecidableEq, Repr

/-- A token at its offset as far as it is known: whether a key starts with it, and a
block of members with that. -/
structure Entry where
  token : Token
  offset : Nat
  startsKey : Bool
  startsMapping : Bool
deriving Repr

def Entry.tokens (e : Entry) : List Token :=
  (if e.startsMapping then [.mappingStart] else []) ++ (if e.startsKey then [.key] else []) ++
    [e.token]

/-- A place where a key may have started. What stands where a block has its keys must
be one. -/
structure PossibleKey where
  place : Cursor
  isRequired : Bool

/-- Most characters that a key may take up. -/
def longestKey : Nat := 1024

/-- Whether a key that started here has not ended in time. -/
def PossibleKey.isStale (k : PossibleKey) (c : Cursor) : Bool :=
  k.place.line != c.line || decide (k.place.offset + longestKey < c.offset)

/-- Entries, the last one first, where the token at an offset has turned out to be a
key. What was made up at the same offset comes before the token. -/
def markKey (offset : Nat) (startsMapping : Bool) : List Entry → List Entry
  | [] => []
  | e :: es =>
    if e.offset = offset then { e with startsKey := true, startsMapping } :: es
    else e :: markKey offset startsMapping es

/-- How far a text has been split. -/
structure Scan where
  cursor : Cursor
  /-- Whether a key may start here. -/
  isFresh : Bool
  /-- The columns of the blocks around, the innermost first. -/
  columns : List Nat
  /-- The key that may have started, in the innermost brackets or braces. -/
  key : Option PossibleKey
  /-- The keys that may have started around each of the brackets and braces. -/
  outerKeys : List (Option PossibleKey)
  /-- The tokens until here, the last one first. -/
  entries : List Entry

namespace Scan

def start (cs : List Char) : Scan := ⟨Cursor.start cs, true, [], none, [], []⟩

def tokens (s : Scan) : List Token := s.entries.reverse.flatMap Entry.tokens

/-- Whether the place is between brackets or braces. -/
def inFlow (s : Scan) : Bool := !s.outerKeys.isEmpty

/-- The column of the innermost block. -/
def indent (s : Scan) : Int :=
  match s.columns with
  | [] => -1
  | n :: _ => n

def add (t : Token) (s : Scan) : Scan :=
  { s with entries := ⟨t, s.cursor.offset, false, false⟩ :: s.entries }

/-- A token that some characters make up; `fresh` says whether a key may follow. -/
def take (n : Nat) (t : Token) (fresh : Bool) (s : Scan) : Scan :=
  { s.add t with cursor := s.cursor.advance n, isFresh := fresh }

/-! ## Keys -/

/-- What may have started a key has not. -/
def dropKey (s : Scan) : Except ReadFault Scan :=
  if s.key.any (·.isRequired) then .error .illFormed else .ok { s with key := none }

/-- A key may start here. -/
def noteKey (s : Scan) : Except ReadFault Scan :=
  if !s.isFresh then .ok s
  else do
    let s ← s.dropKey
    let required := !s.inFlow && s.indent == s.cursor.column
    return { s with key := some ⟨s.cursor, required⟩ }

/-- Without the keys that have not ended in time. -/
def dropStale (s : Scan) : Except ReadFault Scan :=
  let isStale (k : PossibleKey) := k.isStale s.cursor
  if (s.key :: s.outerKeys).any (·.any fun k => k.isRequired && isStale k) then .error .illFormed
  else .ok { s with
    key := s.key.filter (!isStale ·)
    outerKeys := s.outerKeys.map (·.filter (!isStale ·)) }

/-! ## Blocks -/

/-- A block starts in the column, unless it is that of the block around. -/
def openBlock (t : Token) (s : Scan) : Scan :=
  if s.indent < s.cursor.column then { s.add t with columns := s.cursor.column :: s.columns } else s

/-- The blocks further in than a column end. Between brackets or braces columns say
nothing. -/
def closeBlocks (column : Int) (s : Scan) : Scan :=
  if s.inFlow then s
  else
    let ended := s.columns.takeWhile fun (n : Nat) => decide (column < n)
    ended.foldl (fun s _ => s.add .blockEnd) { s with columns := s.columns.drop ended.length }

/-- A place where an item or a key of a block may start. -/
def inBlock (t : Token) (s : Scan) : Except ReadFault Scan :=
  if s.inFlow then .ok s
  else if s.isFresh then .ok (s.openBlock t)
  else .error .illFormed

/-! ## Tokens -/

/-- The state at the next token, where blocks have ended that do not go on there. -/
def settle (fuel : Nat) (s : Scan) : Except ReadFault Scan := do
  let next := s.cursor.next fuel
  let fresh := s.isFresh || (!s.inFlow && next.line != s.cursor.line)
  let s ← dropStale { s with cursor := next, isFresh := fresh }
  if next.rest.isEmpty || next.atMarker then (s.closeBlocks (-1)).dropKey
  else return s.closeBlocks next.column

/-- Brackets or braces open. -/
def openFlow (t : Token) (s : Scan) : Except ReadFault Scan := do
  let s ← s.noteKey
  return { s.take 1 t true with key := none, outerKeys := s.key :: s.outerKeys }

/-- Brackets or braces close. -/
def closeFlow (t : Token) (s : Scan) : Except ReadFault Scan := do
  let s ← s.dropKey
  match s.outerKeys with
  | [] => .error .illFormed
  | k :: ks => return { s.take 1 t false with key := k, outerKeys := ks }

/-- A colon: what may have started a key before it has, and else an empty key
stands here. -/
def takeColon (s : Scan) : Except ReadFault Scan := do
  match s.key with
  | some k =>
    let column := k.place.column
    let opens := !s.inFlow && decide (s.indent < column)
    return take 1 .colon false { s with
      key := none
      columns := if opens then column :: s.columns else s.columns
      entries := markKey k.place.offset opens s.entries }
  | none => return (← s.inBlock .mappingStart).take 1 .colon (!s.inFlow)

def takeQuoted (fuel : Nat) (s : Scan) : Except ReadFault Scan := do
  let s ← s.noteKey
  let (text, last) ← quoted fuel s.cursor
  return { s.add (.quoted text) with cursor := last, isFresh := false }

def takePlain (fuel : Nat) (s : Scan) : Except ReadFault Scan := do
  let s ← s.noteKey
  let found := plain s.inFlow s.indent fuel s.cursor
  let fresh := found.after.line != found.line
  return { s.add (.plain (String.ofList found.text)) with cursor := found.after, isFresh := fresh }

/-- Whether a character starts something of a form that is not read: an anchor, a place
that refers to one, a tag, a text in a block, or a directive. -/
def startsOther (c : Char) (s : Scan) : Bool :=
  c == '&' || c == '*' || c == '!' || (!s.inFlow && (c == '|' || c == '>')) ||
    (c == '%' && s.cursor.column == 0)

/-- The token that starts at a character. -/
def takeToken (fuel : Nat) (c : Char) (rest : List Char) (s : Scan) : Except ReadFault Scan :=
  let ends := endsWord rest.head?
  if s.cursor.atMarker then
    .ok (s.take 3 (if c = '-' then .documentStart else .documentEnd) false)
  else if c = '[' then s.openFlow .bracketOpen
  else if c = '\x7b' then s.openFlow .braceOpen
  else if c = ']' then s.closeFlow .bracketClose
  else if c = '\x7d' then s.closeFlow .braceClose
  else if c = ',' then do return (← s.dropKey).take 1 .comma true
  else if c = '-' ∧ ends then do
    return (← (← s.inBlock .sequenceStart).dropKey).take 1 .dash true
  else if c = '?' ∧ (s.inFlow ∨ ends) then do
    return (← (← s.inBlock .mappingStart).dropKey).take 1 .key (!s.inFlow)
  else if c = ':' ∧ (s.inFlow ∨ ends) then s.takeColon
  else if c = '\'' ∨ c = '"' then s.takeQuoted fuel
  else if startsPlain s.inFlow (c :: rest) then s.takePlain fuel
  else if s.startsOther c then .error .outside
  else .error .illFormed

/-- All tokens, those from here on by steps of one token. -/
def run : Nat → Scan → List Token
  | 0, s => s.tokens
  | fuel + 1, s =>
    match s.settle fuel with
    | .error f => s.tokens ++ [.fault f]
    | .ok s =>
      match s.cursor.rest with
      | [] => s.tokens
      | c :: rest =>
        match s.takeToken fuel c rest with
        | .error f => s.tokens ++ [.fault f]
        | .ok s => run fuel s

end Scan

/-- The tokens of a text. -/
def Token.scan (cs : List Char) : List Token := (Scan.start cs).run (cs.length + 1)

end Yaml

end ClientForge
