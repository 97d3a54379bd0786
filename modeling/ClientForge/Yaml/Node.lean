-- SUMMARY: The tree of scalars, sequences and mappings that tokens make up.
import ClientForge.Yaml.Token

/-!
# Nodes

`Node.ofTokens` reads the tokens of a text as one tree. A key, a value or an item that
is left out is an empty plain scalar, and so is a text that says nothing. A pair on
its own in a sequence between brackets is a mapping of one member.

Of any three calls one inside the other, one takes a token off, so three times the
number of tokens suffices as fuel.
-/

namespace ClientForge

namespace Yaml

inductive Node
  | plain (text : String)
  | quoted (text : String)
  | sequence (items : List Node)
  | mapping (members : List (Node × Node))
deriving Repr, Inhabited

namespace Node

/-- What is left out. -/
def empty : Node := .plain ""

/-- What is wrong with tokens that cannot stand where they do. -/
def refusal : List Token → ReadFault
  | .fault f :: _ => f
  | _ => .illFormed

/-- The tokens after one that must come first. -/
def expect (t : Token) (ts : List Token) : Except ReadFault (List Token) :=
  match ts with
  | [] => .error .illFormed
  | u :: rest => if u = t then .ok rest else .error (refusal ts)

/-- Tokens before which something may be left out. -/
def endsPart : Token → Bool
  | .dash => true
  | .key => true
  | .colon => true
  | .blockEnd => true
  | .comma => true
  | .bracketClose => true
  | .braceClose => true
  | _ => false

/-- What reads a part off some tokens. -/
abbrev PartReader (α : Type) := List Token → Except ReadFault (α × List Token)

/-- A part that may be left out. In a member of a block a dash does not say that it
is. -/
def optional (dashes : Bool) (read : PartReader Node) : PartReader Node := fun ts =>
  match ts with
  | t :: _ => if endsPart t && !(dashes && t == .dash) then .ok (empty, ts) else read ts
  | [] => read ts

/-- A member whose key has been announced. -/
def member (dashes : Bool) (read : PartReader Node) : PartReader (Node × Node) := fun ts => do
  let (k, rest) ← optional dashes read ts
  match rest with
  | .colon :: rest =>
    let (v, rest) ← optional dashes read rest
    return ((k, v), rest)
  | _ => return ((k, empty), rest)

mutual

/-- A whole node. -/
def read : Nat → PartReader Node
  | 0, ts => .error (refusal ts)
  | fuel + 1, ts =>
    match ts with
    | .plain s :: rest => .ok (.plain s, rest)
    | .quoted s :: rest => .ok (.quoted s, rest)
    | .sequenceStart :: rest => do
      let (ns, rest) ← blockItems fuel rest
      return (.sequence ns, ← expect .blockEnd rest)
    | .mappingStart :: rest => do
      let (ms, rest) ← blockMembers fuel rest
      return (.mapping ms, ← expect .blockEnd rest)
    | .bracketOpen :: rest => do
      let (ns, rest) ← flowItems fuel rest
      return (.sequence ns, rest)
    | .braceOpen :: rest => do
      let (ms, rest) ← flowMembers fuel rest
      return (.mapping ms, rest)
    | _ => .error (refusal ts)

/-- The items of a block, each after a dash. -/
def blockItems : Nat → PartReader (List Node)
  | 0, ts => .error (refusal ts)
  | fuel + 1, ts =>
    match ts with
    | .dash :: rest => do
      let (n, rest) ← optional false (read fuel) rest
      let (ns, rest) ← blockItems fuel rest
      return (n :: ns, rest)
    | _ => .ok ([], ts)

/-- A key or a value in a block, where a sequence may stand in the column of the key. -/
def blockPart : Nat → PartReader Node
  | 0, ts => .error (refusal ts)
  | fuel + 1, ts =>
    match ts with
    | .dash :: _ => do
      let (ns, rest) ← blockItems fuel ts
      return (.sequence ns, rest)
    | _ => read fuel ts

/-- The members of a block. -/
def blockMembers : Nat → PartReader (List (Node × Node))
  | 0, ts => .error (refusal ts)
  | fuel + 1, ts =>
    match ts with
    | .key :: rest => do
      let (m, rest) ← member true (blockPart fuel) rest
      let (ms, rest) ← blockMembers fuel rest
      return (m :: ms, rest)
    | _ => .ok ([], ts)

/-- The items up to the closing bracket. -/
def flowItems : Nat → PartReader (List Node)
  | 0, ts => .error (refusal ts)
  | fuel + 1, ts =>
    match ts with
    | .bracketClose :: rest => .ok ([], rest)
    | _ => do
      let (n, rest) ← flowItem fuel ts
      match rest with
      | .bracketClose :: rest => return ([n], rest)
      | .comma :: rest =>
        let (ns, rest) ← flowItems fuel rest
        return (n :: ns, rest)
      | _ => .error (refusal rest)

/-- An item between brackets: a pair or a node. -/
def flowItem : Nat → PartReader Node
  | 0, ts => .error (refusal ts)
  | fuel + 1, ts =>
    match ts with
    | .key :: rest => do
      let (m, rest) ← member false (read fuel) rest
      return (.mapping [m], rest)
    | _ => read fuel ts

/-- The members up to the closing brace. -/
def flowMembers : Nat → PartReader (List (Node × Node))
  | 0, ts => .error (refusal ts)
  | fuel + 1, ts =>
    match ts with
    | .braceClose :: rest => .ok ([], rest)
    | _ => do
      let (m, rest) ← flowMember fuel ts
      match rest with
      | .braceClose :: rest => return ([m], rest)
      | .comma :: rest =>
        let (ms, rest) ← flowMembers fuel rest
        return (m :: ms, rest)
      | _ => .error (refusal rest)

/-- A member between braces: a pair, or a node that is a key. -/
def flowMember : Nat → PartReader (Node × Node)
  | 0, ts => .error (refusal ts)
  | fuel + 1, ts =>
    match ts with
    | .key :: rest => member false (read fuel) rest
    | _ => do
      let (k, rest) ← read fuel ts
      return ((k, empty), rest)

end

/-- Whether no node starts a document. -/
def saysNothing : List Token → Bool
  | [] => true
  | .documentStart :: _ => true
  | .documentEnd :: _ => true
  | _ => false

/-- The node of the only document. -/
def ofTokens (ts : List Token) : Except ReadFault Node := do
  let fuel := 3 * ts.length + 3
  let (n, rest) ← match ts with
    | [] => .ok (empty, [])
    | .documentStart :: rest => if saysNothing rest then .ok (empty, rest) else read fuel rest
    | _ => read fuel ts
  let rest := rest.dropWhile (· == .documentEnd)
  if rest.isEmpty then .ok n else .error (refusal rest)

end Node

end Yaml

end ClientForge
