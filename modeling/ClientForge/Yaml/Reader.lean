-- SUMMARY: Reading YAML text: the value that the tree of a text denotes.
import ClientForge.Yaml.Fault

/-!
# Reading YAML

`Yaml.read` reads a text of a part of YAML as one value. Collections are written by indentation or
between brackets and braces; scalars are plain or in single or double quotes, and
may go on over several lines; comments run to the end of a line. A key is a scalar,
and members may be taken over from another mapping by the key `<<`. Anchors, tags,
directives and block scalars are not read: a text with one of them is `ReadFault.outside`.
-/

namespace ClientForge

namespace Yaml

/-! ## Members -/

/-- The members of a mapping. -/
def ownMembers : Json → Members
  | .obj ms => ms
  | _ => []

/-- The members that are taken over from a mapping, or from several, of which the
first counts most. -/
def takenMembers : Json → Members
  | .arr vs => vs.reverse.flatMap ownMembers
  | v => ownMembers v

/-! ## Values -/

/-- The value of an unquoted scalar. -/
def plainValue (s : String) : Json :=
  match meaning s.toList with
  | .ok (.value v) => v
  | _ => .null

mutual

/-- The value of a node. What is at fault in it counts for nothing. -/
def Node.value : Node → Json
  | .quoted s => .str s
  | .plain s => plainValue s
  | .sequence ns => .arr (itemValues ns)
  | .mapping ms => .obj (Members.ofWritten (takenValues ms ++ writtenValues ms))

def itemValues : List Node → List Json
  | [] => []
  | n :: ns => n.value :: itemValues ns

/-- The members that a mapping takes over. -/
def takenValues : List (Node × Node) → Members
  | [] => []
  | (k, v) :: ms =>
    match k.memberKey with
    | .ok .merge => takenMembers v.value ++ takenValues ms
    | _ => takenValues ms

/-- The members that are written in a mapping. -/
def writtenValues : List (Node × Node) → Members
  | [] => []
  | (k, v) :: ms =>
    match k.memberKey with
    | .ok (.key k) => (k, v.value) :: writtenValues ms
    | _ => writtenValues ms

end

/-! ## Whole texts -/

/-- Characters that may stand in a text. -/
def isAllowed (c : Char) : Bool :=
  let n := c.toNat
  n == 0x09 || n == 0x0A || n == 0x0D || (0x20 ≤ n && n ≤ 0x7E) || n == 0x85 ||
    (0xA0 ≤ n && n ≤ 0xD7FF) || (0xE000 ≤ n && n ≤ 0xFFFD) || 0x10000 ≤ n

/-- Every line end but the two separators as a line feed. -/
def unifyBreaks : List Char → List Char
  | '\r' :: '\n' :: cs => '\n' :: unifyBreaks cs
  | '\r' :: cs => '\n' :: unifyBreaks cs
  | '\x85' :: cs => '\n' :: unifyBreaks cs
  | c :: cs => c :: unifyBreaks cs
  | [] => []

/-- The value that a whole text denotes; null if it says nothing. -/
def read (cs : List Char) : Except ReadFault Json := do
  if !cs.all isAllowed then .error .illFormed
  else
    let n ← Node.ofTokens (Token.scan (unifyBreaks cs))
    match n.firstFault? with
    | some f => .error f
    | none => return n.value

end Yaml

end ClientForge
