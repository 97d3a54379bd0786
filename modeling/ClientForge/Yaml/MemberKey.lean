-- SUMMARY: What a node says before a colon.
import ClientForge.Yaml.Node
import ClientForge.Yaml.Scalar

/-!
# Keys of members

A key is a scalar. The unquoted sign `<<` is none: it takes over the members of its
value. Of the unquoted sign `=` the key is the sign itself.
-/

namespace ClientForge

namespace Yaml

/-- What stands before a colon. -/
inductive MemberKey
  | merge
  | key (k : Key)
deriving DecidableEq, Repr

/-- The key that a single value is. -/
def key? : Json → Option Key
  | .null => some .null
  | .bool b => some (.bool b)
  | .int n => some (.int n)
  | .float x => some (.float x)
  | .str s => some (.text s)
  | .arr _ => none
  | .obj _ => none

/-- The key that an unquoted scalar is. -/
def keyOfMeaning (s : String) : Meaning → Except ReadFault MemberKey
  | .merge => .ok .merge
  | .equals => .ok (.key (.text s))
  | .value v =>
    match key? v with
    | some k => .ok (.key k)
    | none => .error .illFormed

def Node.memberKey : Node → Except ReadFault MemberKey
  | .quoted s => .ok (.key (.text s))
  | .plain s => do keyOfMeaning s (← meaning s.toList)
  | .sequence _ => .error .illFormed
  | .mapping _ => .error .illFormed

end Yaml

end ClientForge
