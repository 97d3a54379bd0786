-- SUMMARY: Which fault is found first in the tree of a text.
import ClientForge.Yaml.MemberKey

/-!
# Faults of a tree

A tree has a fault where a scalar stands for nothing, where a collection is a key, or
where what is taken over by `<<` is no mapping. Collections are gone through level by
level, the outermost first, and on each level in the order of the text; within a mapping
what is taken over comes before what is written. `Node.firstFault?` is the fault found
first.
-/

namespace ClientForge

namespace Yaml

/-- The first fault on each level of a tree, if there is one. -/
abbrev Levels := List (Option ReadFault)

/-- The levels of two trees side by side. -/
def beside : Levels → Levels → Levels
  | [], bs => bs
  | as, [] => as
  | a :: as, b :: bs => a.or b :: beside as bs

/-- The faults among the members of a mapping: the first of what is taken over, and the
levels of what is taken over and of what is written. -/
structure MemberFaults where
  taking : Option ReadFault
  taken : Levels
  written : Levels

namespace MemberFaults

def none : MemberFaults := ⟨.none, [], []⟩

/-- The levels of all members together. -/
def members (f : MemberFaults) : Levels := beside f.taken f.written

/-- The levels of a mapping with these members. -/
def levels (f : MemberFaults) : Levels := beside [f.taking] f.members

/-- Another member written before these. -/
def write (member : Levels) (f : MemberFaults) : MemberFaults :=
  { f with written := beside member f.written }

/-- Members taken over before these, from a mapping with the faults `source`. -/
def take (source f : MemberFaults) : MemberFaults :=
  { f with taking := source.taking.or f.taking, taken := beside source.members f.taken }

/-- Members taken over from a mapping of a sequence, of which a later one comes
before an earlier one. -/
def takeLast (source f : MemberFaults) : MemberFaults :=
  { f with taking := source.taking.or f.taking, taken := beside f.taken source.members }

/-- Members cannot be taken over. -/
def takeNothing (f : MemberFaults) : MemberFaults := { f with taking := some .illFormed }

end MemberFaults

/-- The fault of what may be one. -/
def faultOf {α : Type} : Except ReadFault α → Option ReadFault
  | .ok _ => none
  | .error f => some f

/-- The fault of an unquoted scalar as a value. -/
def plainFault (s : String) : Option ReadFault :=
  match meaning s.toList with
  | .ok (.value _) => none
  | .ok _ => some .illFormed
  | .error f => some f

mutual

/-- The faults of a node by levels; those of a collection are a level further in. -/
def Node.faults : Node → Levels
  | .quoted _ => []
  | .plain s => [plainFault s]
  | .sequence ns => none :: itemFaults ns
  | .mapping ms => none :: (memberFaults ms).levels

def itemFaults : List Node → Levels
  | [] => []
  | n :: ns => beside n.faults (itemFaults ns)

def memberFaults : List (Node × Node) → MemberFaults
  | [] => .none
  | (k, v) :: ms =>
    match k.memberKey with
    | .ok .merge => (takenFaults v).take (memberFaults ms)
    | key => (memberFaults ms).write (beside [faultOf key] v.faults)

/-- The faults of what members are taken over from: a mapping or several. -/
def takenFaults : Node → MemberFaults
  | .mapping ms => memberFaults ms
  | .sequence ns => takenEachFaults ns
  | .plain _ => MemberFaults.none.takeNothing
  | .quoted _ => MemberFaults.none.takeNothing

def takenEachFaults : List Node → MemberFaults
  | [] => .none
  | .mapping ms :: ns => (memberFaults ms).takeLast (takenEachFaults ns)
  | _ :: ns => (takenEachFaults ns).takeNothing

end

/-- The fault that is found first. -/
def Node.firstFault? (n : Node) : Option ReadFault := n.faults.findSome? id

end Yaml

end ClientForge
