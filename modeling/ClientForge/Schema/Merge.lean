-- SUMMARY: Merging objects: lists are appended, objects merged, anything else is won by the later one.
import ClientForge.Failure

/-!
# Merging objects

Merging brings the members of one object after another into one. Where both have
a key, two lists are appended, two objects are merged in turn, and of any other
two values the later one wins; the key keeps the place where it came first.
-/

namespace ClientForge

namespace Members

mutual

/-- Bring the members of the second object into the first. -/
def merge (ms : Members) : List (Key × Json) → Members
  | [] => ms
  | (k, v) :: rest => merge (put ms k (combine (get? ms k) v)) rest

/-- A value brought to a key that may have one already. -/
def combine (held : Option Json) : Json → Json
  | .arr items =>
    match held with
    | some (.arr earlier) => .arr (earlier ++ items)
    | _ => .arr items
  | .obj members =>
    match held with
    | some (.obj earlier) => .obj (merge earlier members)
    | _ => .obj members
  | v => v

end

/-- All objects merged from left to right. -/
def mergeAll (parts : List Members) : Members := parts.foldl merge []

/-- Merging values that should be objects; false ones are passed over. -/
def mergeValues (values : List Json) : Except Failure Members := do
  return mergeAll (← (values.filter Json.truthy).mapM Json.members)

end Members

end ClientForge
