-- SUMMARY: The kinds of resolved schemas.
import ClientForge.Failure

/-!
# Kinds of schemas

What a schema describes once references and compositions at its top are gone.
Polymorphism other than by `allOf` is refused, and so is a type that is no text.
-/

namespace ClientForge

namespace Schema

inductive Kind
  | enumeration
  | array
  | object
  | map
  | primitive
  | void
deriving DecidableEq, Repr

def Kind.name : Kind → String
  | .enumeration => "enum"
  | .array => "array"
  | .object => "object"
  | .map => "map"
  | .primitive => "primitive"
  | .void => "void"

/-- Compositions that are not modelled. -/
def unsupportedKeywords : List String := ["oneOf", "anyOf", "not"]

/-- The type that a schema names, if any. -/
def type? (ms : Members) : Except Failure (Option String) :=
  match Members.get ms "type" with
  | .null => .ok none
  | .str s => .ok (some s)
  | v => .error (.unsupported (.typeNotText v) (.obj ms))

/-- The kind of a schema with a known type. -/
def kindOfType (ms : Members) (type : Option String) : Kind :=
  if Members.has ms "enum" then .enumeration
  else if type = some "array" then .array
  else if (type = none ∨ type = some "object") ∧ Members.has ms "properties" then .object
  else if type = some "object" ∨ (type = none ∧ Members.has ms "additionalProperties") then .map
  else if type = none then .void
  else .primitive

/-- The kind of a resolved schema. -/
def kind (ms : Members) : Except Failure Kind :=
  match unsupportedKeywords.find? fun k => Members.has ms (.text k) with
  | some k => .error (.unsupported (.keyword k) (.obj ms))
  | none => do return kindOfType ms (← type? ms)

/-- Whether a text occurs in another. -/
def occursIn (part : List Char) : List Char → Bool
  | [] => part.isEmpty
  | c :: cs => part.isPrefixOf (c :: cs) || occursIn part cs

/-- Whether a keyword is found in a value: as a key, an item or a part of it. -/
def holdsKeyword (v : Json) (keyword : String) : Except Failure Bool :=
  match v with
  | .obj ms => .ok (Members.has ms keyword)
  | .arr items => .ok (Json.isAmong (.str keyword) items)
  | .str s => .ok (occursIn keyword.toList s.toList)
  | _ => .error (.malformed .noEntries)

/-- The kind of any value; only an object has one. -/
def kindOf (v : Json) : Except Failure Kind := do
  match v with
  | .obj ms => kind ms
  | _ =>
    match ← unsupportedKeywords.filterM (holdsKeyword v) with
    | k :: _ => .error (.unsupported (.keyword k) v)
    | [] => .error (.malformed .noMembers)

end Schema

end ClientForge
