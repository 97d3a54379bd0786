-- SUMMARY: How the types of a document are spelled in a target language.
import ClientForge.Failure

/-!
# Type tables

A type table gives the names of a target language's types: one for schemas that
say nothing, one for anything at all, the patterns for arrays and maps, and an
entry for each primitive type of a document. In a pattern a pair of braces holds
the place of the inner type, and a doubled brace stands for itself.
-/

namespace ClientForge

/-- The names for one primitive type. -/
inductive TypeEntry
  /-- Always the same name. -/
  | always (name : String)
  /-- A name for each of some formats, and one for all others. -/
  | byFormat (formats : List (String × String)) (fallback : String)
  /-- A type that needs an inner one. -/
  | pattern (text : String)
deriving DecidableEq, Repr, Inhabited

structure TypeTable where
  void : String
  any : String
  array : String
  object : String
  primitives : List (String × TypeEntry)
deriving DecidableEq, Repr, Inhabited

namespace TypeTable

/-- A pattern with the inner type in its place. -/
def fillChars (inner : List Char) : List Char → List Char
  | '\x7b' :: '\x7d' :: cs => inner ++ fillChars inner cs
  | '\x7b' :: '\x7b' :: cs => '\x7b' :: fillChars inner cs
  | '\x7d' :: '\x7d' :: cs => '\x7d' :: fillChars inner cs
  | c :: cs => c :: fillChars inner cs
  | [] => []

def fill (pattern inner : String) : String :=
  String.ofList (fillChars inner.toList pattern.toList)

/-- The name for a format: that of the fallback unless the table has one. -/
def pick (formats : List (String × String)) (fallback : String) (format : Json) :
    Except Failure String :=
  match format with
  | .null => .ok fallback
  | v => do
    match ← v.key with
    | .str s => return (formats.lookup s).getD fallback
    | _ => return fallback

/-- The entry of a type; the empty type has none. -/
def entry? (t : TypeTable) : Option String → Option TypeEntry
  | none => none
  | some type => if type = "" then none else t.primitives.lookup type

/-- The name of a primitive type in a format. -/
def primitive (t : TypeTable) (type : Option String) (format : Json) : Except Failure String :=
  match t.entry? type with
  | some (.always name) => .ok name
  | some (.byFormat formats fallback) => pick formats fallback format
  | some (.pattern _) => .error (.unsupported (.needsInnerType type) .null)
  | none => .error (.unsupported (.unknownType type) .null)

def arrayOf (t : TypeTable) (inner : String) : String := fill t.array inner

/-- A map with values of some type, or of any type. -/
def mapOf (t : TypeTable) (inner : Option String) : String :=
  match inner with
  | none => fill t.object t.any
  | some s => fill t.object (if s = "" then t.any else s)

end TypeTable

/-- The types and formats whose format the generated code has to see. -/
def preservedFormats : List (String × String) :=
  [("string", "date"), ("string", "date-time"), ("integer", "int64")]

/-- The format of a type as the generated code has to see it. -/
def preservedFormat (type : Option String) (format : Json) : Except Failure (Option String) :=
  match type with
  | none => .ok none
  | some type =>
    if type = "" ∨ ¬ format.truthy then .ok none
    else do
      match ← format.key with
      | .str s => return if (type, s) ∈ preservedFormats then some s else none
      | _ => return none

end ClientForge
