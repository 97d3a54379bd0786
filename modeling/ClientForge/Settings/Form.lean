-- SUMMARY: The form that settings must have.
import ClientForge.Settings

/-!
# The form of settings

The language is a text. The APIs are an object whose keys are texts; each has a text for
its document, and may have texts for the names of its class and its package and for its
base path, the first two of which may be null. What else it has does not matter.
-/

namespace ClientForge

namespace Settings

def invalid {α : Type} : Except Failure α := .error (.config .invalid)

/-- The value of a setting that has two spellings, of which the first wins. -/
def spelled? (ms : Members) (first second : String) : Option Json :=
  match Members.get? ms (.text first) with
  | some v => some v
  | none => Members.get? ms (.text second)

/-- A text that may be left out or null. -/
def optionalText : Option Json → Except Failure (Option String)
  | none => .ok none
  | some .null => .ok none
  | some (.str s) => .ok (some s)
  | some _ => invalid

/-- A text that may be left out. -/
def textOr (fallback : String) : Option Json → Except Failure String
  | none => .ok fallback
  | some (.str s) => .ok s
  | some _ => invalid

def requiredText : Option Json → Except Failure String
  | some (.str s) => .ok s
  | _ => invalid

/-- The settings of one API. -/
def apiOf (member : Key × Json) : Except Failure ApiSettings := do
  match member with
  | (.text name, .obj ms) =>
    return {
      name
      spec := Path.ofString (← requiredText (Members.get? ms "spec"))
      className := ← optionalText (spelled? ms "className" "class_name")
      basePath := ← textOr "" (spelled? ms "basePath" "base_path")
      packageName := ← optionalText (spelled? ms "packageName" "package_name") }
  | _ => invalid

/-- The settings of all APIs. -/
def apisOf : Json → Except Failure (List ApiSettings)
  | .obj ms => ms.mapM apiOf
  | _ => invalid

/-- The check of the form. -/
def validate : Validator := fun language specs output => do
  return { language := ← requiredText (some language), apis := ← apisOf specs, output }

end Settings

end ClientForge
