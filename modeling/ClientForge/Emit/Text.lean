-- SUMMARY: Values as they appear in generated text, and text put together from lines.
import ClientForge.Json.Writer
import ClientForge.Model.Basic
import ClientForge.Text.Lines

/-!
# Generated text

How descriptions, literals and names are written into generated files, and the
few ways in which text is put together: pieces joined, lines, and entries of which
the last is marked.
-/

namespace ClientForge

namespace Emit

/-! ## Values -/

/-- A description on one line; a false value is an empty one. -/
def described (v : Json) : String :=
  if v.truthy then String.ofList (Text.oneLine v.asText.toList) else ""

/-- A value as a literal of the target language. -/
def literal (v : Json) : String := v.inline

/-- Text for a Kotlin string, in which a dollar sign would start a template. -/
def escapeDollars (cs : List Char) : List Char :=
  cs.flatMap fun c => if c = '$' then ['\\', '$'] else [c]

def kotlinText (s : String) : String := String.ofList (escapeDollars s.toList)

/-- The name of a nested type where nesting is written with an underscore. -/
def flatName (s : String) : String := s.map fun c => if c = '.' then '_' else c

/-! ## Text -/

/-- Text from pieces. -/
abbrev pieces (ps : List String) : String := String.join ps

/-- One piece of text for each entry. -/
def forEach {α : Type} (entries : List α) (write : α → String) : String :=
  pieces (entries.map write)

/-- Lines, each with its end. -/
def lines (ls : List String) : String := forEach ls fun l => pieces [l, "\n"]

/-- Text that is there only on a condition. -/
def onlyIf (condition : Bool) (text : String) : String := if condition then text else ""

/-- Entries one after another, each told whether it is the last. -/
def each {α : Type} (write : Bool → α → String) : List α → String
  | [] => ""
  | [a] => write true a
  | a :: as => pieces [write false a, each write as]

/-- A comma after every entry but the last. -/
def comma (last : Bool) : String := if last then "" else ","

/-- A block set in by four columns. -/
def setIn (block : String) : String := String.ofList (Text.setIn 4 block.toList)

/-! ## Models as classes -/

/-- A class that has a name and a description and nothing else. -/
def bareClass (name : Option String) (description : Json) : ClassHead where
  name
  specName := none
  superclass := none
  discriminator := .null
  properties := []
  inherited := []
  initializer := []
  subclasses := []
  description

/-- A model where a class is written: an enumeration comes out as a bare one. -/
def classHead : Model → ClassHead
  | .object head _ => head
  | .enumeration e => bareClass e.name e.description
  | .property p => bareClass p.name p.description

/-- The base class to write, if there is one with a name. -/
def superclass? (c : ClassHead) : Option String := c.superclass.filter (· != "")

mutual

/-- Some values of a model as a class and of those nested in it. -/
def valuesOfClass (of : ClassHead → List Json) : Model → List Json
  | .object head nested => of head ++ valuesOfNested of nested
  | .enumeration e => of (classHead (.enumeration e))
  | .property p => of (classHead (.property p))

def valuesOfNested (of : ClassHead → List Json) : List Model → List Json
  | [] => []
  | m :: ms => valuesOfClass of m ++ valuesOfNested of ms

end

def specText : Option Key → String
  | some k => k.asText
  | none => showText none

end Emit

/-- What can be chosen about the generated text: the names that arguments of a
JavaScript client have, and the package of a Kotlin client. -/
structure EmitOptions where
  serverNames : Bool
  package : String
deriving DecidableEq, Repr, Inhabited

namespace EmitOptions

def defaultPackage : String := "com.example.webservices"

/-- The choices that settings make; what they leave out has its default. -/
def ofMembers (ms : Members) : EmitOptions where
  serverNames := (Members.get ms "snake").truthy
  package := ((Members.get? ms "package").map Json.asText).getD defaultPackage

end EmitOptions

/-- What is generated for: an API with its model and the names it goes by. -/
structure EmitContext where
  apiName : String
  className : String
  version : Json
  package : String
  model : ApiModel
  document : Members
  options : EmitOptions
deriving Repr, Inhabited

end ClientForge
