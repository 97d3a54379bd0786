-- SUMMARY: From a schema to its type in the target language and the models it needs.
import ClientForge.Json.WellFormed
import ClientForge.Model.Basic
import ClientForge.Name.Identifier
import ClientForge.Schema.Kind
import ClientForge.Schema.Resolve
import ClientForge.Target.TypeTable

/-!
# Inference

Inferring a schema gives the name of its type and every model that the type
needs. A referenced schema is named after its reference. The first branch of a
composition that is a reference becomes the base class: it is left out of the
merge, inferred on its own, and its properties are inherited; a property that
repeats an inherited one is not declared again. Inline objects become models
nested in their owner.

A reference back to a class under construction (`visiting`) gives its name and no
models. A base class is built in full even then, or its properties would be lost;
the chain of classes that asked for it (`lineage`) is what rules out a circle.

Schemas can nest without end through compositions written in place, so the
nesting followed is bounded by a fuel, `maxNesting` unless it is given.
-/

namespace ClientForge

/-- The name of a type and the format that the generated code has to see. -/
structure TypeInfo where
  name : String
  format : Option String
deriving DecidableEq, Repr, Inhabited

/-- What is inferred from a schema. -/
structure Inferred where
  type : TypeInfo
  models : List Model
deriving Repr, Inhabited

namespace Inference

/-- Where a schema stands: its document and the table that types are named by. -/
structure Setting where
  document : Document
  types : TypeTable

/-- The way that led to a schema: the classes under construction and the chain of
subclasses, the nearest last. -/
structure Trail where
  visiting : List String
  lineage : List String
deriving DecidableEq, Repr, Inhabited

/-- The inference of a schema further in, given its way and the name of a model
without a reference. -/
abbrev Recur := Trail → String → Json → Except Failure Inferred

/-! ## Parts of a schema -/

/-- An object with its own properties, written in place. -/
def isInlineObject : Json → Bool
  | .obj ms =>
    !Members.has ms "$ref" && (Members.get ms "type").same (.str "object") &&
      Members.has ms "properties"
  | _ => false

def isRefBranch : Json → Bool
  | .obj ms => Members.has ms "$ref"
  | _ => false

/-- The first branch of a composition that is a reference. -/
def baseSchema? (followed : Members) : Except Failure (Option Json) :=
  let allOf := Members.get followed "allOf"
  if allOf.truthy then do return (← allOf.entries).find? isRefBranch
  else .ok none

/-- The reference of a branch, null if there is no branch. -/
def baseRef : Option Json → Json
  | some (.obj ms) => Members.get ms "$ref"
  | _ => .null

/-- The name of the member that tells subclasses apart. -/
def discriminator (schema : Members) : Json :=
  match Members.get schema "discriminator" with
  | .obj ms => Members.get ms "propertyName"
  | v => v

def description : Json → Json
  | .obj ms => Members.get ms "description"
  | _ => .null

/-- The names of required properties; anything but a list requires none. -/
def requiredNames (schema : Members) : Except Failure (List Json) :=
  match Members.get schema "required" with
  | .arr items => items.mapM Json.key
  | _ => .ok []

/-- The properties of a schema; a false value stands for none. -/
def propertySchemas (schema : Members) : Except Failure Members :=
  let v := Members.get schema "properties"
  if v.truthy then v.members else .ok []

/-! ## Leaves -/

def void (s : Setting) : Inferred := ⟨⟨s.types.void, none⟩, []⟩

def enumCase (value : Json) : Except Failure EnumCase := do
  return ⟨some (Name.ofMember [← value.shown]), value⟩

def ofEnumeration (s : Setting) (schema : Members) (name : String) : Except Failure Inferred := do
  let type ← ((Members.get schema "type").orElse (.str "string")).text
  let enumType ← s.types.primitive (some type) (Members.get schema "format")
  let cases ← (← (Members.get schema "enum").entries).mapM enumCase
  return ⟨⟨name, none⟩, [.enumeration
    ⟨some name, some enumType, cases, Members.get schema "description"⟩]⟩

/-- A failure to name a primitive type, told with the schema that has it. -/
def aboutSchema (schema : Members) : Failure → Failure
  | .unsupported fault _ => .unsupported fault (.obj schema)
  | e => e

def ofPrimitive (s : Setting) (schema : Members) : Except Failure Inferred := do
  let type ← (Members.get schema "type").text
  let format := Members.get schema "format"
  let name ← (s.types.primitive (some type) format).mapError (aboutSchema schema)
  return ⟨⟨name, ← preservedFormat (some type) format⟩, []⟩

/-! ## Containers -/

def ofArray (s : Setting) (recur : Recur) (visiting : List String) (schema : Members)
    (name : String) : Except Failure Inferred := do
  match Members.get schema "items" with
  | .obj items =>
    let item ← recur ⟨visiting, []⟩ name (.obj items)
    return ⟨⟨s.types.arrayOf item.type.name, item.type.format⟩, item.models⟩
  | _ => .error (.unsupported .arrayWithoutItems (.obj schema))

def ofMap (s : Setting) (recur : Recur) (visiting : List String) (schema : Members)
    (name : String) : Except Failure Inferred := do
  match Members.get schema "additionalProperties" with
  | .obj (m :: ms) =>
    let value ← recur ⟨visiting, []⟩ (Name.ofClass [name, "value"]) (.obj (m :: ms))
    return ⟨⟨s.types.mapOf (some value.type.name), none⟩, value.models⟩
  | _ => return ⟨⟨s.types.mapOf none, none⟩, []⟩

/-! ## Objects -/

/-- What one property contributes: the property, the model nested for it if it is
an inline object, and the models beside the class. -/
structure Contribution where
  property : Property
  nested : List Model
  beside : List Model

/-- The name of a property's model if it has no reference. -/
def propertyModelName (owner key : String) (inPlace : Bool) : String :=
  Name.ofClassFrom (if inPlace then 1 else 0) [owner, key]

def ofProperty (recur : Recur) (visiting : List String) (owner : String) (required : List Json)
    (member : Key × Json) : Except Failure Contribution := do
  let (key, schema) := member
  let inPlace := isInlineObject schema
  let spoken ← key.toJson.shown
  let found ← recur ⟨visiting, []⟩ (propertyModelName owner spoken inPlace) schema
  let type := found.type.name
  return {
    property := {
      name := some (Name.ofMember [spoken])
      specName := some key
      type := some (if inPlace then String.join [owner, ".", type] else type)
      format := found.type.format
      isRequired := key.toJson.isAmong required
      description := description schema }
    nested := if inPlace then found.models.take 1 else []
    beside := if inPlace then found.models.drop 1 else found.models }

/-- The base class: its name, the properties it hands down, and its models. -/
structure Base where
  name : Option String
  inherited : List Property
  models : List Model

def Base.none : Base := ⟨.none, [], []⟩

/-- The properties that the first of a base class's models hands down. -/
def handedDown : List Model → List Property
  | .object head _ :: _ => head.properties ++ head.inherited
  | _ => []

def ofBase (recur : Recur) (trail : Trail) (name : String) :
    Option Json → Except Failure Base
  | .none => .ok Base.none
  | some branch => do
    let superclass := Name.ofReference (← (baseRef (some branch)).text)
    if superclass = name ∨ superclass ∈ trail.lineage then
      .error (.unsupported (.circularInheritance name superclass) branch)
    else
      let found ← recur ⟨trail.visiting.filter (· != superclass), trail.lineage ++ [name]⟩ "" branch
      return ⟨some superclass, handedDown found.models, found.models⟩

/-- The properties that do not repeat an inherited one. -/
def ownProperties (properties inherited : List Property) : List Property :=
  properties.filter fun p => !inherited.any p.sameShape

def ofObject (recur : Recur) (trail : Trail) (schema : Members) (name : String) (specName : Key)
    (branch : Option Json) : Except Failure Inferred := do
  let required ← requiredNames schema
  let parts ← (← propertySchemas schema).mapM (ofProperty recur trail.visiting name required)
  let base ← ofBase recur trail name branch
  let own := ownProperties (parts.map (·.property)) base.inherited
  let head : ClassHead := {
    name := some name
    specName := some specName
    superclass := base.name
    discriminator := discriminator schema
    properties := own
    inherited := base.inherited
    initializer := own ++ base.inherited
    subclasses := []
    description := Members.get schema "description" }
  let model := Model.object head (parts.flatMap (·.nested))
  return ⟨⟨name, .none⟩, model :: parts.flatMap (·.beside) ++ base.models⟩

/-! ## Schemas -/

/-- A schema whose name is settled, resolved but for its base class. -/
def ofNamed (s : Setting) (recur : Recur) (trail : Trail) (name : String) (specName : Key)
    (schema : Json) : Except Failure Inferred := do
  let branch ← baseSchema? (← Schema.followRefs s.document schema .null)
  let resolved ← Schema.flatten s.document schema (baseRef branch)
  match ← Schema.kind resolved with
  | .enumeration => ofEnumeration s resolved name
  | .array => ofArray s recur trail.visiting resolved name
  | .object => ofObject recur trail resolved name specName branch
  | .map => ofMap s recur trail.visiting resolved name
  | .void => return void s
  | .primitive => ofPrimitive s resolved

/-- One schema, given the inference of those further in. -/
def ofSchema (s : Setting) (recur : Recur) (trail : Trail) (defaultName : String)
    (schema : Json) : Except Failure Inferred := do
  match schema with
  | .obj [] => return void s
  | .obj (m :: ms) =>
    let ref := Members.get (m :: ms) "$ref"
    if ref.truthy then
      let ref ← ref.text
      let name := Name.ofReference ref
      if name ∈ trail.visiting then return ⟨⟨name, none⟩, []⟩
      else
        ofNamed s recur { trail with visiting := name :: trail.visiting } name
          (.text (Name.lastComponent ref)) schema
    else ofNamed s recur trail defaultName (.text defaultName) schema
  | v => if v.truthy then .error (.unsupported .notAnObject v) else return void s

/-- Inference that follows at most `fuel` schemas into each other. -/
def inferWith (s : Setting) : Nat → Recur
  | 0 => fun _ _ _ => .error .tooDeep
  | fuel + 1 => ofSchema s (inferWith s fuel)

/-- How many schemas are followed into each other. -/
def maxNesting : Nat := 1000

end Inference

open Inference in
/-- The type and the models of a schema reached on some way. -/
def inferOn (s : Setting) (trail : Trail) (defaultName : String) (schema : Json) :
    Except Failure Inferred :=
  inferWith s maxNesting trail defaultName schema

/-- The type and the models of a schema on its own. -/
def infer (s : Inference.Setting) (defaultName : String) (schema : Json) :
    Except Failure Inferred :=
  inferOn s ⟨[], []⟩ defaultName schema

end ClientForge
