-- SUMMARY: Parameters and responses of methods, from their specification in a document.
import ClientForge.Inference

/-!
# Parameters

A parameter gives its schema under `schema`, or, unless it is a body, declares
type and format beside its own keys; `ParamSpec` holds either in one shape. A
response is built like a parameter that has no name.
-/

namespace ClientForge

/-- A parameter or response with the schema of its value. -/
structure ParamSpec where
  name : Json
  location : Json
  description : Json
  required : Bool
  schema : Json
deriving Repr, Inhabited

namespace ParamSpec

/-- The keys that describe the parameter itself and not its value. -/
def ownKeys : List Key := ["name", "in", "description", "required"]

/-- The schema that a parameter declares in place. -/
def schemaInPlace (ms : Members) : Members := ms.filter fun kv => kv.1 ∉ ownKeys

def ofMembers (ms : Members) : ParamSpec where
  name := Members.get ms "name"
  location := Members.get ms "in"
  description := Members.get ms "description"
  required := (Members.get ms "required").truthy
  schema :=
    match Members.get? ms "schema" with
    | some v => v.orElse (.obj [])
    | none => .obj (schemaInPlace ms)

/-- Only an object specifies a parameter. A list or a text can still be asked for
a `schema`, but has none to give. -/
def ofJson (v : Json) : Except Failure ParamSpec := do
  match v with
  | .obj ms => return ofMembers ms
  | _ =>
    if ← Schema.holdsKeyword v "schema" then .error (.malformed .noKey)
    else .error (.malformed .noMembers)

end ParamSpec

namespace Param

/-- What a parameter without a name is called. -/
def anonymous : String := "response"

/-- The type that a schema has once it is resolved; null for an empty schema. -/
def typeOfSchema (document : Members) (schema : Json) : Except Failure Json :=
  if schema.truthy then do
    return Members.get (← Schema.flatten document schema .null) "type"
  else .ok .null

/-- The name that a method's parameter has on the wire. -/
def serverNameOf (spec : ParamSpec) : Json := spec.name.orElse (.str anonymous)

/-- A parameter of a method and the models that it needs. -/
def build (s : Inference.Setting) (methodName : String) (raw : Json) :
    Except Failure (Param × List Model) := do
  let spec := ParamSpec.ofMembers (← Schema.flatten s.document raw .null)
  let spoken ← (serverNameOf spec).shown
  let inferred ← infer s (Name.ofClass [methodName, spoken]) spec.schema
  let schemaType ← typeOfSchema s.document spec.schema
  let param : Param := {
    name := some (if spec.name.truthy then Name.camel spoken else anonymous)
    serverName := serverNameOf spec
    location := spec.location
    type := some inferred.type.name
    format := inferred.type.format
    isRequired := spec.required
    schemaType
    description := spec.description }
  return (param, inferred.models)

end Param

end ClientForge
