-- SUMMARY: The whole model of an API: methods, distinct models, and classes linked to their subclasses.
import ClientForge.Api.Method

/-!
# Assembly

The models of all methods are brought together; of those that differ in their
descriptions only, the first is kept. Object models and enumerations are told
apart, and every class with a discriminator gets the list of the classes derived
from it.
-/

namespace ClientForge

namespace Assembly

/-- Add a model unless one like it is there. -/
def keepNew (kept : List Model) (m : Model) : List Model :=
  if m.isAmong kept then kept else kept ++ [m]

/-- The first of each class of models that differ in descriptions only. -/
def distinct (models : List Model) : List Model := models.foldl keepNew []

/-- The distinct models of some methods. -/
def modelsOf (methods : List BuiltMethod) : List Model := distinct (methods.flatMap (·.models))

/-- Object models and enumerations told apart; anything else is a failure. -/
def separate : List Model → Except Failure (List Model × List Model)
  | [] => .ok ([], [])
  | m :: ms =>
    match m with
    | .object .. => do
      let (objects, enums) ← separate ms
      return (m :: objects, enums)
    | .enumeration _ => do
      let (objects, enums) ← separate ms
      return (objects, m :: enums)
    | .property _ => .error (.strayModel m)

/-! ## Subclasses -/

/-- A model as a subclass of the class called `name`. -/
def subclassOf (name : Option String) : Model → Option Subclass
  | .object head _ => if head.superclass = name then some ⟨head.name, head.specName⟩ else none
  | _ => none

/-- A model with the subclasses found among the others, if it is discriminated. -/
def link (others : List Model) : Model → Model
  | .object head nested =>
    if head.discriminator.truthy then
      .object { head with subclasses := others.filterMap (subclassOf head.name) } nested
    else .object head nested
  | m => m

/-- Link the models after those in `before`. -/
def linkAfter (before : List Model) : List Model → List Model
  | [] => []
  | m :: ms => link (before ++ ms) m :: linkAfter (before ++ [m]) ms

/-- Every discriminated class linked to its subclasses among the other models. -/
def linkSubclasses (models : List Model) : List Model := linkAfter [] models

/-! ## The model of an API -/

/-- The path in front of every method: the one that was asked for, then the
document's own. -/
def fullBasePath (document : Members) (basePath : String) : Except Failure String := do
  return Url.join [basePath, ← Method.pathPart (Document.basePath document)]

/-- The model of an API from its methods. -/
def ofMethods (name : String) (methods : List BuiltMethod) : Except Failure ApiModel := do
  let (objects, enums) ← separate (modelsOf methods)
  return ⟨name, methods.map (·.method), linkSubclasses objects, enums⟩

end Assembly

/-- The model of an API from its document. -/
def ApiModel.build (types : TypeTable) (document : Document) (name basePath : String) :
    Except Failure ApiModel := do
  let base ← Assembly.fullBasePath document basePath
  let methods ← Method.buildAll ⟨document, types⟩ base
  Assembly.ofMethods name methods

end ClientForge
