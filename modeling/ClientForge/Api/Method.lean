-- SUMMARY: The methods of an API, from the paths of a document.
import ClientForge.Api.Parameter
import ClientForge.Url

/-!
# Methods

Every operation of every path becomes a method. A method is named after its
operation's identifier or else after path and verb; its parameters are those of
the path followed by its own; its response is the first that reports success.
Methods are listed by their full path, and for one path in the order of the
verbs.
-/

namespace ClientForge

namespace Document

/-- The paths of a document; a false value stands for none. -/
def paths (document : Members) : Json := (Members.get document "paths").orElse (.obj [])

/-- The definitions of a document; a false value stands for none. -/
def definitions (document : Members) : Json :=
  (Members.get document "definitions").orElse (.obj [])

/-- The part of every path that the document puts in front. -/
def basePath (document : Members) : Json := Members.get document "basePath"

end Document

namespace Method

/-- The verbs in the order in which the methods of one path are listed. -/
def verbs : List String :=
  ["get", "put", "post", "delete", "options", "head", "patch", "trace"]

/-- A value as part of a path; a false one is no part. -/
def pathPart (v : Json) : Except Failure String := if v.truthy then v.shown else .ok ""

/-! ## Responses -/

/-- The first response whose status starts with a digit. -/
def firstOfClass (digit : Char) : Members → Except Failure (Option Json)
  | [] => .ok none
  | (status, response) :: rs => do
    let shown ← status.toJson.shown
    if shown.toList.head? = some digit then return some response else firstOfClass digit rs

/-- The response to expect: the first of the class 2, else the first of the class
3, else the default one; an empty specification if there is none. -/
def selectResponse (responses : Json) : Except Failure Json := do
  let rs ← (responses.orElse (.obj [])).members
  let chosen ← match ← firstOfClass '2' rs with
    | some response => .ok (some response)
    | none => firstOfClass '3' rs
  return (chosen.getD (Members.get rs "default")).orElse (.obj [])

/-! ## Building a method -/

/-- The entries of a list that may be left out. -/
def entriesOf (v : Json) : Except Failure (List Json) :=
  if v.truthy then v.entries else .ok []

def nameOf (operation : Members) (path : Key) (verb : String) : Except Failure String := do
  let id := Members.get operation "operationId"
  if id.truthy then return Name.camel (← id.shown)
  else return Name.camel (Url.join [← pathPart path.toJson, verb])

/-- The method of an operation, with all models that it needs. -/
def ofOperation (s : Inference.Setting) (path : Key) (pathParams : Json) (basePath verb : String)
    (operation : Members) : Except Failure BuiltMethod := do
  let name ← nameOf operation path verb
  let shared ← entriesOf pathParams
  let listed ← entriesOf (Members.get operation "parameters")
  let params ← (shared ++ listed).mapM (Param.build s name)
  let chosen ← selectResponse (Members.get operation "responses")
  let (response, responseModels) ← Param.build s name chosen
  return {
    method := {
      path := Url.join ["/", basePath, ← pathPart path.toJson]
      verb
      name
      params := params.map (·.1)
      response
      description :=
        (Members.get operation "description").orElse (Members.get operation "summary") }
    models := params.flatMap (·.2) ++ responseModels }

/-- The method of a path and a verb, none if the path has no operation for it. -/
def build (s : Inference.Setting) (path : Key) (pathParams : Json) (basePath verb : String)
    (operation : Json) : Except Failure (Option BuiltMethod) := do
  if operation.truthy then
    return some (← ofOperation s path pathParams basePath verb (← operation.members))
  else return none

/-! ## Building all methods -/

/-- The methods of one path, each as far as it can be built. -/
def ofPathItem (s : Inference.Setting) (basePath : String) (path : Key) (item : Json) :
    List (Except Failure BuiltMethod) :=
  match (item.orElse (.obj [])).members with
  | .error e => [.error e]
  | .ok ms =>
    verbs.filterMap fun verb =>
      match build s path (Members.get ms "parameters") basePath verb (Members.get ms (.text verb)) with
      | .ok none => none
      | .ok (some built) => some (.ok built)
      | .error e => some (.error e)

/-- The methods of a document in its own order, each as far as it can be built. -/
def attempts (s : Inference.Setting) (basePath : String) : List (Except Failure BuiltMethod) :=
  match (Document.paths s.document).members with
  | .error e => [.error e]
  | .ok items => items.flatMap fun item => ofPathItem s basePath item.1 item.2

def byPath (a b : BuiltMethod) : Bool := decide (a.method.path ≤ b.method.path)

/-- All methods of a document, sorted by path. -/
def buildAll (s : Inference.Setting) (basePath : String) : Except Failure (List BuiltMethod) := do
  return ((← (attempts s basePath).mapM id).mergeSort byPath)

end Method

end ClientForge
