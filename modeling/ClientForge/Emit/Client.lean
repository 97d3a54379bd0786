-- SUMMARY: All files of the clients of some APIs.
import ClientForge.Api.Assembly
import ClientForge.Audit.Checks
import ClientForge.Emit.JavaScript
import ClientForge.Emit.Kotlin
import ClientForge.Emit.Swift
import ClientForge.Target.Language

/-!
# Clients

The files of every API in a target language. The models of all APIs are built and
checked before the first file is written out. A file name that comes up again
keeps its place and gets the later text.
-/

namespace ClientForge

/-- An API to generate a client for. -/
structure Api where
  name : String
  className : String
  basePath : String
  packageName : Option String
  document : Document
deriving Repr, Inhabited

/-- A generated file. -/
structure OutputFile where
  name : String
  text : String
deriving DecidableEq, Repr, Inhabited

namespace Emit

/-! ## The files of one API -/

def defaultVersion : Json := .str "0.0.0"

/-- The version that a document gives itself. -/
def versionOf (document : Members) : Except Failure Json := do
  match Members.get? document "info" with
  | none => return defaultVersion
  | some info => return (Members.get? (← info.members) "version").getD defaultVersion

/-- The text of every file, in the order of the language's file names. -/
def texts (l : Language) (x : EmitContext) : List String :=
  match l with
  | .swift => [Swift.client x, Swift.podspec x]
  | .kotlin => [Kotlin.client x]
  | .js =>
    [JavaScript.packageJson x, JavaScript.babelConfig, JavaScript.client x,
      JavaScript.declarations x, JavaScript.specJson x]

def files (l : Language) (x : EmitContext) : List OutputFile :=
  List.zipWith OutputFile.mk (l.fileNames x.apiName x.className) (texts l x)

/-- The values of the document that the files hold. -/
def values (l : Language) (x : EmitContext) : List Json :=
  match l with
  | .swift => Swift.values x
  | .kotlin => Kotlin.values x
  | .js => JavaScript.values x

/-- What an API's files are generated from. -/
def context (options : EmitOptions) (api : Api) (model : ApiModel) :
    Except Failure EmitContext := do
  return {
    apiName := api.name
    className := api.className
    version := ← versionOf api.document
    package := (api.packageName.filter (· != "")).getD api.name
    model
    document := api.document
    options }

/-- The files of an API, if what they hold can be written. -/
def filesOf (l : Language) (options : EmitOptions) (api : Api) (model : ApiModel) :
    Except Failure (List OutputFile) := do
  let x ← context options api model
  if Json.areWritable (values l x) then return files l x else .error (.malformed .noNumber)

/-! ## The files of all APIs -/

/-- Put a file where one of its name is, or else at the end. -/
def putFile : List OutputFile → OutputFile → List OutputFile
  | [], f => [f]
  | g :: gs, f => if g.name = f.name then f :: gs else g :: putFile gs f

def modelOf (l : Language) (api : Api) : Except Failure ApiModel :=
  ApiModel.build l.types api.document api.name api.basePath

/-- The models of all APIs, built and checked. -/
def checkedModels (l : Language) (apis : List Api) : Except Failure (List ApiModel) := do
  let models ← apis.mapM (modelOf l)
  ApiModel.checkAll models
  return models

/-- All files of the clients of some APIs of distinct names. -/
def render (l : Language) (options : EmitOptions) (apis : List Api) :
    Except Failure (List OutputFile) := do
  let models ← checkedModels l apis
  let written ← (apis.zip models).mapM fun am => filesOf l options am.1 am.2
  return written.flatten.foldl putFile []

end Emit

end ClientForge
