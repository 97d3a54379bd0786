-- SUMMARY: What to generate: settings from a file, from arguments, or from both.
import ClientForge.Emit.Client
import ClientForge.File.Document

/-!
# Settings

Settings name a language, the APIs with their documents, and a directory for the
output. They come from a file, whose paths are seen from its own directory, and
from arguments, which win for language and output; without a file, or with one
that names no API, the arguments describe the only API. An argument that is empty
counts as not given.
-/

namespace ClientForge

/-- What is asked for besides a settings file, and which file that is. -/
structure SettingsRequest where
  configPath : Option String
  language : Option String
  spec : Option String
  name : Option String
  className : Option String
  basePath : Option String
  packageName : Option String
  output : Option String
deriving DecidableEq, Repr, Inhabited

/-- An API before its document is read. -/
structure ApiSettings where
  name : String
  spec : Path
  className : Option String
  basePath : String
  packageName : Option String
deriving DecidableEq, Repr, Inhabited

/-- Settings before the documents are read. -/
structure SettingsPlan where
  language : String
  apis : List ApiSettings
  output : Path
deriving DecidableEq, Repr, Inhabited

structure Settings where
  language : Language
  apis : List Api
  output : Path
deriving Repr, Inhabited

/-- An API's settings with the outcome of reading its document. -/
structure LoadAttempt where
  settings : ApiSettings
  document : Except Failure Document

namespace Settings

/-- Settings from a language, the APIs and a directory for the output, or the failure
that these do not have the form of settings. Documents are where the APIs say, as
written. -/
abbrev Validator := Json → Json → Path → Except Failure SettingsPlan

/-- A text that is given and not empty. -/
def given (s : Option String) : Option String := s.filter (· != "")

/-! ## Bringing file and arguments together -/

def optionalJson : Option String → Json
  | some s => .str s
  | none => .null

/-- The only API, as the arguments describe it; `spec` is where its document is, if
they say so. -/
def fromArguments (r : SettingsRequest) (spec : Option (Except FileFault Path)) :
    Except Failure Json :=
  match spec, given r.name with
  | some spec, some name => do
    let spec ← spec.mapError Failure.file
    return .obj [(.text name, .obj
      [("spec", .str spec.toString), ("className", .str ((given r.className).getD name)),
        ("basePath", .str (r.basePath.getD "")), ("packageName", optionalJson r.packageName)])]
  | _, _ => .error (.config .noSpec)

def defaultOutput : Path := Path.ofString "client"

/-- The directory for the output: the argument, the file's seen from its own
directory, or the default. -/
def outputOf (r : SettingsRequest) (file : Members) (base : Path) : Except Failure Path :=
  match given r.output with
  | some s => .ok (Path.ofString s)
  | none =>
    let v := Members.get file "output"
    if v.truthy then
      match v with
      | .str s => .ok (base.join (Path.ofString s))
      | _ => .error (.malformed .noPath)
    else .ok defaultOutput

/-- The language that is asked for, by the argument or else by the file. -/
def languageOf (r : SettingsRequest) (file : Members) : Except Failure Json :=
  match given r.language with
  | some s => .ok (.str s)
  | none =>
    let v := Members.get file "language"
    if v.truthy then .ok v else .error (.config .noLanguage)

/-- The settings with documents that are seen from a directory. -/
def seenFrom (base : Path) (p : SettingsPlan) : SettingsPlan :=
  { p with apis := p.apis.map fun api => { api with spec := base.join api.spec } }

/-- Settings from a file's content and the arguments. `base` is the directory of
the file, or the working directory if there is none. -/
def plan (validate : Validator) (r : SettingsRequest) (file : Members)
    (spec : Option (Except FileFault Path)) (base : Path) : Except Failure SettingsPlan := do
  let language ← languageOf r file
  let specs := Members.get file "specs"
  let specs ← if specs.truthy then .ok specs else fromArguments r spec
  let output ← outputOf r file base
  return seenFrom base (← validate language specs output)

/-! ## Reading documents -/

/-- An API with its document. -/
def apiWith (a : LoadAttempt) : Except Failure Api := do
  return {
    name := a.settings.name
    className := (given a.settings.className).getD a.settings.name
    basePath := a.settings.basePath
    packageName := a.settings.packageName
    document := ← a.document }

/-- Settings once every document has been tried. -/
def ofAttempts (p : SettingsPlan) (attempts : List LoadAttempt) : Except Failure Settings := do
  let apis ← attempts.mapM apiWith
  return { language := ← Language.ofName p.language, apis, output := p.output }

variable {m : Type → Type} [Monad m]

/-- Where a path that is given leads. -/
def resolveGiven (fs : FileReader m) (s : Option String) :
    m (Option (Except FileFault Path)) := do
  match given s with
  | none => return none
  | some s => return some (← fs.resolve (Path.ofString s))

/-- The content of the settings file, if one is asked for, and the directory that
its paths are seen from. -/
def readFile (readers : Readers) (fs : FileReader m) (r : SettingsRequest) (directory : Path) :
    m (Except Failure Document × Path) := do
  match ← resolveGiven fs r.configPath with
  | none => return (.ok default, directory)
  | some (.error e) => return (.error (.file e), directory)
  | some (.ok p) => return (← Document.load readers fs p, p.parent)

/-- Settings before any document is read. -/
def prepare (readers : Readers) (validate : Validator) (fs : FileReader m) (r : SettingsRequest) :
    m (Except Failure SettingsPlan) := do
  let directory ← fs.current
  let (file, base) ← readFile readers fs r directory
  let spec ← resolveGiven fs r.spec
  return file.bind fun document => plan validate r document spec base

/-- Try to read the document of every API. -/
def tryEach (readers : Readers) (fs : FileReader m) : List ApiSettings → m (List LoadAttempt)
  | [] => return []
  | a :: as => do
    let document ← Document.load readers fs a.spec
    return ⟨a, document⟩ :: (← tryEach readers fs as)

/-- The settings, and the attempts to read documents that were made for them. -/
def read (readers : Readers) (validate : Validator) (fs : FileReader m) (r : SettingsRequest) :
    m (List LoadAttempt × Except Failure Settings) := do
  match ← prepare readers validate fs r with
  | .error e => return ([], .error e)
  | .ok p =>
    let attempts ← tryEach readers fs p.apis
    return (attempts, ofAttempts p attempts)

end Settings

end ClientForge
