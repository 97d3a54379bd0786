-- SUMMARY: Reading the arguments of the command and looking whether their paths can be used.
import ClientForge.Command.Invocation
import ClientForge.Command.Options
import ClientForge.Target.Language

/-!
# Arguments

The language is one that there is. The settings file and the document are files, and the
directory for the output is none. Options are looked at in the order in which they came,
then the settings file, and the first that cannot be used ends the reading.
-/

namespace ClientForge

namespace Command

/-- A path as it is printed; an empty one means the working directory. -/
def normalPath (s : String) : String := (Path.ofString s).toString

/-- What the arguments ask for. -/
def requestOf (a : Arguments) : SettingsRequest where
  configPath := a.operands.head?.map normalPath
  language := a.value? .language
  spec := (a.value? .spec).map normalPath
  name := a.value? .name
  className := a.value? .className
  basePath := a.value? .basePath
  packageName := a.value? .packageName
  output := (a.value? .output).map normalPath

/-- What keeps arguments from being used. -/
inductive Obstacle
  /-- A value is not of the right kind, or there are too many operands. -/
  | wrongKind
  /-- A path cannot mean any place. -/
  | noPlace
deriving DecidableEq, Repr

def Obstacle.invocation : Obstacle → Invocation
  | .wrongKind => .refused
  | .noPlace => .broken (.file .endedEarly)

variable {m : Type → Type} [Monad m]

def isLanguageName (s : String) : Bool := Language.all.any (·.name == s)

/-- Whether a path as it is written leads to a file, by what it is found to lead to. -/
def isFile (s : String) : Except FileFault FileKind → Bool
  | .ok .file => !Path.endsOpen s
  | _ => false

/-- What keeps a path from being used where a file is wanted, or anything but a file. -/
def pathObstacle? (s : String) (wantsFile : Bool) (found : Except FileFault FileKind) :
    Option Obstacle :=
  match found with
  | .error .endedEarly => some .noPlace
  | _ => if isFile s found = wantsFile then none else some .wrongKind

/-- Look for what keeps a path from being used. -/
def lookForObstacle (fs : FileReader m) (s : String) (wantsFile : Bool) : m (Option Obstacle) :=
  return pathObstacle? s wantsFile (← fs.kind (Path.ofString s))

/-- What keeps the value of an option from being used. -/
def valueObstacle? (fs : FileReader m) (a : Arguments) (o : ValueOption) : m (Option Obstacle) :=
  match o, a.value? o with
  | .language, some s => return if isLanguageName s then none else some .wrongKind
  | .spec, some s => lookForObstacle fs s true
  | .output, some s => lookForObstacle fs s false
  | _, _ => return none

/-- The first thing that keeps arguments from being used. Options come before the
settings file, whose path comes before any further operands. -/
def obstacle? (fs : FileReader m) (a : Arguments) : m (Option Obstacle) := do
  match ← a.valueOptions.findSomeM? (valueObstacle? fs a), a.operands with
  | some obstacle, _ => return some obstacle
  | none, [] => return none
  | none, config :: more =>
    match ← lookForObstacle fs config true with
    | some obstacle => return some obstacle
    | none => return if more.isEmpty then none else some .wrongKind

/-! ## Reading -/

def helpText : String :=
  "\n".intercalate
    ["Usage: sdkgen [OPTIONS] [CONFIG_PATH]",
      "",
      "  Generate Swift, Kotlin or JS clients from Swagger documents.",
      "",
      "Options:",
      "  --language [js|kotlin|swift]  Target language.",
      "  --spec FILE                   Swagger document to generate from.",
      "  --name TEXT                   API name (required with --spec).",
      "  --class-name TEXT             Generated API class name; defaults to --name.",
      "  --base-path TEXT              Path prefix for every method.",
      "  --package-name TEXT           Package name for the JS client.",
      "  -o, --output DIRECTORY        Output directory.",
      "  --snake                       Use the document's parameter names for JS",
      "                                arguments.",
      "  -v, --verbose                 Log debug output.",
      "  --help                        Show this message and exit.",
      ""]

def wishesOf (a : Arguments) : Wishes := ⟨requestOf a, a.has .snake, a.has .verbose⟩

/-- Read the arguments. -/
def invocation (fs : FileReader m) (args : List String) : m Invocation := do
  match readArguments args with
  | none => return .refused
  | some a =>
    if a.has .help then return .help helpText
    else
      match ← obstacle? fs a with
      | some obstacle => return obstacle.invocation
      | none => return .asked (wishesOf a)

end Command

end ClientForge
