-- SUMMARY: A run of the command: read everything, generate everything, and only then write.
import ClientForge.Command.Invocation
import ClientForge.Command.Notes
import ClientForge.File.Output

/-!
# Runs

A run first prepares: it reads its arguments, the settings and the documents, and
generates every file, all without changing anything. Only a `Plan.write` changes
the file system, so a run that fails before that leaves it as it was. What is read by
others for a run are its `Libraries`.
-/

namespace ClientForge

namespace Command

/-- What a run leaves to others: reading the texts of documents, checking the form of
settings, and reading the arguments, which may look at the file system. Nothing else is
assumed of them. -/
structure Libraries (m : Type → Type) where
  readers : Readers
  validate : Settings.Validator
  arguments : List String → m Invocation

/-- What a run is going to do. -/
inductive Plan
  /-- Refuse the arguments. -/
  | refuse
  /-- Show what the arguments are. -/
  | help (text : String)
  /-- Report a failure. -/
  | fail (notes : List Note) (failure : Failure)
  /-- Write files: into a directory, if their names are relative and do not go up. -/
  | write (notes : List Note) (directory : Path) (files : List OutputFile)

/-- How a run ends: with its exit code, its notes and, printed after them, its
result or what went wrong. A run that something malformed or the file system
breaks off has the cause only. -/
inductive Report
  | usage
  | finished (exitCode : Nat) (notes output : String)
  | broken (cause : Failure)

def Report.exitCode : Report → Nat
  | .usage => 2
  | .finished exitCode _ _ => exitCode
  | .broken _ => 1

/-! ## Preparing -/

variable {m : Type → Type} [Monad m]

/-- What the command line lets the generated text depend on. -/
def emitOptions (w : Wishes) : EmitOptions := ⟨w.snake, EmitOptions.defaultPackage⟩

/-- The plan for settings that have been read, or for the failure to. -/
def planFor (options : EmitOptions) (attempts : List LoadAttempt)
    (settings : Except Failure Settings) : Plan :=
  let loading := Note.ofAttempts attempts
  match settings with
  | .error e => .fail loading e
  | .ok s =>
    let building := loading ++ Note.ofApis s.language s.apis
    match Emit.render s.language options s.apis with
    | .error e => .fail building e
    | .ok files => .write (building ++ Note.ofFiles s.language s.apis) s.output files

/-- A plan without its notes. -/
def Plan.quiet : Plan → Plan
  | .fail _ e => .fail [] e
  | .write _ directory files => .write [] directory files
  | p => p

/-- The plan for some arguments. Nothing is changed. -/
def prepare (libraries : Libraries m) (fs : FileReader m) (args : List String) : m Plan := do
  match ← libraries.arguments args with
  | .refused => return .refuse
  | .help text => return .help text
  | .broken cause => return .fail [] cause
  | .asked w =>
    let (attempts, settings) ← Settings.read libraries.readers libraries.validate fs w.request
    let plan := planFor (emitOptions w) attempts settings
    return if w.verbose then plan else plan.quiet

/-! ## Reporting -/

def noteText (notes : List Note) : String := String.join (notes.map Note.line)

/-- What is printed about a failure that has a message. After an open-ended one
comes the report of the reader that failed, which has a form of its own. -/
def failureText (e : Failure) (message : String) : String :=
  match e with
  | .verification ds =>
    String.join
      [String.join (ds.map fun d => String.join [d.text, "\n"]),
        "Error: ", toString ds.length, " problem(s) found, nothing written\n"]
  | .config fault => String.join ["Error: ", message, if fault.isOpenEnded then "" else "\n"]
  | _ => String.join ["Error: ", message, "\n"]

def reportFailure (notes : List Note) (e : Failure) : Report :=
  let e := e.worded
  match e.message with
  | some message => .finished 1 (noteText notes) (failureText e message)
  | none => .broken e

/-- What is printed about the files that have been written. -/
def writtenText (paths : List Path) : String :=
  String.join (paths.map fun p => String.join ["Generated ", p.toString, "\n"])

/-! ## Performing -/

/-- Do what is planned. -/
def perform (fs : FileWriter m) : Plan → m Report
  | .refuse => return .usage
  | .help text => return .finished 0 "" text
  | .fail notes e => return reportFailure notes e
  | .write notes directory files => do
    match ← Output.writeAll fs directory files with
    | .ok paths => return .finished 0 (noteText notes) (writtenText paths)
    | .error e => return .broken (.file e)

/-- A run on a tree of files: how it ends and the tree it leaves. Its libraries cannot
change the tree. -/
def run (libraries : Libraries (ReaderM FileTree)) (args : List String) (t : FileTree) :
    Report × FileTree :=
  perform FileTree.writer (prepare libraries FileTree.reader args t) t

end Command

end ClientForge
