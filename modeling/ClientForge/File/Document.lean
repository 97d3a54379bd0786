-- SUMMARY: Documents and settings from the content of their files.
import ClientForge.File.System
import ClientForge.Json.WellFormed

/-!
# Documents in files

A document is an object at the top of a file. A file whose name ends in `.json`
holds JSON, any other one YAML; both are UTF-8. How their texts are read is left to
`Readers`, of which nothing is assumed but that an object has no key twice.
-/

namespace ClientForge

/-- The readers of the texts that documents come in. -/
structure Readers where
  json : List Char → Except ReadFault Json.Sound
  yaml : List Char → Except ReadFault Json.Sound

namespace Document

/-- The words of the operating system for what it refuses. -/
def reason : FileFault → String
  | .missing => "No such file or directory"
  | .isADirectory => "Is a directory"
  | .notADirectory => "Not a directory"
  | .exists => "File exists"
  | .nameTooLong => "File name too long"
  | .tooManyLinks => "Too many levels of symbolic links"
  | .refused reason => reason
  | .notUtf8 => ""
  | .endedEarly => ""

def isJsonFile (p : Path) : Bool := p.suffix.map Char.toLower == ".json"

/-- The value that the text of a file denotes. -/
def parse (readers : Readers) (p : Path) (text : List Char) : Except ReadFault Json.Sound :=
  if isJsonFile p then readers.json text else readers.yaml text

/-- A file that the system refuses to give. -/
def refused (p : Path) : FileFault → Failure
  | .endedEarly => .file .endedEarly
  | e => .config (.cannotRead p.toString (reason e))

/-- A file whose text cannot be read as a value. One of something that is no `Json` counts
among them. -/
def unreadable (p : Path) : ReadFault → Failure
  | .illFormed => .config (.cannotParse p.toString)
  | .noNumber => .malformed .noNumber
  | .tooDeep => .tooDeep
  | .outside => .malformed .noValue

/-- The document in a file that has been read. -/
def ofContent (readers : Readers) (p : Path) (content : Except FileFault ByteArray) :
    Except Failure Document :=
  match content with
  | .error e => .error (refused p e)
  | .ok bytes =>
    match String.fromUTF8? bytes with
    | none => .error (.file .notUtf8)
    | some text =>
      match parse readers p text.toList with
      | .error e => .error (unreadable p e)
      | .ok ⟨.obj ms, h⟩ => .ok ⟨ms, h⟩
      | .ok _ => .error (.config (.notAMapping p.toString))

/-- The document in a file. -/
def load {m : Type → Type} [Monad m] (readers : Readers) (fs : FileReader m) (p : Path) :
    m (Except Failure Document) := do
  return ofContent readers p (← fs.read p)

end Document

end ClientForge
