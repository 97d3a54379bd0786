-- SUMMARY: The command line program.
import ClientForge.Command.Standard

/-!
# The program

Runs the command on the file system it is started in.
-/

namespace ClientForge

namespace Program

/-- What an error of the file system refuses. -/
def faultOf : IO.Error → FileFault
  | .alreadyExists .. => .exists
  | .noFileOrDirectory .. => .missing
  | .inappropriateType _ code _ => if code = 21 then .isADirectory else .notADirectory
  | .invalidArgument _ code _ => if code = 22 then .endedEarly else .nameTooLong
  | .permissionDenied _ _ details => .refused details
  | e => .refused (toString e)

def attempt {α : Type} (action : IO α) : IO (Except FileFault α) := do
  try return .ok (← action)
  catch e => return .error (faultOf e)

/-- What a path leads to: a directory can be opened but not read. -/
def kind (p : Path) : IO (Except FileFault FileKind) := do
  match ← attempt (IO.FS.withFile p.toString .read fun h => h.read 1) with
  | .ok _ => return .ok .file
  | .error .isADirectory => return .ok .directory
  | .error e => return .error e

def current : IO Path := return Path.ofString (← IO.currentDir).toString

/-- The path that the system resolves, or, if nothing is there, the one that its parts
lead to. -/
def resolve (p : Path) : IO (Except FileFault Path) := do
  if p.endsEarly then return .error .endedEarly
  match ← attempt (IO.FS.realPath p.toString) with
  | .ok found => return .ok (Path.ofString found.toString)
  | .error _ => return .ok ((← current).resolved p)

def reader : FileReader IO where
  current
  kind
  read p := attempt (IO.FS.readBinFile p.toString)
  resolve

def writer : FileWriter IO where
  makeDirectory p := attempt (IO.FS.createDir p.toString)
  isDirectory p := return (← kind p) matches .ok .directory
  write p text := attempt (IO.FS.writeFile p.toString text)

end Program

end ClientForge

open ClientForge in
def main (args : List String) : IO UInt32 := do
  let plan ← Command.prepare (.standard Program.reader) Program.reader args
  let report ← Command.perform Program.writer plan
  match report with
  | .usage => IO.eprintln "Try '--help' for help."
  | .finished code notes output =>
    IO.eprint notes
    if code = 0 then IO.print output else IO.eprint output
  | .broken _ =>
    IO.eprintln "The run was broken off: a document or the output directory is not as expected."
  return report.exitCode.toUInt32
