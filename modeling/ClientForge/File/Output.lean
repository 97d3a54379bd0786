-- SUMMARY: Writing generated files into a directory.
import ClientForge.Emit.Client
import ClientForge.File.System

/-!
# Writing files

Generated files are written into a directory, which is made first together with
all directories around it. The first refusal of the file system ends the writing;
what has been written until then stays.
-/

namespace ClientForge

namespace Output

variable {m : Type → Type} [Monad m]

/-- Make a directory that may be there already. -/
def makeOne (fs : FileWriter m) (p : Path) : m (Except FileFault Unit) := do
  match ← fs.makeDirectory p with
  | .ok () => return .ok ()
  | .error e => return if ← fs.isDirectory p then .ok () else .error e

/-- Make a directory and those around it; `ancestors` of them are tried. -/
def makeAll (fs : FileWriter m) : Nat → Path → m (Except FileFault Unit)
  | 0, p => makeOne fs p
  | ancestors + 1, p => do
    match ← makeOne fs p with
    | .error .missing =>
      match ← makeAll fs ancestors p.parent with
      | .ok () => makeOne fs p
      | .error e => return .error e
    | outcome => return outcome

/-- Write files one after another, up to the first that is refused. -/
def writeEach (fs : FileWriter m) (directory : Path) :
    List OutputFile → m (Except FileFault (List Path))
  | [] => return .ok []
  | f :: rest => do
    let p := directory.join (Path.ofString f.name)
    match ← fs.write p f.text with
    | .error e => return .error e
    | .ok () => return (← writeEach fs directory rest).map (p :: ·)

/-- Write files into a directory; the paths they have been written to. -/
def writeAll (fs : FileWriter m) (directory : Path) (files : List OutputFile) :
    m (Except FileFault (List Path)) := do
  match ← makeAll fs directory.parts.length directory with
  | .error e => return .error e
  | .ok () => writeEach fs directory files

end Output

end ClientForge
