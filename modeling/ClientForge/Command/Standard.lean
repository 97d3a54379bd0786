-- SUMMARY: The libraries that the program runs with.
import ClientForge.Command.Arguments
import ClientForge.Command.Run
import ClientForge.Settings.Form
import ClientForge.Yaml.WellFormed

/-!
# Standard libraries

Readers of JSON and of a part of YAML, the check of the form of settings, and the reader of
the command's arguments. The program is run with them; what is proved of runs holds of
whatever libraries there are.
-/

namespace ClientForge

def Readers.standard : Readers where
  json cs := Json.sound (Json.read cs) fun _ => Json.wellFormed_of_read
  yaml cs := Json.sound (Yaml.read cs) fun _ => Yaml.wellFormed_of_read

/-- The libraries on a file system. -/
def Command.Libraries.standard {m : Type → Type} [Monad m] (fs : FileReader m) : Libraries m where
  readers := .standard
  validate := Settings.validate
  arguments := invocation fs

end ClientForge
