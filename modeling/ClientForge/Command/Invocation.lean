-- SUMMARY: What the arguments of the command come to.
import ClientForge.Settings

/-!
# Invocations

However the arguments are read, they come to one of four: they are refused, they ask what
the arguments are, reading them breaks off, or they ask for a run.
-/

namespace ClientForge

namespace Command

/-- What a run is asked for. -/
structure Wishes where
  request : SettingsRequest
  /-- Names of parameters as the document has them. -/
  snake : Bool
  verbose : Bool
deriving DecidableEq, Repr, Inhabited

inductive Invocation
  | refused
  | help (text : String)
  | broken (cause : Failure)
  | asked (wishes : Wishes)

end Command

end ClientForge
