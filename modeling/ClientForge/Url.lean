-- SUMMARY: Joining the parts of a URL path with single slashes.

/-!
# URL paths

`Url.join` puts exactly one slash between the parts of a path. A slash at the
very front is kept; parts that are empty, or hold slashes only, leave no trace
behind the front.
-/

namespace ClientForge

namespace Url

/-- A part without the slashes at its ends. -/
def stripSlashes (cs : List Char) : List Char :=
  ((cs.dropWhile (· == '/')).reverse.dropWhile (· == '/')).reverse

/-- The parts that have something between their slashes. -/
def segments (parts : List (List Char)) : List (List Char) :=
  (parts.map stripSlashes).filter (! ·.isEmpty)

def joinChars (parts : List (List Char)) : List Char :=
  match parts.filter (! ·.isEmpty) with
  | [] => []
  | first :: rest =>
    (if first.head? = some '/' then ['/'] else []) ++ ['/'].intercalate (segments (first :: rest))

def join (parts : List String) : String := String.ofList (joinChars (parts.map String.toList))

end Url

end ClientForge
