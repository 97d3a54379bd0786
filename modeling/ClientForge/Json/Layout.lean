-- SUMMARY: A value laid out over several lines of at most a hundred columns, where it does not fit on one.
import ClientForge.Json.Display
import ClientForge.Text.Lines

/-!
# Layout

How a schema is shown below an error. A value that fits into the columns left to
it is displayed on one line. An object or an array that does not fit puts each
entry on a line of its own, under the first one; a long text is cut into pieces
at its blanks and line ends, in parentheses if it is the whole value. `indent` is
the column where a value starts and `allowance` what has to follow it on its last
line.
-/

namespace ClientForge

namespace Layout

/-- Columns of a line. -/
def width : Int := 100

def lineTo (indent : Nat) : List Char := '\n' :: List.replicate indent ' '

/-- The pieces of one line of a text: as many of its runs together as fit into
`room` columns, `lastRoom` for a piece that ends the whole text. -/
def packRuns (room lastRoom : Int) : List Char → List (List Char) → List (List Char)
  | current, [] => if current.isEmpty then [] else [current]
  | current, r :: rs =>
    let candidate := current ++ r
    let limit := if rs.isEmpty then lastRoom else room
    if ((Text.quoted candidate).length : Int) ≤ limit then packRuns room lastRoom candidate rs
    else (if current.isEmpty then [] else [current]) ++ packRuns room lastRoom r rs

/-- The pieces of a text, line by line. -/
def pieces (room allowance : Int) : List Text.Line → List (List Char)
  | [] => []
  | l :: ls =>
    let lastRoom := if ls.isEmpty then room - allowance else room
    let here :=
      if ((Text.quoted l.whole).length : Int) ≤ lastRoom then [l.whole]
      else packRuns room lastRoom [] (Text.runs l.whole)
    here ++ pieces room allowance ls

/-- A text cut into quoted pieces, each on a line of its own. -/
def ofText (whole : Bool) (indent allowance : Nat) (cs : List Char) : List Char :=
  let indent := if whole then indent + 1 else indent
  let allowance := if whole then allowance + 1 else allowance
  match pieces (width - indent) allowance (Text.lines cs) with
  | [] => Text.quoted cs
  | [piece] => Text.quoted piece
  | several =>
    let body := (lineTo indent).intercalate (several.map Text.quoted)
    if whole then '(' :: body ++ [')'] else body

mutual

/-- The layout of a value; `whole` marks the one at the top. -/
def ofValue (whole : Bool) (indent allowance : Nat) : Json → List Char
  | .obj members =>
    let flat := (Json.obj members).display
    if (flat.length : Int) ≤ width - indent - allowance then flat
    else '\x7b' :: ofMembers (indent + 1) (allowance + 1) members ++ ['\x7d']
  | .arr items =>
    let flat := (Json.arr items).display
    if (flat.length : Int) ≤ width - indent - allowance then flat
    else '[' :: ofItems (indent + 1) (allowance + 1) items ++ [']']
  | .str s =>
    let flat := Text.quoted s.toList
    if (flat.length : Int) ≤ width - indent - allowance then flat
    else ofText whole indent allowance s.toList
  | v => v.display

def ofItems (indent allowance : Nat) : List Json → List Char
  | [] => []
  | [v] => ofValue false indent allowance v
  | v :: vs => ofValue false indent 1 v ++ ',' :: lineTo indent ++ ofItems indent allowance vs

def ofMembers (indent allowance : Nat) : List (Key × Json) → List Char
  | [] => []
  | [(k, v)] =>
    k.display ++ ':' :: ' ' :: ofValue false (indent + k.display.length + 2) allowance v
  | (k, v) :: ms =>
    k.display ++ ':' :: ' ' :: ofValue false (indent + k.display.length + 2) 1 v ++
      ',' :: lineTo indent ++ ofMembers indent allowance ms

end

end Layout

/-- A value laid out from the left margin. -/
def Json.laidOut (v : Json) : String := String.ofList (Layout.ofValue true 0 0 v)

end ClientForge
