-- SUMMARY: How values are shown in messages and inserted into generated text.
import ClientForge.Json.Basic
import ClientForge.Number.Shortest
import ClientForge.Text.Quoted

/-!
# Showing values

`Json.display` is the form of a value in a message: texts are quoted, objects
and arrays stand on one line. `Json.asText` differs from it for a text at the top,
which stands for itself; it is what generated files and names are built from.
-/

namespace ClientForge

def boolDisplay (b : Bool) : List Char := if b then "True".toList else "False".toList

def intDisplay (n : Int) : List Char :=
  if n < 0 then '-' :: Nat.toDigits 10 n.natAbs else Nat.toDigits 10 n.natAbs

def nullDisplay : List Char := "None".toList

def Key.display : Key → List Char
  | .text s => Text.quoted s.toList
  | .int n => intDisplay n
  | .float x => x.text
  | .bool b => boolDisplay b
  | .null => nullDisplay

/-- A text as it is, anything else as it is displayed. -/
def Key.asText : Key → String
  | .text s => s
  | k => String.ofList k.display

namespace Json

mutual

def display : Json → List Char
  | .null => nullDisplay
  | .bool b => boolDisplay b
  | .int n => intDisplay n
  | .float x => x.text
  | .str s => Text.quoted s.toList
  | .arr items => '[' :: displayItems items ++ [']']
  | .obj members => '\x7b' :: displayMembers members ++ ['\x7d']

def displayItems : List Json → List Char
  | [] => []
  | [v] => display v
  | v :: vs => display v ++ ',' :: ' ' :: displayItems vs

def displayMembers : List (Key × Json) → List Char
  | [] => []
  | [(k, v)] => k.display ++ ':' :: ' ' :: display v
  | (k, v) :: ms => k.display ++ ':' :: ' ' :: display v ++ ',' :: ' ' :: displayMembers ms

end

def displayed (v : Json) : String := String.ofList v.display

/-- A text as it is, anything else as it is displayed. -/
def asText : Json → String
  | .str s => s
  | v => v.displayed

end Json

/-- An optional text, shown as it is. -/
def showText : Option String → String
  | some s => s
  | none => String.ofList nullDisplay

/-- An optional text, displayed. -/
def displayText : Option String → String
  | some s => String.ofList (Text.quoted s.toList)
  | none => String.ofList nullDisplay

end ClientForge
