-- SUMMARY: Member and class names of the generated code, built from arbitrary text.
import ClientForge.Name.Words
import ClientForge.Text.Upper

/-!
# Identifiers

Names of generated members and classes. The parts of a name are joined by a
slash and split into words; the words are put together in camel case, and a name
that would start with a digit gets an underscore in front. A member name that
is a reserved word is quoted in backticks; a class name starts with a capital.
-/

namespace ClientForge

namespace Name

/-! ## Camel case -/

def lower (word : List Char) : List Char := word.map Char.toLower

def capitalized (word : List Char) : List Char :=
  match lower word with
  | [] => []
  | c :: cs => c.toUpper :: cs

/-- The words of a text run together, each but the first with a capital. -/
def camelChars (cs : List Char) : List Char :=
  match Words.split cs with
  | [] => []
  | w :: ws => lower w ++ ws.flatMap capitalized

def camel (s : String) : String := String.ofList (camelChars s.toList)

/-! ## Names from parts -/

/-- The parts of a name with a slash between each two. -/
def slashed (parts : List String) : List Char :=
  ['/'].intercalate (parts.map String.toList)

/-- Camel case over all parts, with an underscore in front of a digit. -/
def joined (parts : List String) : List Char :=
  match camelChars (slashed parts) with
  | [] => []
  | c :: cs => if Text.isDigitLike c then '_' :: c :: cs else c :: cs

/-- Words that the generated code cannot use as a member name as they stand. -/
def reservedMembers : List String := ["default", "as"]

/-- A member name: camel case, a reserved word in backticks. -/
def ofMember (parts : List String) : String :=
  let name := String.ofList (joined parts)
  if name ∈ reservedMembers then String.join ["`", name, "`"] else name

/-- A class name: camel case with a capital. -/
def ofClass (parts : List String) : String :=
  String.ofList (Text.upperFirst (joined parts))

/-- The parts from `skip` on; a negative `skip` counts from the end. -/
def partsFrom (skip : Int) (parts : List String) : List String :=
  if 0 ≤ skip then parts.drop skip.toNat
  else parts.drop (parts.length - (-skip).toNat)

/-- Class names that may not come about by leaving parts out. -/
def reservedClasses : List String := ["Type"]

/-- A class name from the parts from `skip` on, or from all of them where that
name is reserved. -/
def ofClassFrom (skip : Int) (parts : List String) : String :=
  let name := ofClass (partsFrom skip parts)
  if skip ≠ 0 ∧ name ∈ reservedClasses then ofClass parts else name

/-! ## Names from references -/

/-- What follows the last slash of a reference. -/
def lastComponent (reference : String) : String :=
  String.ofList (reference.toList.reverse.takeWhile (· ≠ '/')).reverse

/-- The class name of what a reference points to. -/
def ofReference (reference : String) : String := ofClass [lastComponent reference]

end Name

end ClientForge
