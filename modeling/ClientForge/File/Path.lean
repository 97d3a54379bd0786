-- SUMMARY: Paths of files: reading, printing, joining and resolving them.
import ClientForge.Text.Parts

/-!
# Paths

A path starts at a root or is relative, and has parts. Reading a path drops empty
parts and those that are a single dot; two dots stay, since they mean something
only where the path is looked up, and `Path.resolved` takes them back.
-/

namespace ClientForge

/-- Where a path starts. Exactly two slashes are a root with a name of its own. -/
inductive Path.Root
  | here
  | slash
  | twoSlashes
deriving DecidableEq, Repr, Inhabited

structure Path where
  root : Path.Root
  parts : List String
deriving DecidableEq, Repr, Inhabited

namespace Path

def Root.ofChars : List Char → Root
  | ['/', '/'] => .twoSlashes
  | '/' :: '/' :: c :: _ => if c = '/' then .slash else .twoSlashes
  | '/' :: _ => .slash
  | _ => .here

def Root.text : Root → String
  | .here => ""
  | .slash => "/"
  | .twoSlashes => "//"

def isAbsolute (p : Path) : Bool := p.root != .here

/-- Whether a part says something. -/
def isPart (s : String) : Bool := s != "" && s != "."

def ofString (s : String) : Path where
  root := Root.ofChars s.toList
  parts := ((Text.parts '/' s.toList).map String.ofList).filter isPart

/-- Whether the last part of a path as it is written says nothing, so that only a
directory can be meant. -/
def endsOpen (s : String) : Bool :=
  match (Text.parts '/' s.toList).getLast? with
  | none => true
  | some part => !isPart (String.ofList part)

def toString (p : Path) : String :=
  if p.parts.isEmpty ∧ !p.isAbsolute then "." else String.join [p.root.text, "/".intercalate p.parts]

/-- Whether the character that ends all texts of a file system is in a path, which
then means no place. -/
def endsEarly (p : Path) : Bool := p.parts.any fun part => part.toList.contains '\x00'

/-- A path seen from another one; an absolute path is the same from everywhere. -/
def join (base p : Path) : Path :=
  if p.isAbsolute then p else { base with parts := base.parts ++ p.parts }

/-- The path without its last part. -/
def parent (p : Path) : Path := { p with parts := p.parts.dropLast }

/-- One part further, two dots being a step back. -/
def stepTo (place : List String) (part : String) : List String :=
  if part = ".." then place.dropLast else place ++ [part]

/-- The absolute path without steps back that a path means in a directory. -/
def resolved (directory p : Path) : Path where
  root := .slash
  parts := (join directory p).parts.foldl stepTo []

/-- The ending of the last part, from its last dot; a leading dot starts none, and
a dot at the end is none. -/
def suffix (p : Path) : String :=
  match p.parts.getLast? with
  | none => ""
  | some name =>
    let cs := name.toList.reverse
    let ending := (cs.takeWhile (· ≠ '.')).reverse
    let before := (cs.dropWhile (· ≠ '.')).drop 1
    if ending.isEmpty ∨ ending.length = cs.length ∨ before.isEmpty then ""
    else String.ofList ('.' :: ending)

end Path

end ClientForge
