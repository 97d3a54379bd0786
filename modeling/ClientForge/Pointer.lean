-- SUMMARY: Local references and the nodes of a document that they point to.
import ClientForge.Failure
import ClientForge.Text.Digit
import ClientForge.Text.Parts

/-!
# Pointers

A local reference is `#/` followed by steps with a slash between each two. A
step names a member of an object or, in decimal digits, an item of an array; in
it `~1` stands for a slash and `~0` for a tilde. `Pointer.target` follows a
reference from the root of a document to the object it points to.
-/

namespace ClientForge

namespace Pointer

/-- The step that is written between two slashes. -/
def unescape : List Char → List Char
  | '~' :: '1' :: cs => '/' :: unescape cs
  | '~' :: '0' :: cs => '~' :: unescape cs
  | c :: cs => c :: unescape cs
  | [] => []

/-- A fault of a reference that concerns no schema in particular. -/
def fault (f : ReferenceFault) (ref : Json) : Failure := .reference f ref .null

/-- One step down from a node. -/
def step (ref : Json) (node : Json) (name : List Char) : Except Failure Json :=
  match node with
  | .obj members =>
    match Members.get? members (.text (String.ofList name)) with
    | some v => .ok v
    | none => .error (fault .dangling ref)
  | .arr items =>
    if name.isEmpty ∨ ¬ name.all Text.isDigitLike then .error (fault .dangling ref)
    else
      match Text.number? name with
      | none => .error (.malformed .noNumber)
      | some i =>
        match items[i]? with
        | some v => .ok v
        | none => .error (fault .dangling ref)
  | _ => .error (fault .dangling ref)

/-- All steps down from a node. -/
def walk (ref : Json) (node : Json) (names : List (List Char)) : Except Failure Json :=
  names.foldlM (step ref) node

/-- The steps of a local reference. -/
def steps? : List Char → Option (List (List Char))
  | '#' :: '/' :: path => some ((Text.parts '/' path).map unescape)
  | _ => none

/-- The object that a reference points to. -/
def target (document : Members) (ref : Json) : Except Failure Members :=
  match ref with
  | .str s =>
    match steps? s.toList with
    | none => .error (fault .notLocal ref)
    | some names => do
      match ← walk ref (.obj document) names with
      | .obj members => .ok members
      | _ => .error (fault .notAnObject ref)
  | _ => .error (fault .notLocal ref)

end Pointer

end ClientForge
