-- SUMMARY: Schemas with their references followed and their compositions merged.
import ClientForge.Pointer
import ClientForge.Schema.Merge
import ClientForge.Json.Equality

/-!
# Resolving schemas

A schema may point to another one with `$ref` and be composed of others with
`allOf`. Resolving replaces both at the top of a schema: the target of the
reference, then the resolved branches in order, then the schema's own members are
merged, and the result is resolved again if it came from a reference. Own
members, being last, win.

One reference may be left out, which is how a base class stays an edge instead of
being merged in.

`fresh` holds the references that may still be followed on the way to a schema,
at first all there are; a reference that is no longer among them is circular.
Branches are resolved by recursion on the schema. A reference leads out of it, but
uses up a fresh one, so resolving ends.
-/

namespace ClientForge

namespace Schema

/-! ## References of a value -/

def refKey : Key := .text "$ref"

def allOfKey : Key := .text "allOf"

/-- The reference that a member writes, if it does. -/
def writtenRef (k : Key) : Json → List String
  | .str s => if k = refKey then [s] else []
  | _ => []

mutual

/-- All references written in a value, at any depth. -/
def references : Json → List String
  | .arr items => referencesOfItems items
  | .obj members => referencesOfMembers members
  | _ => []

def referencesOfItems : List Json → List String
  | [] => []
  | v :: vs => references v ++ referencesOfItems vs

def referencesOfMembers : List (Key × Json) → List String
  | [] => []
  | (k, v) :: ms => writtenRef k v ++ references v ++ referencesOfMembers ms

end

/-! ## One layer of a schema -/

/-- What is resolved: references, compositions, or both. -/
structure Mode where
  refs : Bool
  allOf : Bool
deriving DecidableEq, Repr

/-- The mode in which the branches of a composition are resolved: always with
their references, of which a merge could keep only one. -/
def Mode.ofBranches (m : Mode) : Mode := { m with refs := true }

/-- The members that are not resolved away. -/
def Mode.own (m : Mode) (ms : Members) : Members :=
  ms.filter fun kv => !(m.refs && kv.1 == refKey) && !(m.allOf && kv.1 == allOfKey)

/-- The reference to follow from a schema, unless it has none or it is the one to
leave out. -/
def Mode.ref? (m : Mode) (ignored : Json) (ms : Members) : Option Json :=
  let ref := Members.get ms refKey
  if m.refs && ref.truthy && !ref.same ignored then some ref else none

/-- What the value of a composition gives that is no list. A text or an object has
entries, but none that is a schema. -/
def noBranches (v : Json) : Except Failure (List Members) :=
  if !v.truthy then .ok []
  else
    match v with
    | .str _ => .error (.malformed .noMembers)
    | .obj _ => .error (.malformed .noMembers)
    | _ => .error (.malformed .noEntries)

/-- The references that stay fresh once one is followed. -/
def without (fresh : List String) (ref : String) : List String := fresh.filter (· != ref)

theorem length_without_lt {fresh : List String} {ref : String} (h : ref ∈ fresh) :
    (without fresh ref).length < fresh.length :=
  List.length_filter_lt_length_iff_exists.2 ⟨ref, h, by simp⟩

/-! ## Resolving -/

/-- How a schema is resolved that a reference has led to, in a mode and with the
references that are still fresh then. -/
abbrev Follow := Mode → List String → Json → Except Failure Members

mutual

/-- A schema resolved, given how to go on from a reference. -/
def resolveBy (document : Members) (ignored : Json) (follow : Follow) (m : Mode)
    (fresh : List String) : Json → Except Failure Members
  | .obj ms =>
    match m.ref? ignored ms with
    | none => do
      let parts ← branchParts document ignored follow m fresh ms
      return Members.mergeAll (parts ++ [m.own ms])
    | some ref => do
      match ← ref.key with
      | .str s =>
        if s ∈ fresh then do
          let start ← Pointer.target document ref
          let parts ← branchParts document ignored follow m (without fresh s) ms
          follow m (without fresh s) (.obj (Members.mergeAll (start :: parts ++ [m.own ms])))
        else .error (.reference .circular ref (.obj ms))
      | _ => .error (Pointer.fault .notLocal ref)
  | _ => .error (.malformed .noMembers)

/-- The branches among some members, resolved. -/
def branchParts (document : Members) (ignored : Json) (follow : Follow) (m : Mode)
    (fresh : List String) : List (Key × Json) → Except Failure (List Members)
  | [] => .ok []
  | (k, v) :: ms =>
    if m.allOf && k == allOfKey then resolveBranches document ignored follow m fresh v
    else branchParts document ignored follow m fresh ms

/-- The branches that a composition's value lists, resolved. -/
def resolveBranches (document : Members) (ignored : Json) (follow : Follow) (m : Mode)
    (fresh : List String) : Json → Except Failure (List Members)
  | .arr items => resolveEach document ignored follow m.ofBranches fresh items
  | v => noBranches v

def resolveEach (document : Members) (ignored : Json) (follow : Follow) (m : Mode)
    (fresh : List String) : List Json → Except Failure (List Members)
  | [] => .ok []
  | v :: vs => do
    let first ← resolveBy document ignored follow m fresh v
    let rest ← resolveEach document ignored follow m fresh vs
    return first :: rest

end

/-- A schema resolved with at most `steps` references followed one after another;
there are never more than fresh ones. -/
def resolveWith (document : Members) (ignored : Json) (steps : Nat) : Follow :=
  match steps with
  | 0 => resolveBy document ignored fun _ _ _ => .error .tooDeep
  | steps + 1 => resolveBy document ignored (resolveWith document ignored steps)

/-- A schema of a document resolved at its top. -/
def resolve (document : Members) (ignored : Json) (m : Mode) (schema : Json) :
    Except Failure Members :=
  let fresh := references (.obj document) ++ references schema
  resolveWith document ignored fresh.length m fresh schema

/-- References followed, compositions left in place. -/
def followRefs (document : Members) (schema : Json) (ignored : Json) : Except Failure Members :=
  resolve document ignored ⟨true, false⟩ schema

/-- References followed and compositions merged. -/
def flatten (document : Members) (schema : Json) (ignored : Json) : Except Failure Members :=
  resolve document ignored ⟨true, true⟩ schema

end Schema

end ClientForge
