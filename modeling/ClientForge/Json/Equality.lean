-- SUMMARY: When two JSON values are equal, and leaving keys out of a value.
import ClientForge.Json.Basic

/-!
# Equality of values

Two values are the same when they mean the same: numbers and truth values are
compared by their numeric value, so that `1`, `1.0` and `true` agree, and objects
without regard to the order of their members. `Json.without` removes a key at every
depth, and `Json.sameIgnoring` compares what is left.
-/

namespace ClientForge

namespace Json

/-- The numeric value of a number or a truth value. -/
def number? : Json → Option Magnitude
  | .bool b => some (.value (if b then 1 else 0))
  | .int n => some (.value n)
  | .float x => some x.magnitude
  | _ => none

mutual

def same : Json → Json → Bool
  | .null, .null => true
  | .str a, .str b => a == b
  | .arr a, .arr b => sameItems a b
  | .obj a, .obj b => a.length == b.length && sameMembers a b
  | a, b =>
    match a.number?, b.number? with
    | some x, some y => x == y
    | _, _ => false

def sameItems : List Json → List Json → Bool
  | [], [] => true
  | v :: vs, w :: ws => same v w && sameItems vs ws
  | _, _ => false

/-- Every member on the left has the same value on the right. -/
def sameMembers : List (Key × Json) → List (Key × Json) → Bool
  | [], _ => true
  | (k, v) :: ms, other =>
    (match Members.get? other k with
      | some w => same v w
      | none => false) && sameMembers ms other

end

/-- Whether a value is among some others. -/
def isAmong (v : Json) (vs : List Json) : Bool := vs.any (v.same ·)

/-! ## Leaving keys out -/

mutual

/-- A value without the members of a key, at any depth. -/
def without (k : Key) : Json → Json
  | .arr items => .arr (withoutItems k items)
  | .obj members => .obj (withoutMembers k members)
  | v => v

def withoutItems (k : Key) : List Json → List Json
  | [] => []
  | v :: vs => without k v :: withoutItems k vs

def withoutMembers (k : Key) : List (Key × Json) → List (Key × Json)
  | [] => []
  | (k', v) :: ms =>
    if k'.meaning = k.meaning then withoutMembers k ms
    else (k', without k v) :: withoutMembers k ms

end

def withoutAll (ks : List Key) (v : Json) : Json := ks.foldl (fun v k => without k v) v

/-- Equality with some keys left out on both sides. -/
def sameIgnoring (ks : List Key) (a b : Json) : Bool := (a.withoutAll ks).same (b.withoutAll ks)

end Json

end ClientForge
