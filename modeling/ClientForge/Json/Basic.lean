-- SUMMARY: JSON values with ordered members, their truth, and looking up members.
import ClientForge.Number.Binary

/-!
# JSON values

The values that documents and settings are made of. An object keeps its members
in the order in which they were written; a key is a text, or any other single
value in documents that allow it. Keys are looked up by what they mean, so that `1`,
`1.0` and `true` are the same key written in three ways; an object has it in the way
that came first. What readers give has distinct keys at every depth, which is
`Json.WellFormed` (`Json.wellFormed_of_read`, `Yaml.wellFormed_of_read`).
-/

namespace ClientForge

/-- The key of a member. -/
inductive Key
  | text (s : String)
  | int (n : Int)
  | float (x : Fraction)
  | bool (b : Bool)
  | null
deriving DecidableEq, Repr, Inhabited

inductive Json
  | null
  | bool (b : Bool)
  | int (n : Int)
  | float (x : Fraction)
  | str (s : String)
  | arr (items : List Json)
  | obj (members : List (Key × Json))
deriving Repr, Inhabited

/-- The members of an object, in order. -/
abbrev Members := List (Key × Json)

/-- The value that a key stands for on its own. -/
def Key.toJson : Key → Json
  | .text s => .str s
  | .int n => .int n
  | .float x => .float x
  | .bool b => .bool b
  | .null => .null

instance : Coe String Key := ⟨Key.text⟩

/-- What a key means: a text itself, a number or a truth value its numeric value. -/
inductive Key.Meaning
  | text (s : String)
  | number (x : Magnitude)
  | null
deriving DecidableEq

def Key.meaning : Key → Key.Meaning
  | .text s => .text s
  | .int n => .number (.value n)
  | .float x => .number x.magnitude
  | .bool b => .number (.value (if b then 1 else 0))
  | .null => .null

/-! ## Members -/

namespace Members

/-- The value of a key. -/
def get? : Members → Key → Option Json
  | [], _ => none
  | (k', v) :: ms, k => if k'.meaning = k.meaning then some v else get? ms k

/-- The value of a key, null if it has none. -/
def get (ms : Members) (k : Key) : Json := (get? ms k).getD .null

def has (ms : Members) (k : Key) : Bool := (get? ms k).isSome

def keys (ms : Members) : List Key := ms.map Prod.fst

/-- What the keys mean. -/
def meanings (ms : Members) : List Key.Meaning := ms.map (·.1.meaning)

/-- Set a key: at its place if it has one, as it is written there, else at the end. -/
def put : Members → Key → Json → Members
  | [], k, v => [(k, v)]
  | (k', v') :: ms, k, v =>
    if k'.meaning = k.meaning then (k', v) :: ms else (k', v') :: put ms k v

/-- The members written one after another: a repeated key keeps its first place
and its last value. -/
def ofWritten (written : List (Key × Json)) : Members :=
  written.foldl (fun ms kv => put ms kv.1 kv.2) []

end Members

/-! ## Truth -/

/-- Null, false, zero and everything empty are false, all else is true. -/
def Json.truthy : Json → Bool
  | .null => false
  | .bool b => b
  | .int n => n != 0
  | .float x => !x.isZero
  | .str s => s != ""
  | .arr items => !items.isEmpty
  | .obj members => !members.isEmpty

/-- The first value if it is true, else the second. -/
def Json.orElse (v w : Json) : Json := if v.truthy then v else w

/-! ## Distinct keys -/

mutual

/-- Every object, at any depth, has distinct keys. -/
def Json.WellFormed : Json → Prop
  | .arr items => wellFormedItems items
  | .obj members => (Members.meanings members).Nodup ∧ wellFormedMembers members
  | _ => True

def Json.wellFormedItems : List Json → Prop
  | [] => True
  | v :: vs => v.WellFormed ∧ wellFormedItems vs

def Json.wellFormedMembers : List (Key × Json) → Prop
  | [] => True
  | (_, v) :: ms => v.WellFormed ∧ wellFormedMembers ms

end

end ClientForge
