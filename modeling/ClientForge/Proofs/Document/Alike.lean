-- SUMMARY: Values of documents that differ at most in what descriptions say.
import ClientForge.Api.Method
import ClientForge.Proofs.Outcome
import ClientForge.Proofs.Schema.Merge

/-!
# Alike values

Where a value stands in a document decides what its members are for: the `description`
of a schema is free text, while the property called `description` of another is a schema.
`Role` tells the places apart, and `Alike free ρ v w` says that two values in the place `ρ`
have one shape and agree in everything but the texts of descriptions, which may differ if
they are not empty and `free` holds. Without that freedom alike values are equal
(`alike_false_iff`).

Alike values cannot be told apart by looking: they are true together, have the same keys
with alike values (`AlikeMembers.get?`) and write the same references
(`references_of_alike`). Merging keeps values alike (`alike_merge`).
-/

namespace ClientForge

/-- What a value of a document stands for. A `specification` is a schema, a parameter or a
response. -/
inductive Role
  | document
  | paths
  | pathItem
  | operation
  | specification
  | named
  | listed
  | description
  | exact
  | other
deriving DecidableEq, Repr

namespace Role

/-- The members that are told apart in some place. -/
def fields : Role → List (String × Role)
  | .document =>
    [("paths", .paths), ("basePath", .exact), ("definitions", .named), ("parameters", .named),
      ("responses", .named)]
  | .pathItem => ("parameters", .listed) :: Method.verbs.map fun verb => (verb, .operation)
  | .operation =>
    [("operationId", .exact), ("summary", .exact), ("description", .description),
      ("parameters", .listed), ("responses", .named)]
  | .specification =>
    [("$ref", .exact), ("allOf", .listed), ("type", .exact), ("format", .exact), ("enum", .exact),
      ("required", .exact), ("discriminator", .exact), ("name", .exact), ("in", .exact),
      ("description", .description), ("properties", .named), ("items", .specification),
      ("additionalProperties", .specification), ("schema", .specification)]
  | .other => [("description", .description)]
  | _ => []

/-- What all other members stand for. -/
def rest : Role → Role
  | .paths => .pathItem
  | .named => .specification
  | .description => .exact
  | .exact => .exact
  | _ => .other

/-- What the member of a key stands for. -/
def member (ρ : Role) : Key → Role
  | .text s => (ρ.fields.lookup s).getD ρ.rest
  | _ => ρ.rest

/-- What the items of a list stand for. -/
def item : Role → Role
  | .listed => .specification
  | .named => .specification
  | .description => .exact
  | .exact => .exact
  | _ => .other

theorem member_congr {k k' : Key} (h : k.meaning = k'.meaning) (ρ : Role) :
    ρ.member k = ρ.member k' := by
  cases k with
  | text s => rw [Key.meaning_eq_text_iff.1 h.symm]
  | _ =>
    cases k' with
    | text s => cases Key.meaning_eq_text_iff.1 h
    | _ => rfl

@[simp] theorem member_exact (k : Key) : exact.member k = .exact := by cases k <;> rfl

@[simp] theorem member_named (k : Key) : named.member k = .specification := by cases k <;> rfl

@[simp] theorem member_paths (k : Key) : paths.member k = .pathItem := by cases k <;> rfl

theorem member_ref_ne (ρ : Role) : ρ.member Schema.refKey ≠ .description := by
  cases ρ <;> decide

end Role

/-! ## Alike values -/

mutual

/-- Two values agree but for descriptions. -/
def Alike (free : Prop) (ρ : Role) : Json → Json → Prop
  | .null, .null => True
  | .bool a, .bool b => a = b
  | .int m, .int n => m = n
  | .float x, .float y => x = y
  | .str s, .str t => s = t ∨ free ∧ ρ = .description ∧ s ≠ "" ∧ t ≠ ""
  | .arr vs, .arr ws => alikeItems free ρ.item vs ws
  | .obj ms, .obj ns => alikeMembers free ρ ms ns
  | _, _ => False

def alikeItems (free : Prop) (ρ : Role) : List Json → List Json → Prop
  | [], [] => True
  | v :: vs, w :: ws => Alike free ρ v w ∧ alikeItems free ρ vs ws
  | _, _ => False

def alikeMembers (free : Prop) (ρ : Role) : List (Key × Json) → List (Key × Json) → Prop
  | [], [] => True
  | (k, v) :: ms, (l, w) :: ns =>
    (k = l ∧ Alike free (ρ.member k) v w) ∧ alikeMembers free ρ ms ns
  | _, _ => False

end

section
variable {free : Prop} {ρ : Role}

/-- Two members of one key with alike values. -/
def AlikeMember (free : Prop) (ρ : Role) (m n : Key × Json) : Prop :=
  m.1 = n.1 ∧ Alike free (ρ.member m.1) m.2 n.2

/-- The members of two objects that are alike. -/
abbrev AlikeMembers (free : Prop) (ρ : Role) : Members → Members → Prop :=
  List.Forall₂ (AlikeMember free ρ)

theorem alikeItems_iff {vs ws : List Json} :
    alikeItems free ρ vs ws ↔ List.Forall₂ (Alike free ρ) vs ws := by
  induction vs generalizing ws with
  | nil => cases ws <;> simp [alikeItems]
  | cons v vs ih => cases ws <;> simp [alikeItems, ih]

theorem alikeMembers_iff {ms ns : Members} :
    alikeMembers free ρ ms ns ↔ AlikeMembers free ρ ms ns := by
  induction ms generalizing ns with
  | nil => cases ns <;> simp [alikeMembers]
  | cons m ms ih => cases ns <;> simp [alikeMembers, ih, AlikeMember]

theorem alike_arr {vs : List Json} {w : Json} :
    Alike free ρ (.arr vs) w ↔ ∃ ws, w = .arr ws ∧ List.Forall₂ (Alike free ρ.item) vs ws := by
  cases w <;> simp [Alike, alikeItems_iff]

theorem alike_obj {ms : Members} {w : Json} :
    Alike free ρ (.obj ms) w ↔ ∃ ns, w = .obj ns ∧ AlikeMembers free ρ ms ns := by
  cases w <;> simp [Alike, alikeMembers_iff]

theorem alike_obj_obj {ms ns : Members} :
    Alike free ρ (.obj ms) (.obj ns) ↔ AlikeMembers free ρ ms ns := by
  simp [alike_obj]

/-! ## Equal values -/

mutual

theorem alike_refl (ρ : Role) (v : Json) : Alike free ρ v v := by
  match v with
  | .arr vs => exact alikeItems_refl ρ.item vs
  | .obj ms => exact alikeMembers_refl ρ ms
  | .str _ => exact .inl rfl
  | .null => trivial
  | .bool _ => rfl
  | .int _ => rfl
  | .float _ => rfl

theorem alikeItems_refl (ρ : Role) (vs : List Json) : alikeItems free ρ vs vs := by
  match vs with
  | [] => trivial
  | v :: vs => exact ⟨alike_refl ρ v, alikeItems_refl ρ vs⟩

theorem alikeMembers_refl (ρ : Role) (ms : List (Key × Json)) : alikeMembers free ρ ms ms := by
  match ms with
  | [] => trivial
  | (k, v) :: ms => exact ⟨⟨rfl, alike_refl (ρ.member k) v⟩, alikeMembers_refl ρ ms⟩

end

mutual

/-- Alike values are equal where nothing may differ. -/
theorem eq_of_alike {ρ : Role} (hfixed : free → ρ = .exact) (v w : Json) (h : Alike free ρ v w) :
    v = w := by
  match v with
  | .arr vs =>
    cases w with
    | arr ws => rw [eq_of_alikeItems (fun hfree => by rw [hfixed hfree]; rfl) vs ws h]
    | _ => exact h.elim
  | .obj ms =>
    cases w with
    | obj ns => rw [eq_of_alikeMembers hfixed ms ns h]
    | _ => exact h.elim
  | .str s =>
    cases w with
    | str t =>
      rcases h with rfl | ⟨hfree, rfl, -⟩
      · rfl
      · cases hfixed hfree
    | _ => exact h.elim
  | .null => cases w <;> first | rfl | exact h.elim
  | .bool _ => cases w <;> first | exact congrArg _ h | exact h.elim
  | .int _ => cases w <;> first | exact congrArg _ h | exact h.elim
  | .float _ => cases w <;> first | exact congrArg _ h | exact h.elim

theorem eq_of_alikeItems {ρ : Role} (hfixed : free → ρ = .exact) (vs ws : List Json)
    (h : alikeItems free ρ vs ws) : vs = ws := by
  match vs with
  | [] => cases ws <;> first | rfl | exact h.elim
  | v :: vs =>
    cases ws with
    | nil => exact h.elim
    | cons w ws => rw [eq_of_alike hfixed v w h.1, eq_of_alikeItems hfixed vs ws h.2]

theorem eq_of_alikeMembers {ρ : Role} (hfixed : free → ρ = .exact) (ms ns : List (Key × Json))
    (h : alikeMembers free ρ ms ns) : ms = ns := by
  match ms with
  | [] => cases ns <;> first | rfl | exact h.elim
  | (k, v) :: ms =>
    cases ns with
    | nil => exact h.elim
    | cons n ns =>
      obtain ⟨l, w⟩ := n
      obtain ⟨⟨rfl, hv⟩, hrest⟩ := h
      have hmember : free → ρ.member k = .exact := fun hfree => by rw [hfixed hfree, Role.member_exact]
      rw [eq_of_alike hmember v w hv, eq_of_alikeMembers hfixed ms ns hrest]

end

theorem alike_exact_iff {v w : Json} : Alike free .exact v w ↔ v = w :=
  ⟨eq_of_alike (fun _ => rfl) v w, fun h => h ▸ alike_refl _ v⟩

theorem alike_false_iff {v w : Json} : Alike False ρ v w ↔ v = w :=
  ⟨eq_of_alike False.elim v w, fun h => h ▸ alike_refl _ v⟩

/-! ## What alike values have in common -/

theorem Alike.exists_members_iff {v w : Json} (h : Alike free ρ v w) :
    (∃ ms, v = .obj ms) ↔ ∃ ns, w = .obj ns := by
  cases v <;> cases w <;> first | exact h.elim | simp

theorem Alike.truthy {v w : Json} (h : Alike free ρ v w) : v.truthy = w.truthy := by
  cases v with
  | arr vs =>
    obtain ⟨ws, rfl, hitems⟩ := alike_arr.1 h
    cases hitems <;> rfl
  | obj ms =>
    obtain ⟨ns, rfl, hmembers⟩ := alike_obj.1 h
    cases hmembers <;> rfl
  | str s =>
    cases w with
    | str t =>
      rcases h with rfl | ⟨-, -, hs, ht⟩
      · rfl
      · rw [Json.truthy, Json.truthy, bne_iff_ne.2 hs, bne_iff_ne.2 ht]
    | _ => exact h.elim
  | null => cases w <;> first | rfl | exact h.elim
  | bool | int | float => cases w <;> first | exact congrArg Json.truthy (congrArg _ h) | exact h.elim

theorem Alike.orElse {v v' w w' : Json} (h : Alike free ρ v w) (h' : Alike free ρ v' w') :
    Alike free ρ (v.orElse v') (w.orElse w') := by
  unfold Json.orElse
  rw [h.truthy]
  split
  · exact h
  · exact h'

theorem writtenRef_of_alike {k : Key} {v w : Json} (h : Alike free (ρ.member k) v w) :
    Schema.writtenRef k v = Schema.writtenRef k w := by
  cases v with
  | str s =>
    cases w with
    | str t =>
      rcases h with rfl | ⟨-, hdescription, -⟩
      · rfl
      · have hne : k ≠ Schema.refKey := fun hk => ρ.member_ref_ne (hk ▸ hdescription)
        simp [Schema.writtenRef, hne]
    | _ => exact h.elim
  | _ => cases w <;> first | rfl | exact h.elim

mutual

theorem references_of_alike {ρ : Role} (v w : Json) (h : Alike free ρ v w) :
    Schema.references v = Schema.references w := by
  match v with
  | .arr vs =>
    cases w with
    | arr ws => exact references_of_alikeItems vs ws h
    | _ => exact h.elim
  | .obj ms =>
    cases w with
    | obj ns => exact references_of_alikeMembers ms ns h
    | _ => exact h.elim
  | .str _ => cases w <;> first | rfl | exact h.elim
  | .null => cases w <;> first | rfl | exact h.elim
  | .bool _ => cases w <;> first | rfl | exact h.elim
  | .int _ => cases w <;> first | rfl | exact h.elim
  | .float _ => cases w <;> first | rfl | exact h.elim

theorem references_of_alikeItems {ρ : Role} (vs ws : List Json) (h : alikeItems free ρ vs ws) :
    Schema.referencesOfItems vs = Schema.referencesOfItems ws := by
  match vs with
  | [] => cases ws <;> first | rfl | exact h.elim
  | v :: vs =>
    cases ws with
    | nil => exact h.elim
    | cons w ws =>
      rw [Schema.referencesOfItems, Schema.referencesOfItems, references_of_alike v w h.1,
        references_of_alikeItems vs ws h.2]

theorem references_of_alikeMembers {ρ : Role} (ms ns : List (Key × Json))
    (h : alikeMembers free ρ ms ns) :
    Schema.referencesOfMembers ms = Schema.referencesOfMembers ns := by
  match ms with
  | [] => cases ns <;> first | rfl | exact h.elim
  | (k, v) :: ms =>
    cases ns with
    | nil => exact h.elim
    | cons n ns =>
      obtain ⟨⟨rfl, hv⟩, hrest⟩ := h
      rw [Schema.referencesOfMembers, Schema.referencesOfMembers, writtenRef_of_alike hv,
        references_of_alike v n.2 hv, references_of_alikeMembers ms ns hrest]

end

namespace AlikeMembers

open Members

variable {ms ns : Members}

theorem get? (h : AlikeMembers free ρ ms ns) (k : Key) :
    Option.Rel (Alike free (ρ.member k)) (Members.get? ms k) (Members.get? ns k) := by
  induction h with
  | nil => exact .none
  | @cons m n ms ns hmn _ ih =>
    obtain ⟨k', v⟩ := m
    obtain ⟨l, w⟩ := n
    obtain ⟨rfl, hvalue⟩ := hmn
    unfold Members.get?
    split
    · rename_i hsame
      exact .some (Role.member_congr hsame ρ ▸ hvalue)
    · exact ih

theorem get (h : AlikeMembers free ρ ms ns) (k : Key) :
    Alike free (ρ.member k) (Members.get ms k) (Members.get ns k) := by
  have hvalues := h.get? k
  unfold Members.get
  generalize Members.get? ms k = held, Members.get? ns k = held' at hvalues
  cases hvalues with
  | none => exact alike_refl _ _
  | some hvalue => exact hvalue

theorem has (h : AlikeMembers free ρ ms ns) (k : Key) : Members.has ms k = Members.has ns k := by
  have hvalues := h.get? k
  unfold Members.has
  generalize Members.get? ms k = held, Members.get? ns k = held' at hvalues
  cases hvalues <;> rfl

theorem filter (h : AlikeMembers free ρ ms ns) (keep : Key → Bool) :
    AlikeMembers free ρ (ms.filter fun m => keep m.1) (ns.filter fun n => keep n.1) := by
  induction h with
  | nil => exact .nil
  | cons hmn _ ih =>
    rw [List.filter_cons, List.filter_cons, hmn.1]
    split
    · exact .cons hmn ih
    · exact ih

theorem put (h : AlikeMembers free ρ ms ns) {k : Key} {v w : Json}
    (hvalue : Alike free (ρ.member k) v w) :
    AlikeMembers free ρ (Members.put ms k v) (Members.put ns k w) := by
  induction h with
  | nil => exact .cons ⟨rfl, hvalue⟩ .nil
  | @cons m n ms ns hmn hrest ih =>
    obtain ⟨k', v'⟩ := m
    obtain ⟨l, w'⟩ := n
    obtain ⟨rfl, hvalue'⟩ := hmn
    unfold Members.put
    split
    · rename_i hsame
      exact .cons ⟨rfl, Role.member_congr hsame ρ ▸ hvalue⟩ hrest
    · exact .cons ⟨rfl, hvalue'⟩ ih

end AlikeMembers

/-! ## Merging -/

mutual

theorem alike_merge {ρ : Role} {a a' : Members} (ha : AlikeMembers free ρ a a')
    (b b' : List (Key × Json)) (hb : alikeMembers free ρ b b') :
    AlikeMembers free ρ (Members.merge a b) (Members.merge a' b') := by
  match b with
  | [] => cases b' <;> first | exact ha | exact hb.elim
  | (k, v) :: rest =>
    cases b' with
    | nil => exact hb.elim
    | cons n rest' =>
      obtain ⟨l, w⟩ := n
      obtain ⟨⟨rfl, hv⟩, hrest⟩ := hb
      rw [Members.merge, Members.merge]
      exact alike_merge (ha.put (alike_combine (ha.get? k) v w hv)) rest rest' hrest

theorem alike_combine {ρ : Role} {held held' : Option Json} (hheld : Option.Rel (Alike free ρ) held held')
    (v w : Json) (h : Alike free ρ v w) :
    Alike free ρ (Members.combine held v) (Members.combine held' w) := by
  match v with
  | .arr vs =>
    obtain ⟨ws, rfl, hitems⟩ := alike_arr.1 h
    cases hheld with
    | none => exact h
    | @some u u' hu =>
      cases u with
      | arr us =>
        obtain ⟨us', rfl, hus⟩ := alike_arr.1 hu
        exact alike_arr.2 ⟨_, rfl, List.rel_append hus hitems⟩
      | obj us =>
        obtain ⟨us', rfl, hus⟩ := alike_obj.1 hu
        exact h
      | _ => cases u' <;> first | exact h | exact hu.elim
  | .obj ms =>
    cases w with
    | obj ns =>
      cases hheld with
      | none => exact h
      | @some u u' hu =>
        cases u with
        | obj us =>
          obtain ⟨us', rfl, hus⟩ := alike_obj.1 hu
          exact alike_obj_obj.2 (alike_merge hus ms ns h)
        | arr us =>
          obtain ⟨us', rfl, hus⟩ := alike_arr.1 hu
          exact h
        | _ => cases u' <;> first | exact h | exact hu.elim
    | _ => exact h.elim
  | .str _ => cases w <;> first | exact h | exact h.elim
  | .null => cases w <;> first | exact h | exact h.elim
  | .bool _ => cases w <;> first | exact h | exact h.elim
  | .int _ => cases w <;> first | exact h | exact h.elim
  | .float _ => cases w <;> first | exact h | exact h.elim

end

theorem AlikeMembers.mergeAll {parts parts' : List Members}
    (h : List.Forall₂ (AlikeMembers free ρ) parts parts') :
    AlikeMembers free ρ (Members.mergeAll parts) (Members.mergeAll parts') := by
  have hfold : ∀ {a a' : Members}, AlikeMembers free ρ a a' →
      AlikeMembers free ρ (parts.foldl Members.merge a) (parts'.foldl Members.merge a') := by
    induction h with
    | nil => exact fun ha => ha
    | cons hpart _ ih => exact fun ha => ih (alike_merge ha _ _ (alikeMembers_iff.2 hpart))
  exact hfold .nil

end

end ClientForge
