-- SUMMARY: The branch that a schema extends, and what becomes of a schema without it.
import ClientForge.Proofs.Inference.Plan
import ClientForge.Proofs.Schema.Contribution

/-!
# Extension

A schema extends the first branch with a reference that it is composed of
(`IsBase`). Whatever contributes to the schema contributes to it without that branch
or to the branch (`contributes_settle`), so nothing is lost when the base class is
inferred on its own.
-/

namespace ClientForge

namespace Inference

open Members Outcome Schema

/-- A schema that is nothing but a reference. -/
def refTo (ref : String) : Json := .obj [("$ref", .str ref)]

theorem wellFormed_refTo (ref : String) : (refTo ref).WellFormed := by
  simp [refTo, Json.WellFormed, Json.wellFormedMembers, meanings]

/-- A reference alone is composed of nothing. -/
theorem isPlain_ref (ref : String) : IsPlain [(refKey, .str ref)] := by
  intro v hv
  have hkey : allOfKey = refKey := congrArg Prod.fst (List.mem_singleton.1 hv)
  exact absurd hkey (by decide)

/-- An empty reference is not followed. -/
theorem settle_refTo_empty (document : Members) : settle document (refTo "") =
    .ok (none, mergeAll [(⟨true, true⟩ : Mode).own [(refKey, .str "")]]) :=
  settle_of_isPlain rfl (isPlain_ref "")

def petProperties : Members := [("name", .obj [("type", .str "string")])]

/-- A class that others extend. -/
def petMembers : Members := [("type", .str "object"), ("properties", .obj petProperties)]

def petRef : Json := refTo "#/definitions/Pet"

/-- The branch that becomes the base class of a schema. -/
def IsBase (document : Members) (schema branch : Json) : Prop :=
  ∃ followed, followRefs document schema .null = .ok followed ∧
    baseSchema? followed = .ok (some branch)

section
variable {document : Members} {schema : Json}

theorem settle_eq_ok {branch : Option Json} {resolved : Members} :
    settle document schema = .ok (branch, resolved) ↔
      ∃ followed, followRefs document schema .null = .ok followed ∧
        baseSchema? followed = .ok branch ∧
        flatten document schema (baseRef branch) = .ok resolved := by
  unfold settle
  simp only [bind_eq_ok, pure_eq, Except.ok.injEq, Prod.mk.injEq]
  constructor
  · rintro ⟨followed, hfollowed, branch', hbranch, resolved', hresolved, rfl, rfl⟩
    exact ⟨followed, hfollowed, hbranch, hresolved⟩
  · rintro ⟨followed, hfollowed, hbranch, hresolved⟩
    exact ⟨followed, hfollowed, branch, hbranch, resolved, hresolved, rfl, rfl⟩

theorem flatten_of_settle {branch : Option Json} {resolved : Members}
    (h : settle document schema = .ok (branch, resolved)) :
    flatten document schema (baseRef branch) = .ok resolved := by
  obtain ⟨_, _, _, h⟩ := settle_eq_ok.1 h
  exact h

theorem isBase_iff_of_settle {branch : Option Json} {resolved : Members} {b : Json}
    (h : settle document schema = .ok (branch, resolved)) :
    IsBase document schema b ↔ branch = some b := by
  obtain ⟨followed, hfollowed, hbranch, -⟩ := settle_eq_ok.1 h
  constructor
  · rintro ⟨followed', hfollowed', hbranch'⟩
    cases hfollowed.symm.trans hfollowed'
    exact Except.ok.inj (hbranch.symm.trans hbranch')
  · rintro rfl
    exact ⟨followed, hfollowed, hbranch⟩

theorem IsBase.unique {b b' : Json} (h : IsBase document schema b) (h' : IsBase document schema b') :
    b = b' := by
  obtain ⟨followed, hfollowed, hbranch⟩ := h
  obtain ⟨followed', hfollowed', hbranch'⟩ := h'
  cases hfollowed.symm.trans hfollowed'
  cases hbranch.symm.trans hbranch'
  rfl

theorem mem_items_of_entries {v : Json} {entries : List Json} {bs : Members}
    (h : v.entries = .ok entries) (hmem : .obj bs ∈ entries) : v = .arr entries := by
  cases v with
  | arr items => exact congrArg Json.arr (Except.ok.inj h)
  | str s =>
    cases h
    obtain ⟨c, -, hc⟩ := List.mem_map.1 hmem
    cases hc
  | obj ms =>
    cases h
    obtain ⟨m, -, hm⟩ := List.mem_map.1 hmem
    cases hkey : m.1 <;> simp [hkey, Key.toJson] at hm
  | _ => cases h

/-- A base branch is a branch of the followed schema that writes a reference. -/
theorem mem_branches_of_baseSchema? {followed : Members} {b : Json}
    (h : baseSchema? followed = .ok (some b)) :
    b ∈ whole.branches followed ∧ ∃ bs ref, b = .obj bs ∧ get? bs refKey = some ref := by
  unfold baseSchema? at h
  dsimp only at h
  split at h
  · obtain ⟨entries, hentries, h⟩ := bind_eq_ok.1 h
    have hfind := Except.ok.inj h
    have hmem := List.mem_of_find?_eq_some hfind
    have hisref := List.find?_some hfind
    cases b with
    | obj bs =>
      have hhas : (get? bs refKey).isSome = true := hisref
      obtain ⟨ref, href⟩ := Option.isSome_iff_exists.1 hhas
      have hitems := mem_items_of_entries hentries hmem
      refine ⟨Mode.mem_branches.2 ⟨rfl, entries, ?_, hmem⟩, bs, ref, rfl, href⟩
      change (get? followed allOfKey).getD .null = .arr entries at hitems
      cases hget : get? followed allOfKey with
      | none => rw [hget] at hitems; cases hitems
      | some v => rw [hget, Option.getD_some] at hitems; exact congrArg some hitems
    | _ => cases hisref
  · cases h

theorem baseRef_of_get? {bs : Members} {ref : Json} (h : get? bs refKey = some ref) :
    baseRef (some (.obj bs)) = ref := by
  change (get? bs refKey).getD .null = ref
  rw [h, Option.getD_some]

theorem exists_of_baseRef {branch : Json} {ref : String}
    (h : (baseRef (some branch)).text = .ok ref) :
    ∃ ms v, branch = .obj ms ∧ get? ms "$ref" = some v := by
  unfold baseRef at h
  cases branch with
  | obj ms =>
    dsimp only at h
    cases hget : Members.get ms "$ref" with
    | str written => exact ⟨ms, _, rfl, get?_of_get hget nofun⟩
    | _ => rw [hget] at h; cases h
  | _ => cases h

/-- A schema is composed of the branch that it extends. -/
theorem IsBase.composed {document : Document} {b : Json} (hschema : schema.WellFormed)
    (h : IsBase document schema b) :
    ∃ ms bs ref, schema = .obj ms ∧ b = .obj bs ∧ get? bs refKey = some ref ∧
      Composed document ms (.obj bs) := by
  obtain ⟨followed, hfollowed, hb⟩ := h
  obtain ⟨hmem, bs, ref, rfl, href⟩ := mem_branches_of_baseSchema? hb
  obtain ⟨ms, rfl, hcomposed⟩ := composed_of_followRefs hschema hfollowed
  exact ⟨ms, bs, ref, rfl, rfl, href, hcomposed _ hmem⟩

theorem IsBase.contributes {document : Document} {b : Json} {part : Members}
    (hschema : schema.WellFormed) (h : IsBase document schema b)
    (hpart : Contributes document .null b part) : Contributes document .null schema part := by
  obtain ⟨ms, bs, ref, rfl, rfl, -, hcomposed⟩ := h.composed hschema
  exact hcomposed.contributes hpart

/-- The properties of parts of a document and of a schema hold of the branch that it extends. -/
theorem IsBase.preserves {P : Json → Prop} (hP : Stable P) {b : Json} (hdoc : P (.obj document))
    (hschema : P schema) (h : IsBase document schema b) : P b := by
  obtain ⟨followed, hfollowed, hb⟩ := h
  exact hP.branch (hP.resolve hdoc hschema hfollowed) (mem_branches_of_baseSchema? hb).1

theorem wellFormed_of_settle {document : Document} {branch : Option Json} {resolved : Members}
    (hschema : schema.WellFormed) (h : settle document schema = .ok (branch, resolved)) :
    (Json.obj resolved).WellFormed :=
  stable_wellFormed.resolve document.wellFormed hschema (flatten_of_settle h)

/-- Whatever contributes to a schema contributes to it without the branch that it
extends or to that branch. -/
theorem contributes_settle {document : Document} {branch : Option Json} {resolved : Members}
    (hschema : schema.WellFormed) (h : settle document schema = .ok (branch, resolved)) (part : Members) :
    Contributes document .null schema part ↔ Contributes document (baseRef branch) schema part ∨
      ∃ b, branch = some b ∧ Contributes document .null b part := by
  cases branch with
  | none => simp [baseRef]
  | some b =>
    have hbase := (isBase_iff_of_settle h).2 rfl
    obtain ⟨ms, bs, ref, rfl, rfl, href, hcomposed⟩ := hbase.composed hschema
    rw [contributes_iff hcomposed href, baseRef_of_get? href]
    simp

end

end Inference

end ClientForge
