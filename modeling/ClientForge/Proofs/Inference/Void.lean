-- SUMMARY: When a schema that is inferred to be void says nothing, and when only its base class does.
import ClientForge.Proofs.Inference.Extension
import ClientForge.Proofs.Schema.Kind
import ClientForge.Target.Language

/-!
# Void types

What decides the kind of a schema is the schema without the branch that it extends, so
one that merely extends another is void although the merge of both is not
(`void_of_extending`). The two agree exactly if the branch contributes no member that
tells a kind and the merge names no type (`infer_void_iff`).
-/

namespace ClientForge

namespace Schema

open Members Outcome

/-- A flattened schema is silent exactly if all that contributes to it is. -/
theorem isSilent_flatten_iff {document : Document} {ignored schema : Json} {flat : Members}
    (h : flatten document schema ignored = .ok flat) :
    IsSilent flat ↔ ∀ part, Contributes document ignored schema part → IsSilent part := by
  have hhas : ∀ {ms : Members} {keyword : String}, Members.has ms (.text keyword) = false ↔
      (Key.text keyword).meaning ∉ meanings ms := by
    intro ms keyword
    rw [← Bool.not_eq_true, has_iff]
  unfold IsSilent
  simp only [hhas, mem_meanings_flatten h, not_exists, not_and]
  constructor
  · intro h part hpart keyword hkeyword
    exact h keyword hkeyword part hpart
  · intro h keyword hkeyword part hpart
    exact h part hpart keyword hkeyword

end Schema

namespace Inference

open Members Outcome Schema

section
variable {s : Setting} {name : String} {schema : Json} {flat : Members}

theorem infer_of_kindFound_void (hvoid : kindFound s.document schema = .ok .void) :
    infer s name schema = .ok (void s) := by
  have hfresh : ∀ n, ¬ (⟨⟨[], []⟩, name, schema⟩ : Call).IsPlaceholder n := by
    rintro n ⟨-, hmem⟩
    cases hmem
  obtain ⟨branch, resolved, -, -, hplan⟩ := plan_of_kindFound hvoid hfresh
  have hrun := inferWith_succ (s := s) 999 ⟨⟨[], []⟩, name, schema⟩
  rw [hplan] at hrun
  exact hrun

/-- A schema found to be void is inferred to be void. Flattened, it is void as well exactly
if it names no type and the branch that it extends says nothing of its kind. -/
theorem infer_void_iff (hschema : schema.WellFormed)
    (hvoid : kindFound s.document schema = .ok .void)
    (hflat : flatten s.document schema .null = .ok flat) :
    infer s name schema = .ok (void s) ∧
      (Schema.kind flat = .ok .void ↔ Members.get flat "type" = .null ∧
        ∀ branch part, IsBase s.document schema branch →
          Contributes s.document .null branch part → IsSilent part) := by
  refine ⟨infer_of_kindFound_void hvoid, ?_⟩
  obtain ⟨⟨branch, resolved⟩, hsettle, hkind⟩ := bind_eq_ok.1 hvoid
  have hresolved := isSilent_flatten_iff (flatten_of_settle hsettle)
  rw [kind_eq_void_iff, isSilent_flatten_iff hflat, and_congr_right_iff]
  intro _
  constructor
  · intro h b part hbase hpart
    exact h part (hbase.contributes hschema hpart)
  · intro h part hpart
    rcases (contributes_settle hschema hsettle part).1 hpart with hpart | ⟨b, rfl, hpart⟩
    · exact hresolved.1 (kind_eq_void_iff.1 hkind).2 part hpart
    · exact h b part ((isBase_iff_of_settle hsettle).2 rfl) hpart

end

/-! ## A schema that only extends another one -/

def petDocument : Document where
  members := [("definitions", .obj [("Pet", .obj petMembers)])]

/-- A pet under another name. -/
def extendingPet : Json := .obj [("allOf", .arr [petRef])]

theorem settle_extendingPet : settle petDocument extendingPet = .ok (some petRef, []) := by
  have hfollowed : followRefs petDocument extendingPet .null = .ok [("allOf", .arr [petRef])] := by
    cbv
  have hresolved : flatten petDocument extendingPet (.str "#/definitions/Pet") = .ok [] := by
    rfl
  exact settle_eq_ok.2 ⟨_, hfollowed, rfl, hresolved⟩

theorem kindFound_extendingPet : kindFound petDocument extendingPet = .ok .void := by
  rw [kindFound_of_settle settle_extendingPet]
  rfl

theorem flatten_extendingPet : flatten petDocument extendingPet .null = .ok petMembers := by
  cbv

/-- Extending a class without adding to it gives a void type, although the flattened schema
is an object. -/
theorem void_of_extending :
    infer ⟨petDocument, Language.swiftTypes⟩ "Cat" extendingPet =
        .ok (void ⟨petDocument, Language.swiftTypes⟩) ∧
      ∃ flat, flatten petDocument extendingPet .null = .ok flat ∧
        Schema.kind flat = .ok .object := by
  refine ⟨infer_of_kindFound_void kindFound_extendingPet, _, flatten_extendingPet, ?_⟩
  rfl

theorem infer_void_iff_extendingPet :
    (infer ⟨petDocument, Language.swiftTypes⟩ "Cat" extendingPet =
        .ok (void ⟨petDocument, Language.swiftTypes⟩)) ∧
      (Schema.kind petMembers = .ok .void ↔ Members.get petMembers "type" = .null ∧
        ∀ branch part, IsBase petDocument extendingPet branch →
          Contributes petDocument .null branch part → IsSilent part) := by
  have hschema : extendingPet.WellFormed := by
    simp [extendingPet, petRef, refTo, Json.WellFormed, Json.wellFormedMembers, Json.wellFormedItems,
      Members.meanings]
  exact infer_void_iff hschema kindFound_extendingPet flatten_extendingPet

end Inference

end ClientForge
