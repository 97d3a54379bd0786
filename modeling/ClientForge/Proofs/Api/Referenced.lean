-- SUMMARY: An API depends on the paths of its document and on what the references in them come to, nothing else.
import ClientForge.Proofs.Api.Descriptions
import ClientForge.Proofs.Api.Superclasses

/-!
# What an API depends on

Two documents that have the same paths and the same base path, and in which every reference
that the paths come to has the same target or none, have the same API (`build_eq_of_referenced`).
So definitions that are not referenced can be added, taken away, moved and changed.
-/

namespace ClientForge

open Members Outcome Schema Inference

/-- Only what the paths of a document come to matters for its API. -/
theorem build_eq_of_referenced (types : TypeTable) {document document' : Document}
    (hpaths : Document.paths document = Document.paths document')
    (hbase : Document.basePath document = Document.basePath document')
    (htarget : ∀ ref, Referenced document ref →
      Both Eq (Pointer.target document (.str ref)) (Pointer.target document' (.str ref)))
    (name basePath : String) :
    Both Eq (ApiModel.build types document name basePath)
      (ApiModel.build types document' name basePath) := by
  have hequal : ∀ v w, Alike False .description v w → id v = id w :=
    fun _ _ h => alike_false_iff.1 h
  have hpaths' : Alike False .paths (Document.paths document) (Document.paths document') :=
    alike_false_iff.2 hpaths
  have hagree : Agreement False (Referenced document) document document' := by
    refine agreement_of_referenced hpaths' fun ref href => (htarget ref href).mono ?_
    rintro start _ rfl
    exact alike_obj_obj.1 (alike_refl _ (.obj start))
  have hlinked : Linked False (Referenced document) .paths (Document.paths document)
      (Document.paths document') := ⟨hpaths', fun _ => .written⟩
  refine (both_apis id hequal hagree hlinked hbase name basePath).mono fun api api' h => ?_
  rwa [api.redescribe_id, api'.redescribe_id] at h

/-! ## Definitions that are not referenced -/

/-- The shelter with its definitions in another order and one that is not used. -/
def kennelDocument : Document where
  members :=
    [("definitions", .obj [("Dog", .obj [("allOf", .arr [refTo "#/definitions/Wolf"])]),
        ("Cat", .obj catMembers), ("Pet", .obj petMembers)]),
      ("paths", .obj [("/cats", .obj [("get", .obj listCats)])])]

theorem target_shelter : Pointer.target shelterDocument (.str "#/definitions/Cat") = .ok catMembers ∧
    Pointer.target shelterDocument (.str "#/definitions/Pet") = .ok petMembers := by
  constructor <;> cbv

theorem target_kennel : Pointer.target kennelDocument (.str "#/definitions/Cat") = .ok catMembers ∧
    Pointer.target kennelDocument (.str "#/definitions/Pet") = .ok petMembers := by
  constructor <;> cbv

theorem eq_of_referenced_shelter {ref : String} (h : Referenced shelterDocument ref) :
    ref = "#/definitions/Cat" ∨ ref = "#/definitions/Pet" := by
  induction h with
  | written h =>
    have hrefs : references (Document.paths shelterDocument) = ["#/definitions/Cat"] := by rfl
    rw [hrefs] at h
    exact .inl (List.mem_singleton.1 h)
  | target _ hstart hwritten ih =>
    rcases ih with rfl | rfl
    · cases target_shelter.1.symm.trans hstart
      have hrefs : references (.obj catMembers) = ["#/definitions/Pet"] := by rfl
      rw [hrefs] at hwritten
      exact .inr (List.mem_singleton.1 hwritten)
    · cases target_shelter.2.symm.trans hstart
      have hrefs : references (.obj petMembers) = [] := by rfl
      rw [hrefs] at hwritten
      cases hwritten

theorem build_eq_kennel : ∃ api, ApiModel.build Language.swiftTypes shelterDocument "Shelter" "" = .ok api ∧
    ApiModel.build Language.swiftTypes kennelDocument "Shelter" "" = .ok api := by
  have htarget : ∀ ref, Referenced shelterDocument ref →
      Both Eq (Pointer.target shelterDocument (.str ref)) (Pointer.target kennelDocument (.str ref)) := by
    intro ref href
    rcases eq_of_referenced_shelter href with rfl | rfl
    · rw [target_shelter.1, target_kennel.1]
      exact .ok rfl
    · rw [target_shelter.2, target_kennel.2]
      exact .ok rfl
  obtain ⟨api, -, -, hbuild, -⟩ := build_shelter
  have hboth := build_eq_of_referenced Language.swiftTypes (by rfl) (by rfl) htarget "Shelter" ""
  obtain ⟨api', hbuild', rfl⟩ := hboth.exists_left hbuild
  exact ⟨api, hbuild, hbuild'⟩

end ClientForge
