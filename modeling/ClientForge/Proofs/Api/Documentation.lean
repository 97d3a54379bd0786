-- SUMMARY: Editing descriptions changes nothing in an API but descriptions.
import ClientForge.Proofs.Api.Namesakes
import ClientForge.Proofs.Api.Descriptions
import ClientForge.Proofs.Document.Pointers
import ClientForge.Proofs.Inference.Inheritance

/-!
# Editing documentation

Two documents that differ in what their descriptions say have APIs that differ in that only
(`build_eq_of_redocumented`), if the references in them lead to specifications. A reference can
lead elsewhere, to the properties of a schema, say. Where such an object is read as a parameter,
a schema in it can be taken for the place of the parameter, and then its description counts
(`location_of_redocumented`).
-/

namespace ClientForge

open Members Outcome Schema Inference

/-! ## Without descriptions -/

def Model.undescribed (m : Model) : Model := m.redescribe fun _ => .null

/-- The model of an API without anything that is said about it. -/
def ApiModel.undescribed (api : ApiModel) : ApiModel := api.redescribe fun _ => .null

theorem same_of_undescribed {m n : Model} (hm : m.WellFormed) (h : m.undescribed = n.undescribed) :
    m.same n = true := by
  have hsame : m.undescribed.same n.undescribed = true := by
    rw [← h, Model.undescribed, Model.same_redescribe]
    exact Model.same_self hm
  rwa [Model.undescribed, Model.undescribed, Model.same_redescribe] at hsame

theorem sameModels_of_undescribed {ms ns : List Model} (hms : ∀ m ∈ ms, m.WellFormed)
    (h : ms.map Model.undescribed = ns.map Model.undescribed) : sameLists Model.same ms ns = true := by
  induction ms generalizing ns with
  | nil =>
    cases ns with
    | nil => rfl
    | cons => cases h
  | cons m ms ih =>
    cases ns with
    | nil => cases h
    | cons n ns =>
      obtain ⟨hm, hms'⟩ := List.forall_mem_cons.1 hms
      obtain ⟨hfirst, hrest⟩ := List.cons.inj h
      rw [sameLists, same_of_undescribed hm hfirst, ih hms' hrest, Bool.and_self]

theorem wellFormed_of_build {types : TypeTable} {document : Document} {name basePath : String}
    {api : ApiModel} (h : ApiModel.build types document name basePath = .ok api) :
    ∀ m ∈ api.objects ++ api.enums, m.WellFormed := by
  obtain ⟨base, methods, objects, enums, hmethods, hseparate, rfl⟩ :=
    exists_methods_of_build (s := ⟨document, types⟩) h
  have hmodels := wellFormed_of_buildAll (s := ⟨document, types⟩) hmethods
  have hlisted : ∀ m ∈ objects ++ enums, m.WellFormed := fun m hm =>
    hmodels m (Assembly.mem_of_mem_distinct ((Assembly.perm_of_separate hseparate).mem_iff.1 hm))
  intro m hm
  rcases List.mem_append.1 hm with hm | hm
  · obtain ⟨unlinked, hmem, hrelinked⟩ :=
      exists_of_mem_right (Assembly.linkSubclasses_unchanged objects) hm
    exact hrelinked.wellFormed (hlisted unlinked (List.mem_append_left _ hmem))
  · exact hlisted m (List.mem_append_right _ hm)

/-- Documents of one shape that differ in their descriptions only, and whose references lead to
specifications that do, have APIs that differ in their descriptions only; or neither has one. -/
theorem build_eq_of_redocumented (types : TypeTable) {document document' : Document}
    (hshape : Alike True .document (.obj document) (.obj document'))
    (htarget : ∀ ref start start', Referenced document ref →
      Pointer.target document (.str ref) = .ok start →
      Pointer.target document' (.str ref) = .ok start' →
      Alike True .specification (.obj start) (.obj start'))
    (name basePath : String) :
    Both (fun api api' => api.undescribed = api'.undescribed ∧
        sameLists Model.same api.objects api'.objects = true ∧
        sameLists Model.same api.enums api'.enums = true)
      (ApiModel.build types document name basePath) (ApiModel.build types document' name basePath) := by
  have hmembers := alike_obj_obj.1 hshape
  have hpaths : Alike True .paths (Document.paths document) (Document.paths document') :=
    (hmembers.get "paths").orElse (alike_refl _ _)
  have hbase : Document.basePath document = Document.basePath document' :=
    alike_exact_iff.1 (hmembers.get "basePath")
  have hagree : Agreement True (Referenced document) document document' := by
    refine agreement_of_referenced hpaths fun ref href => (both_target hmembers ref).imp ?_
    exact fun start start' hstart hstart' _ =>
      alike_obj_obj.1 (htarget ref start start' href hstart hstart')
  have hlinked : Linked True (Referenced document) .paths (Document.paths document)
      (Document.paths document') := ⟨hpaths, fun _ => .written⟩
  refine (both_apis (fun _ => .null) (fun _ _ _ => rfl) hagree hlinked hbase name basePath).imp ?_
  intro api api' hapi _ hequal
  have hwf := wellFormed_of_build hapi
  refine ⟨hequal, ?_, ?_⟩
  · exact sameModels_of_undescribed (fun m hm => hwf m (List.mem_append_left _ hm))
      (congrArg ApiModel.objects hequal)
  · exact sameModels_of_undescribed (fun m hm => hwf m (List.mem_append_right _ hm))
      (congrArg ApiModel.enums hequal)

/-! ## A document with descriptions -/

/-- A class that is described, as its property is. -/
def describedPet (text : String) : Members :=
  [("type", .str "object"), ("description", .str text),
    ("properties", .obj [("name", .obj [("type", .str "string"), ("description", .str text)])])]

def describedCat (text : String) : Members :=
  [("allOf", .arr [petRef, .obj [("description", .str text), ("properties", .obj
    [("lives", .obj [("description", .str text), ("type", .str "integer")])])]])]

def describedListing (text : String) : Members :=
  [("operationId", .str "listCats"), ("description", .str text), ("responses", .obj
    [("200", .obj [("description", .str text), ("schema", catRef)])])]

def describedCats (text : String) : Members :=
  [("paths", .obj [("/cats", .obj [("get", .obj (describedListing text))])]),
    ("definitions", .obj [("Pet", .obj (describedPet text)), ("Cat", .obj (describedCat text))])]

def describedDocument : Document where
  members := describedCats "A cat"

def redescribedDocument : Document where
  members := describedCats "A small animal"

theorem alike_described :
    Alike True .document (.obj describedDocument) (.obj redescribedDocument) := by
  simp [describedDocument, redescribedDocument, describedCats, describedListing, describedCat,
    describedPet, catRef, petRef, refTo, Alike, alikeMembers, alikeItems, Role.member, Role.fields,
    Role.rest, Role.item, Method.verbs, List.lookup_cons, List.lookup_nil]

theorem steps_of_referenced_described {ref : String} (h : Referenced describedDocument ref) :
    ∃ name, Pointer.steps? ref.toList = some ["definitions".toList, name] := by
  have hrefs : references (.obj describedDocument) =
      ["#/definitions/Cat", "#/definitions/Pet"] := by rfl
  have hmem := h.mem_references
  rw [hrefs, List.mem_pair] at hmem
  rcases hmem with rfl | rfl
  · exact ⟨"Cat".toList, by rfl⟩
  · exact ⟨"Pet".toList, by rfl⟩

theorem build_eq_described : ∃ api api',
    ApiModel.build Language.swiftTypes describedDocument "Cats" "" = .ok api ∧
    ApiModel.build Language.swiftTypes redescribedDocument "Cats" "" = .ok api' ∧
    api.undescribed = api'.undescribed ∧ sameLists Model.same api.objects api'.objects = true ∧
    sameLists Model.same api.enums api'.enums = true := by
  have htarget : ∀ ref start start', Referenced describedDocument ref →
      Pointer.target describedDocument (.str ref) = .ok start →
      Pointer.target redescribedDocument (.str ref) = .ok start' →
      Alike True .specification (.obj start) (.obj start') := by
    intro ref start start' href hstart hstart'
    obtain ⟨name, hsteps⟩ := steps_of_referenced_described href
    have hboth := both_target_of_section (alike_obj_obj.1 alike_described) List.mem_cons_self hsteps
    rw [hstart, hstart', Both.ok_iff] at hboth
    exact alike_obj_obj.2 hboth
  have hbuilds : ((ApiModel.build Language.swiftTypes describedDocument "Cats" "").toOption.any
      fun _ => true) = true := by
    decide +kernel
  obtain ⟨api, hbuild, -⟩ := exists_ok_of_any hbuilds
  have hboth := build_eq_of_redocumented Language.swiftTypes alike_described htarget "Cats" ""
  obtain ⟨api', hbuild', hsame⟩ := hboth.exists_left hbuild
  exact ⟨api, api', hbuild, hbuild', hsame⟩

/-! ## A reference to the properties of a schema -/

/-- A document whose only parameter is written where the properties of a pet are. -/
def hutchMembers (text : String) : Members :=
  [("paths", .obj [("/", .obj [("get", .obj
      [("operationId", .str "find"), ("parameters", .arr [refTo "#/definitions/Pet/properties"])])])]),
    ("definitions", .obj [("Pet", .obj [("type", .str "object"), ("properties", .obj
      [("in", .obj [("type", .str "string"), ("description", .str text)])])])])]

def hutchDocument : Document where
  members := hutchMembers "Where it lives"

def movedDocument : Document where
  members := hutchMembers "Its place"

/-- Where the parameters of an API are looked for. -/
def locations (api : ApiModel) : List Json := (api.methods.flatMap (·.params)).map (·.location)

/-- The property `in` of the pets is taken for the place of the parameter, with what is said about
it, so editing the description changes the API. -/
theorem location_of_redocumented :
    Alike True .document (.obj hutchDocument) (.obj movedDocument) ∧
    ∃ api api', ApiModel.build Language.swiftTypes hutchDocument "Pets" "" = .ok api ∧
      ApiModel.build Language.swiftTypes movedDocument "Pets" "" = .ok api' ∧
      sameLists Json.same (locations api) (locations api') = false := by
  refine ⟨?_, ?_⟩
  · simp [hutchDocument, movedDocument, hutchMembers, refTo, Alike, alikeMembers, alikeItems,
      Role.member, Role.fields, Role.rest, Role.item, Method.verbs, List.lookup_cons, List.lookup_nil]
  · have hdiffer : ((ApiModel.build Language.swiftTypes hutchDocument "Pets" "").toOption.any
        fun api => (ApiModel.build Language.swiftTypes movedDocument "Pets" "").toOption.any
          fun api' => !sameLists Json.same (locations api) (locations api')) = true := by
      decide +kernel
    obtain ⟨api, hbuild, hdiffer⟩ := exists_ok_of_any hdiffer
    obtain ⟨api', hbuild', hdiffer⟩ := exists_ok_of_any hdiffer
    exact ⟨api, api', hbuild, hbuild', by simpa using hdiffer⟩

end ClientForge
