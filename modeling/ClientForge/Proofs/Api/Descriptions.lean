-- SUMMARY: Two documents whose schemas differ in descriptions only have APIs that differ in descriptions only.
import ClientForge.Proofs.Api.Correspondence
import ClientForge.Proofs.Model.Descriptions

/-!
# Descriptions of APIs

Where two documents agree but for descriptions, the models that are inferred from them
correspond if they become equal once descriptions are put otherwise (`restating`). Telling
models apart, separating and linking them does not look at descriptions, so the APIs become
equal in the same way (`both_apis`). Both the removal of all descriptions and the identity
are instances, the latter for documents that agree in descriptions as well.
-/

namespace ClientForge

open Members Outcome Schema Inference

section
variable (e : Json → Json)

/-! ## Assembling -/

namespace Assembly

theorem keepNew_redescribe (kept : List Model) (m : Model) :
    keepNew (kept.map (Model.redescribe e)) (m.redescribe e) =
      (keepNew kept m).map (Model.redescribe e) := by
  have hamong : (m.redescribe e).isAmong (kept.map (Model.redescribe e)) = m.isAmong kept := by
    simp only [Model.isAmong, List.any_map, Function.comp_def, Model.same_redescribe]
  unfold keepNew
  rw [hamong]
  split
  · rfl
  · rw [List.map_append, List.map_singleton]

theorem distinct_redescribe (models : List Model) :
    distinct (models.map (Model.redescribe e)) = (distinct models).map (Model.redescribe e) := by
  have hfold : ∀ kept : List Model,
      (models.map (Model.redescribe e)).foldl keepNew (kept.map (Model.redescribe e)) =
        (models.foldl keepNew kept).map (Model.redescribe e) := by
    induction models with
    | nil => exact fun _ => rfl
    | cons m models ih =>
      intro kept
      rw [List.map_cons, List.foldl_cons, List.foldl_cons, keepNew_redescribe, ih]
  exact hfold []

theorem both_separate {models models' : List Model}
    (h : models.map (Model.redescribe e) = models'.map (Model.redescribe e)) :
    Both (fun p p' => p.1.map (Model.redescribe e) = p'.1.map (Model.redescribe e) ∧
        p.2.map (Model.redescribe e) = p'.2.map (Model.redescribe e))
      (separate models) (separate models') := by
  induction models generalizing models' with
  | nil =>
    cases models' with
    | nil => exact .ok ⟨rfl, rfl⟩
    | cons => cases h
  | cons m models ih =>
    cases models' with
    | nil => cases h
    | cons m' models' =>
      obtain ⟨hm, hrest⟩ := List.cons.inj h
      cases m <;> cases m' <;> first | cases hm | skip
      · refine (ih hrest).bind fun p p' _ _ hp => .ok ⟨?_, hp.2⟩
        exact congrArg₂ List.cons hm hp.1
      · refine (ih hrest).bind fun p p' _ _ hp => .ok ⟨hp.1, ?_⟩
        exact congrArg₂ List.cons hm hp.2
      · exact .error _ _

theorem subclassOf_redescribe (name : Option String) (m : Model) :
    subclassOf name (m.redescribe e) = subclassOf name m := by
  cases m <;> rfl

theorem link_redescribe (others : List Model) (m : Model) :
    link (others.map (Model.redescribe e)) (m.redescribe e) = (link others m).redescribe e := by
  cases m with
  | object head nested =>
    have hsubclasses : (others.map (Model.redescribe e)).filterMap (subclassOf head.name) =
        others.filterMap (subclassOf head.name) := by
      rw [List.filterMap_map]
      exact congrArg (List.filterMap · others) (funext fun m => subclassOf_redescribe e _ m)
    simp only [Model.redescribe, link, ClassHead.redescribe, hsubclasses]
    split <;> rfl
  | _ => rfl

theorem linkSubclasses_redescribe (models : List Model) :
    linkSubclasses (models.map (Model.redescribe e)) =
      (linkSubclasses models).map (Model.redescribe e) := by
  have hafter : ∀ before : List Model,
      linkAfter (before.map (Model.redescribe e)) (models.map (Model.redescribe e)) =
        (linkAfter before models).map (Model.redescribe e) := by
    induction models with
    | nil => exact fun _ => rfl
    | cons m models ih =>
      intro before
      have hnext := ih (before ++ [m])
      rw [List.map_append, List.map_singleton] at hnext
      simp only [List.map_cons, linkAfter, ← List.map_append, link_redescribe, hnext]
  exact hafter []

/-- Methods that differ in their descriptions only make up APIs that do. -/
theorem both_ofMethods (name : String) {methods methods' : List BuiltMethod}
    (h : methods.map (BuiltMethod.redescribe e) = methods'.map (BuiltMethod.redescribe e)) :
    Both (fun api api' => api.redescribe e = api'.redescribe e) (ofMethods name methods)
      (ofMethods name methods') := by
  have hmodels : ∀ ms : List BuiltMethod, (modelsOf ms).map (Model.redescribe e) =
      modelsOf (ms.map (BuiltMethod.redescribe e)) := by
    intro ms
    unfold modelsOf
    rw [← distinct_redescribe, List.map_flatMap, List.flatMap_map]
    rfl
  have hmethods : ∀ ms : List BuiltMethod, (ms.map (·.method)).map (Method.redescribe e) =
      (ms.map (BuiltMethod.redescribe e)).map (·.method) := by
    intro ms
    rw [List.map_map, List.map_map]
    rfl
  have hsame : (modelsOf methods).map (Model.redescribe e) =
      (modelsOf methods').map (Model.redescribe e) := by
    rw [hmodels, hmodels, h]
  refine (both_separate e hsame).bind fun p p' _ _ hp => .ok ?_
  simp only [ApiModel.redescribe, hmethods, h, ← linkSubclasses_redescribe, hp.1, hp.2]

end Assembly

/-! ## Inferring -/

section
variable {free : Prop} (he : ∀ v w, Alike free .description v w → e v = e w)
include he

theorem redescribe_of_sameField {p q : Property} (h : SameField free Eq p q) :
    p.redescribe e = q.redescribe e := by
  simp only [Property.redescribe, h.name, h.specName, eq_of_rel h.type, h.format, h.isRequired,
    he _ _ h.description]

theorem redescribe_of_sameClass {o o' : ObjectPlan} {parts parts' : List Contribution}
    {base base' : Base}
    (h : SameClass free Eq (fun m m' => m.redescribe e = m'.redescribe e) o o' parts parts' base base') :
    (Model.object (o.head parts base) (parts.flatMap (·.nested))).redescribe e =
      (Model.object (o'.head parts' base') (parts'.flatMap (·.nested))).redescribe e := by
  have hfields := map_eq_map_of_forall₂ h.fields fun _ _ => redescribe_of_sameField e he
  have hnested := map_eq_map_of_forall₂ h.nested fun _ _ hm => hm
  have hinherited : base.inherited.map (Property.redescribe e) =
      base'.inherited.map (Property.redescribe e) := by
    rw [h.inherited, h.inherited', ← handedDown_redescribe, ← handedDown_redescribe,
      map_eq_map_of_forall₂ h.bases fun _ _ hm => hm]
  have hown : (ownProperties (parts.map (·.property)) base.inherited).map (Property.redescribe e) =
      (ownProperties (parts'.map (·.property)) base'.inherited).map (Property.redescribe e) := by
    rw [← ownProperties_redescribe, ← ownProperties_redescribe, hfields, hinherited]
  simp only [Model.redescribe_object, ClassHead.redescribe, ObjectPlan.head, List.map_append, hown,
    hinherited, hnested, h.name, h.specName, h.discriminator, h.superclass, he _ _ h.description]

/-- Types of the same name, and models that differ in their descriptions only. -/
def restating (t : TypeTable) : Correspondence free t t where
  type := Eq
  model m m' := m.redescribe e = m'.redescribe e
  type_refl _ := rfl
  type_void := rfl
  type_within _ _ _ h := h ▸ rfl
  type_arrayOf h := h ▸ rfl
  type_mapOf h := h ▸ rfl
  type_mapOf_none := rfl
  model_enumeration _ _ _ _ _ _ htype hdescription := by
    simp only [Model.redescribe, EnumModel.redescribe, htype, he _ _ hdescription]
  model_object := redescribe_of_sameClass e he

/-! ## Two documents -/

section
variable {types : TypeTable} {document document' : Document}

theorem redescribe_of_sameParam {p p' : Param}
    (h : @SameParam free ⟨document, types⟩ ⟨document', types⟩ (restating e he types) p p') :
    p.redescribe e = p'.redescribe e := by
  simp only [Param.redescribe, h.name, h.serverName, h.location, eq_of_rel h.type, h.format,
    h.isRequired, h.schemaType, he _ _ h.description]

theorem redescribe_of_sameBuilt {b b' : BuiltMethod}
    (h : @SameBuilt free ⟨document, types⟩ ⟨document', types⟩ (restating e he types) b b') :
    b.redescribe e = b'.redescribe e := by
  have hparams := map_eq_map_of_forall₂ h.method.params fun _ _ => redescribe_of_sameParam e he
  have hmodels := map_eq_map_of_forall₂ h.models fun _ _ hm => hm
  simp only [BuiltMethod.redescribe, Method.redescribe, h.method.path, h.method.verb, h.method.name,
    hparams, redescribe_of_sameParam e he h.method.response, he _ _ h.method.description, hmodels]

/-- Documents that agree but for descriptions have APIs that do, or neither has one. -/
theorem both_apis {Known : String → Prop} (hagree : Agreement free Known document document')
    (hpaths : Linked free Known .paths (Document.paths document) (Document.paths document'))
    (hbase : Document.basePath document = Document.basePath document') (name basePath : String) :
    Both (fun api api' => api.redescribe e = api'.redescribe e)
      (ApiModel.build types document name basePath) (ApiModel.build types document' name basePath) := by
  have hnames : @Correspondence.Names free ⟨document, types⟩ ⟨document', types⟩ (restating e he types)
      fun _ => True := ⟨fun _ _ => trivial, fun _ _ _ => .refl (fun _ => rfl) _⟩
  unfold ApiModel.build Assembly.fullBasePath
  rw [hbase]
  refine Both.bind_same fun base _ => ?_
  refine (both_buildAll hnames hagree hpaths (fun _ _ => trivial) base).bind
    fun methods methods' _ _ hmethods => Assembly.both_ofMethods e name ?_
  exact map_eq_map_of_forall₂ hmethods fun _ _ => redescribe_of_sameBuilt e he

end

end

end

end ClientForge
