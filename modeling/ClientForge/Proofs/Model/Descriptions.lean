-- SUMMARY: Putting the descriptions in a model otherwise changes nothing that is compared.
import ClientForge.Inference
import ClientForge.Proofs.Model.Equality

/-!
# Descriptions of models

`Model.redescribe e` puts every description in a model otherwise, as the function `e` does
with a single one, and leaves all else as it is. Equality up to descriptions does not see it
(`Model.same_redescribe_both`), and neither does telling properties that repeat an inherited one
from those that do not (`ownProperties_redescribe`).
-/

namespace ClientForge

section
variable (e : Json → Json)

/-! ## Redescribing -/

def Property.redescribe (p : Property) : Property := { p with description := e p.description }

def EnumModel.redescribe (m : EnumModel) : EnumModel := { m with description := e m.description }

def ClassHead.redescribe (c : ClassHead) : ClassHead :=
  { c with
    properties := c.properties.map (Property.redescribe e)
    inherited := c.inherited.map (Property.redescribe e)
    initializer := c.initializer.map (Property.redescribe e)
    description := e c.description }

mutual

def Model.redescribe : Model → Model
  | .object head nested => .object (head.redescribe e) (Model.redescribeNested nested)
  | .enumeration m => .enumeration (m.redescribe e)
  | .property p => .property (p.redescribe e)

def Model.redescribeNested : List Model → List Model
  | [] => []
  | m :: ms => m.redescribe :: Model.redescribeNested ms

end

def Param.redescribe (p : Param) : Param := { p with description := e p.description }

def Method.redescribe (m : Method) : Method :=
  { m with
    params := m.params.map (Param.redescribe e)
    response := m.response.redescribe e
    description := e m.description }

def BuiltMethod.redescribe (b : BuiltMethod) : BuiltMethod :=
  ⟨b.method.redescribe e, b.models.map (Model.redescribe e)⟩

def ApiModel.redescribe (api : ApiModel) : ApiModel :=
  { api with
    methods := api.methods.map (Method.redescribe e)
    objects := api.objects.map (Model.redescribe e)
    enums := api.enums.map (Model.redescribe e) }

theorem Model.redescribeNested_eq (ms : List Model) :
    Model.redescribeNested e ms = ms.map (Model.redescribe e) := by
  induction ms with
  | nil => rfl
  | cons m ms ih => rw [Model.redescribeNested, ih, List.map_cons]

theorem Model.redescribe_object (head : ClassHead) (nested : List Model) :
    (Model.object head nested).redescribe e =
      .object (head.redescribe e) (nested.map (Model.redescribe e)) := by
  rw [Model.redescribe, Model.redescribeNested_eq]

end

/-! ## Leaving descriptions as they are -/

theorem ClassHead.redescribe_id (c : ClassHead) : c.redescribe id = c := by
  have hid : Property.redescribe id = id := rfl
  simp only [ClassHead.redescribe, hid, List.map_id, id]

mutual

theorem Model.redescribe_id (m : Model) : m.redescribe id = m := by
  match m with
  | .object head nested =>
    rw [Model.redescribe, head.redescribe_id, Model.redescribeNested_id nested]
  | .enumeration _ => rfl
  | .property _ => rfl

theorem Model.redescribeNested_id (ms : List Model) : Model.redescribeNested id ms = ms := by
  match ms with
  | [] => rfl
  | m :: ms => rw [Model.redescribeNested, Model.redescribe_id m, Model.redescribeNested_id ms]

end

theorem Method.redescribe_id (m : Method) : m.redescribe id = m := by
  have hparams : Param.redescribe id = id := rfl
  simp only [Method.redescribe, hparams, List.map_id, id]

theorem BuiltMethod.redescribe_id (b : BuiltMethod) : b.redescribe id = b := by
  have hmodels : Model.redescribe id = id := funext Model.redescribe_id
  rw [BuiltMethod.redescribe, b.method.redescribe_id, hmodels, List.map_id]

theorem ApiModel.redescribe_id (api : ApiModel) : api.redescribe id = api := by
  have hmodels : Model.redescribe id = id := funext Model.redescribe_id
  have hmethods : Method.redescribe id = id := funext Method.redescribe_id
  simp only [ApiModel.redescribe, hmodels, hmethods, List.map_id]

section
variable (e : Json → Json)

/-! ## Redescribing twice -/

theorem ClassHead.redescribe_redescribe (e' : Json → Json) (c : ClassHead) :
    (c.redescribe e).redescribe e' = c.redescribe (e' ∘ e) := by
  have hproperty : Property.redescribe e' ∘ Property.redescribe e = Property.redescribe (e' ∘ e) := rfl
  simp only [ClassHead.redescribe, List.map_map, hproperty, Function.comp_apply]

mutual

theorem Model.redescribe_redescribe (e' : Json → Json) (m : Model) :
    (m.redescribe e).redescribe e' = m.redescribe (e' ∘ e) := by
  match m with
  | .object head nested =>
    simp only [Model.redescribe, head.redescribe_redescribe,
      Model.redescribeNested_redescribeNested e' nested]
  | .enumeration _ => rfl
  | .property _ => rfl

theorem Model.redescribeNested_redescribeNested (e' : Json → Json) (ms : List Model) :
    Model.redescribeNested e' (Model.redescribeNested e ms) = Model.redescribeNested (e' ∘ e) ms := by
  match ms with
  | [] => rfl
  | m :: ms =>
    simp only [Model.redescribeNested, Model.redescribe_redescribe e' m,
      Model.redescribeNested_redescribeNested e' ms]

end

/-! ## What is compared -/

theorem sameLists_map {α : Type} {same : α → α → Bool} {f : α → α}
    (h : ∀ a b, same (f a) (f b) = same a b) (as bs : List α) :
    sameLists same (as.map f) (bs.map f) = sameLists same as bs := by
  induction as generalizing bs with
  | nil => cases bs <;> rfl
  | cons a as ih =>
    cases bs with
    | nil => rfl
    | cons b bs => simp only [List.map_cons, sameLists, h, ih]

theorem sameProperties_redescribe (ps qs : List Property) :
    sameLists Property.same (ps.map (Property.redescribe e)) (qs.map (Property.redescribe e)) =
      sameLists Property.same ps qs :=
  sameLists_map (f := Property.redescribe e) (fun _ _ => rfl) ps qs

theorem ClassHead.same_redescribe (a b : ClassHead) :
    (a.redescribe e).same (b.redescribe e) = a.same b := by
  simp only [ClassHead.same, ClassHead.redescribe, sameProperties_redescribe]

mutual

theorem Model.same_redescribe (m n : Model) : (m.redescribe e).same (n.redescribe e) = m.same n := by
  match m with
  | .object a as =>
    cases n with
    | object b bs =>
      simp only [Model.redescribe, Model.same, a.same_redescribe, Model.sameNested_redescribe as bs]
    | _ => rfl
  | .enumeration _ => cases n <;> rfl
  | .property _ => cases n <;> rfl

theorem Model.sameNested_redescribe (ms ns : List Model) :
    Model.sameNested (Model.redescribeNested e ms) (Model.redescribeNested e ns) =
      Model.sameNested ms ns := by
  match ms with
  | [] => cases ns <;> rfl
  | m :: ms =>
    cases ns with
    | nil => rfl
    | cons n ns =>
      simp only [Model.redescribeNested, Model.sameNested, Model.same_redescribe m n,
        Model.sameNested_redescribe ms ns]

end

/-- Whatever is said about two models, at any depth, they compare alike. -/
theorem Model.same_redescribe_both (e' : Json → Json) (m n : Model) :
    (m.redescribe e).same (n.redescribe e') = m.same n := by
  have hsilent : (fun _ => Json.null) ∘ e = fun _ => Json.null := rfl
  have hsilent' : (fun _ => Json.null) ∘ e' = fun _ => Json.null := rfl
  rw [← Model.same_redescribe (fun _ => .null), Model.redescribe_redescribe,
    Model.redescribe_redescribe, hsilent, hsilent', Model.same_redescribe]

theorem ownProperties_redescribe (properties inherited : List Property) :
    Inference.ownProperties (properties.map (Property.redescribe e))
        (inherited.map (Property.redescribe e)) =
      (Inference.ownProperties properties inherited).map (Property.redescribe e) := by
  have hrepeats : ∀ p : Property,
      (inherited.map (Property.redescribe e)).any (p.redescribe e).sameShape =
        inherited.any p.sameShape := fun p => List.any_map
  unfold Inference.ownProperties
  rw [List.filter_map]
  simp only [Function.comp_def, hrepeats]

theorem handedDown_redescribe (ms : List Model) :
    Inference.handedDown (ms.map (Model.redescribe e)) =
      (Inference.handedDown ms).map (Property.redescribe e) := by
  cases ms with
  | nil => rfl
  | cons m ms =>
    cases m with
    | object head nested => exact List.map_append.symm
    | _ => rfl

end

end ClientForge
