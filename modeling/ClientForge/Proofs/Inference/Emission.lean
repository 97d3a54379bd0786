-- SUMMARY: Which models of a nested call come out of the call that it is nested in.
import ClientForge.Proofs.Inference.Calls
import ClientForge.Proofs.Schema.Kind

/-!
# Emission

What a call returns is made of what the calls nested in it return (`Returns.container`,
`Returns.object`). Of the models of a nested call only the first can get nested in its
owner, and only if the call is for an object written in place as a property. So all
models but the first come out at the top (`drop_models_of_reaches`), and all models of a
schema that is not such an object do (`models_of_reaches`). Nothing gets lost: every
model occurs at some depth (`all_of_reaches`). And nothing else comes out than enumerations
and the classes of objects (`forall_models_of_returns`).
-/

namespace ClientForge

namespace Inference

open Members Outcome Schema

section
variable {s : Setting} {c d e : Call} {r rd re : Inferred} {o : ObjectPlan}

/-! ## Results of nested calls -/

theorem run_of_returns {p : Plan} (hplan : plan s c = .ok p) (h : Returns s c r) :
    ∃ fuel, p.run s (inferWith s fuel) = .ok r := by
  obtain ⟨fuel, h⟩ := exists_succ_of_returns h
  rw [inferWith_succ, hplan, ok_bind] at h
  exact ⟨fuel, h⟩

theorem exists_plan_of_returns (h : Returns s c r) : ∃ p, plan s c = .ok p := by
  obtain ⟨fuel, h⟩ := exists_succ_of_returns h
  rw [inferWith_succ] at h
  obtain ⟨p, hplan, -⟩ := bind_eq_ok.1 h
  exact ⟨p, hplan⟩

theorem Returns.done {found : Inferred} (hplan : plan s c = .ok (.done found))
    (h : Returns s c r) : r = found := by
  obtain ⟨fuel, hrun⟩ := run_of_returns hplan h
  exact (Except.ok.inj hrun).symm

theorem Returns.container {kind : Container} {inner : Call}
    (hplan : plan s c = .ok (.container kind inner)) (h : Returns s c r) :
    ∃ found, Returns s inner found ∧ r = kind.around s found := by
  obtain ⟨fuel, hrun⟩ := run_of_returns hplan h
  obtain ⟨found, hfound, hr⟩ := bind_eq_ok.1 hrun
  exact ⟨found, ⟨fuel, hfound⟩, (Except.ok.inj hr).symm⟩

/-- What a property contributes, given what its call returns. -/
def ObjectPlan.Contributed (s : Setting) (o : ObjectPlan) (m : Key × Json) (part : Contribution) :
    Prop :=
  ∃ spoken found, m.1.toJson.shown = .ok spoken ∧ Returns s (o.propertyCall spoken m.2) found ∧
    part = o.contribution m spoken found

/-- What is inherited, given what the call for the base class returns. -/
def ObjectPlan.Inherits (s : Setting) (o : ObjectPlan) (base : Base) : Prop :=
  o.branch = none ∧ base = Base.none ∨
    ∃ branch ref found, o.branch = some branch ∧ (baseRef (some branch)).text = .ok ref ∧
      ¬ o.IsCircular (Name.ofReference ref) ∧ Returns s (o.baseCall ref branch) found ∧
      base = ObjectPlan.inheriting (Name.ofReference ref) found

/-- How a class is made: the call that makes it with its plan, what the properties contribute
and what is inherited. -/
structure Making (s : Setting) where
  call : Call
  plan : ObjectPlan
  parts : List Contribution
  base : Base
  planned : Inference.plan s call = .ok (.object plan)
  contributed : List.Forall₂ (plan.Contributed s) plan.properties parts
  inherits : plan.Inherits s base

/-- The class that is made. -/
def Making.head (x : Making s) : ClassHead := x.plan.head x.parts x.base

/-- The models that are nested in the class. -/
def Making.nested (x : Making s) : List Model := x.parts.flatMap (·.nested)

theorem Returns.object (hplan : plan s c = .ok (.object o)) (h : Returns s c r) :
    ∃ parts base, List.Forall₂ (o.Contributed s) o.properties parts ∧ o.Inherits s base ∧
      r = o.assembled parts base := by
  obtain ⟨fuel, hrun⟩ := run_of_returns hplan h
  obtain ⟨parts, base, hparts, hbase, hr⟩ := ObjectPlan.run_eq_ok.1 hrun
  refine ⟨parts, base, hparts.imp ?_, ?_, hr.symm⟩
  · intro m part hpart
    obtain ⟨spoken, hspoken, found, hfound, hpart⟩ := ObjectPlan.ofProperty_eq_ok.1 hpart
    exact ⟨spoken, found, hspoken, ⟨fuel, hfound⟩, hpart.symm⟩
  · rcases ObjectPlan.ofBase_eq_ok.1 hbase with hnone | ⟨b, ref, found, hb, href, hcircular, hfound, hbase⟩
    · exact .inl hnone
    · exact .inr ⟨b, ref, found, hb, href, hcircular, ⟨fuel, hfound⟩, hbase.symm⟩

theorem propertyReturns_of_contributed {parts : List Contribution}
    (hparts : List.Forall₂ (o.Contributed s) o.properties parts) :
    ∀ m ∈ o.properties, o.PropertyReturns s m := by
  intro m hm
  obtain ⟨part, _, spoken, found, hspoken, hfound, _⟩ := exists_of_mem_left hparts hm
  exact ⟨spoken, found, hspoken, hfound⟩

theorem nested_property {parts : List Contribution} (hplan : plan s c = .ok (.object o))
    (hparts : List.Forall₂ (o.Contributed s) o.properties parts) {m : Key × Json} {spoken : String}
    (hm : m ∈ o.properties) (hspoken : m.1.toJson.shown = .ok spoken) :
    Nested s c (o.propertyCall spoken m.2) := by
  obtain ⟨before, after, hsplit⟩ := List.append_of_mem hm
  refine .property hplan hsplit (fun m' hm' => ?_) hspoken
  apply propertyReturns_of_contributed hparts
  rw [hsplit]
  exact List.mem_append_left _ hm'

theorem nested_base {parts : List Contribution} (hplan : plan s c = .ok (.object o))
    (hparts : List.Forall₂ (o.Contributed s) o.properties parts) {branch : Json} {ref : String}
    (hbranch : o.branch = some branch) (href : (baseRef (some branch)).text = .ok ref)
    (hcircular : ¬ o.IsCircular (Name.ofReference ref)) : Nested s c (o.baseCall ref branch) :=
  .base hplan (propertyReturns_of_contributed hparts) hbranch href hcircular

/-! ## Models of a nested call -/

/-- How the models of a nested call come out of its caller. -/
inductive Emerges (s : Setting) (d e : Call) (models nestedModels : List Model) : Prop
  /-- A container passes on what is in it. -/
  | container (hkind : kindFound s.document d.schema = .ok .array ∨
      kindFound s.document d.schema = .ok .map) (h : models = nestedModels)
  /-- An object keeps them behind its own. -/
  | beside (h : ∀ m ∈ nestedModels, m ∈ models.drop 1)
  /-- An object nests the first model of an object written in place. -/
  | inPlace (hinline : isInlineObject e.schema = true)
    (hfirst : ∀ m ∈ nestedModels.take 1, ∃ owner ∈ models, m ∈ owner.nested)
    (hrest : ∀ m ∈ nestedModels.drop 1, m ∈ models.drop 1)

theorem emerges_of_nested (h : Nested s d e) (hd : Returns s d rd) (he : Returns s e re) :
    Emerges s d e rd.models re.models := by
  cases h with
  | @inner kind _ hplan =>
    obtain ⟨found, hfound, rfl⟩ := hd.container hplan
    rw [hfound.unique he]
    apply Emerges.container (plan_container hplan).kindFound
    cases kind <;> rfl
  | @property o before after m spoken hplan hsplit hreturns hspoken =>
    obtain ⟨parts, base, hparts, hbase, rfl⟩ := hd.object hplan
    have hm : m ∈ o.properties := by simp [hsplit]
    obtain ⟨part, hpart, spoken', found, hspoken', hfound, rfl⟩ := exists_of_mem_left hparts hm
    cases hspoken.symm.trans hspoken'
    rw [hfound.unique he] at hpart
    by_cases hinline : isInlineObject m.2 = true
    · refine .inPlace hinline (fun m' hm' => ?_) (fun m' hm' => ?_)
      · refine ⟨_, List.mem_cons_self, List.mem_flatMap.2 ⟨_, hpart, ?_⟩⟩
        simpa [ObjectPlan.contribution, hinline] using hm'
      · refine List.mem_append_left _ (List.mem_flatMap.2 ⟨_, hpart, ?_⟩)
        simpa [ObjectPlan.contribution, hinline] using hm'
    · refine .beside fun m' hm' => ?_
      refine List.mem_append_left _ (List.mem_flatMap.2 ⟨_, hpart, ?_⟩)
      simpa [ObjectPlan.contribution, hinline] using hm'
  | @base o branch ref hplan hreturns hbranch href hcircular =>
    obtain ⟨parts, base, hparts, hbase, rfl⟩ := hd.object hplan
    rcases hbase with ⟨hnone, _⟩ | ⟨b, ref', found, hb, href', _, hfound, rfl⟩
    · rw [hbranch] at hnone
      cases hnone
    · cases hbranch.symm.trans hb
      cases href.symm.trans href'
      rw [hfound.unique he]
      exact .beside fun m' hm' => List.mem_append_right _ hm'

/-! ## Models of any call that is reached -/

/-- Of the models of a call that is reached, all but the first come out at the top. -/
theorem drop_models_of_reaches (h : Reaches s c e) (hc : Returns s c r) (he : Returns s e re) :
    ∀ m ∈ re.models.drop 1, m ∈ r.models.drop 1 := by
  induction h generalizing re with
  | refl => rw [he.unique hc]; exact fun m hm => hm
  | @tail d e hreaches hnested ih =>
    obtain ⟨rd, hd⟩ := Reaches.returns hreaches hc
    intro m hm
    apply ih hd
    cases emerges_of_nested hnested hd he with
    | container _ heq => exact heq ▸ hm
    | beside h => exact h m (List.mem_of_mem_drop hm)
    | inPlace _ _ hrest => exact hrest m hm

/-- An object that is written in place is a class or an enumeration. -/
theorem kind_of_isInlineObject {document : Members} {schema : Json} {kind : Schema.Kind}
    (hschema : schema.WellFormed) (hinline : isInlineObject schema = true)
    (h : kindFound document schema = .ok kind) : kind = .enumeration ∨ kind = .object := by
  cases schema with
  | obj ms =>
    unfold isInlineObject at hinline
    simp only [Bool.and_eq_true, Bool.not_eq_true'] at hinline
    obtain ⟨⟨hnoref, htype⟩, hproperties⟩ := hinline
    have htype' : get? ms "type" = some (.str "object") := by
      refine get?_of_get ?_ nofun
      cases hget : Members.get ms "type" <;> simp_all [Json.same, Json.number?]
    obtain ⟨⟨branch, resolved⟩, hsettle, hkind⟩ := bind_eq_ok.1 h
    have href : whole.ref? (baseRef branch) ms = none := by
      have hget : get? ms refKey = none := Option.isSome_eq_false_iff.1 hnoref |> Option.isNone_iff_eq_none.1
      simp [Mode.ref?, Members.get, hget, Json.truthy]
    obtain ⟨earlier, rfl⟩ := exists_merge_of_resolve href (flatten_of_settle hsettle)
    have hnodup := nodup_meanings_own whole (Json.wellFormed_obj.1 hschema).1
    refine kind_of_type_object ?_ ?_ hkind
    · unfold Members.get
      rw [get?_merge hnodup, Mode.get?_own _ (by decide), htype']
      rfl
    · have hown : Members.has (whole.own ms) "properties" = true := by
        unfold Members.has
        rw [Mode.get?_own _ (by decide)]
        exact hproperties
      exact has_iff.2 (mem_meanings_merge.2 (.inr (has_iff.1 hown)))
  | _ => cases hinline

theorem models_of_reaches (hschema : c.schema.WellFormed) (h : Reaches s c e) (hc : Returns s c r)
    (he : Returns s e re) (hinline : isInlineObject e.schema = false) :
    ∀ m ∈ re.models, m ∈ r.models := by
  induction h generalizing re with
  | refl => rw [he.unique hc]; exact fun m hm => hm
  | @tail d e hreaches hnested ih =>
    obtain ⟨rd, hd⟩ := Reaches.returns hreaches hc
    intro m hm
    cases emerges_of_nested hnested hd he with
    | container hkind heq =>
      have hd' : isInlineObject d.schema = false := by
        by_contra hinline'
        have hwf := Reaches.wellFormed hreaches hschema
        rw [Bool.not_eq_false] at hinline'
        rcases hkind with hkind | hkind <;>
          rcases kind_of_isInlineObject hwf hinline' hkind with h | h <;> cases h
      exact ih hd hd' m (heq ▸ hm)
    | beside h => exact List.mem_of_mem_drop (drop_models_of_reaches hreaches hc hd m (h m hm))
    | inPlace hinline' => rw [hinline] at hinline'; cases hinline'

/-- What holds of all models at the top, and of those nested in the models that it holds of,
holds of all models of a call that is reached. -/
theorem all_of_reaches {Q : Model → Prop} (hnested : ∀ m, Q m → ∀ m' ∈ m.nested, Q m')
    (h : Reaches s c e) (hc : Returns s c r) (he : Returns s e re) (hQ : ∀ m ∈ r.models, Q m) :
    ∀ m ∈ re.models, Q m := by
  induction h generalizing re with
  | refl => rw [he.unique hc]; exact hQ
  | @tail d e hreaches hstep ih =>
    obtain ⟨rd, hd⟩ := Reaches.returns hreaches hc
    intro m hm
    cases emerges_of_nested hstep hd he with
    | container _ heq => exact ih hd m (heq ▸ hm)
    | beside h => exact ih hd m (List.mem_of_mem_drop (h m hm))
    | inPlace _ hfirst hrest =>
      rw [← List.take_append_drop 1 re.models, List.mem_append] at hm
      rcases hm with hm | hm
      · obtain ⟨owner, howner, hmem⟩ := hfirst m hm
        exact hnested owner (ih hd owner howner) m hmem
      · exact ih hd m (List.mem_of_mem_drop (hrest m hm))

/-! ## All models of a result -/

/-- What is done without further calls is an enumeration or has no models. -/
theorem models_of_done {found : Inferred} (h : plan s c = .ok (.done found)) :
    found.models = [] ∨ ∃ branch resolved, settle s.document c.schema = .ok (branch, resolved) ∧
      ofEnumeration s resolved c.ownName = .ok found := by
  rcases plan_eq_ok h with ⟨-, hvoid⟩ | ⟨n, -, hn⟩ | ⟨-, branch, resolved, kind, hsettle, -, hp⟩
  · cases hvoid
    exact .inl rfl
  · cases hn
    exact .inl rfl
  · cases kind with
    | enumeration =>
      obtain ⟨found', henum, hfound⟩ := map_eq_ok.1 hp
      cases hfound
      exact .inr ⟨branch, resolved, hsettle, henum⟩
    | array =>
      simp only [planOfKind] at hp
      split at hp <;> cases hp
    | object =>
      obtain ⟨required, -, hp⟩ := bind_eq_ok.1 hp
      obtain ⟨properties, -, hp⟩ := bind_eq_ok.1 hp
      cases hp
    | map =>
      simp only [planOfKind] at hp
      split at hp
      · cases hp
      · cases hp
        exact .inl rfl
    | void =>
      cases hp
      exact .inl rfl
    | primitive =>
      obtain ⟨found', hprimitive, hfound⟩ := map_eq_ok.1 hp
      cases hfound
      unfold ofPrimitive at hprimitive
      simp only [bind_eq_ok, pure_eq, Except.ok.injEq] at hprimitive
      obtain ⟨type, -, primitive, -, format, -, rfl⟩ := hprimitive
      exact .inl rfl

theorem mem_models_of_contribution {m : Key × Json} {spoken : String} {found : Inferred} {model : Model}
    (h : model ∈ (o.contribution m spoken found).nested ++ (o.contribution m spoken found).beside) :
    model ∈ found.models := by
  unfold ObjectPlan.contribution at h
  dsimp only at h
  split at h
  · rwa [List.take_append_drop] at h
  · exact h

/-- What holds of all enumerations, and of a class if it holds of the models nested in it,
holds of all models of a result. -/
theorem forall_models_of_returns {Q : Model → Prop}
    (hdone : ∀ d found, Reaches s c d → plan s d = .ok (.done found) → ∀ m ∈ found.models, Q m)
    (hobject : ∀ d o parts base, Reaches s c d → plan s d = .ok (.object o) →
      List.Forall₂ (o.Contributed s) o.properties parts → o.Inherits s base →
      (∀ m ∈ parts.flatMap (·.nested), Q m) →
      Q (.object (o.head parts base) (parts.flatMap (·.nested))))
    (hd : Reaches s c d) (h : Returns s d rd) : ∀ m ∈ rd.models, Q m := by
  have hacc : Acc (fun d c => Nested s c d) d := by
    obtain ⟨fuel, hfuel⟩ := h
    exact ends_iff_acc.1 (ends_iff.2 ⟨fuel, hfuel ▸ settled_ok rd⟩)
  induction hacc generalizing rd with
  | intro d _ ih =>
    have hnested : ∀ e found, Nested s d e → Returns s e found → ∀ m ∈ found.models, Q m :=
      fun e found he hfound => ih e he (hd.tail he) hfound
    obtain ⟨p, hplan⟩ := exists_plan_of_returns h
    cases p with
    | done found =>
      rw [h.done hplan]
      exact hdone d found hd hplan
    | container kind inner =>
      obtain ⟨found, hfound, rfl⟩ := h.container hplan
      cases kind <;> exact hnested inner found (.inner hplan) hfound
    | object o =>
      obtain ⟨parts, base, hparts, hbase, rfl⟩ := h.object hplan
      have hpart : ∀ part ∈ parts, ∀ m ∈ part.nested ++ part.beside, Q m := by
        intro part hpart m hm
        obtain ⟨member, hmember, spoken, found, hspoken, hfound, rfl⟩ := exists_of_mem_right hparts hpart
        exact hnested _ found (nested_property hplan hparts hmember hspoken) hfound m
          (mem_models_of_contribution hm)
      intro m hm
      rcases List.mem_append.1 hm with hm | hm
      · rcases List.mem_cons.1 hm with rfl | hm
        · refine hobject d o parts base hd hplan hparts hbase fun m hm => ?_
          obtain ⟨part, hmem, hm⟩ := List.mem_flatMap.1 hm
          exact hpart part hmem m (List.mem_append_left _ hm)
        · obtain ⟨part, hmem, hm⟩ := List.mem_flatMap.1 hm
          exact hpart part hmem m (List.mem_append_right _ hm)
      · rcases hbase with ⟨-, rfl⟩ | ⟨b, ref, found, hb, href, hcircular, hfound, rfl⟩
        · cases hm
        · exact hnested _ found (nested_base hplan hparts hb href hcircular) hfound m hm

end

end Inference

end ClientForge
