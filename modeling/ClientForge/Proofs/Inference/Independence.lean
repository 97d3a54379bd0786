-- SUMMARY: What a definition is inferred to be does not depend on the way that leads to it.
import ClientForge.Proofs.Api.Distinct
import ClientForge.Proofs.Inference.Closed
import ClientForge.Proofs.Inference.Reachability

/-!
# Independence of the way

Two calls for one schema can have different classes under construction, and so stop at
different references. Where one stops at a reference to an object and the other follows it,
both give the name of the object as its type, so the classes that refer to it are the same;
a base class is built in full by both. By induction on the nested calls, two calls that
differ in objects only agree in the type and in the model of the schema itself
(`Twin.agree_of_harmless`). Hence all copies of the model of a definition are one model, however each
was reached (`model_eq_of_trails`).
-/

namespace ClientForge

namespace Inference

open Members Outcome Schema

/-! ## Well-formed models -/

theorem wellFormed_discriminator {resolved : Members} (h : (Json.obj resolved).WellFormed) :
    (discriminator resolved).WellFormed := by
  unfold discriminator
  have hget := stable_wellFormed.get h "discriminator"
  split
  · rename_i ms hms
    rw [hms] at hget
    exact stable_wellFormed.get hget _
  · exact hget

section
variable {s : Setting} {c d : Call} {r : Inferred}

theorem wellFormed_of_enumeration {resolved : Members} {name : String} {found : Inferred}
    (hwf : (Json.obj resolved).WellFormed) (h : ofEnumeration s resolved name = .ok found) :
    ∀ m ∈ found.models, m.WellFormed := by
  unfold ofEnumeration at h
  simp only [bind_eq_ok, pure_eq, Except.ok.injEq] at h
  obtain ⟨type, -, enumType, -, entries, hentries, cases, hcases, rfl⟩ := h
  intro m hm
  rw [List.mem_singleton.1 hm]
  refine .enumeration fun e he => ?_
  obtain ⟨value, hvalue, hcase⟩ := exists_of_mem_right (mapM_eq_ok.1 hcases) he
  unfold enumCase at hcase
  simp only [bind_eq_ok, pure_eq, Except.ok.injEq] at hcase
  obtain ⟨shown, -, rfl⟩ := hcase
  exact stable_wellFormed.of_entries (stable_wellFormed.get hwf "enum") hentries value hvalue

/-- The values in a model that is inferred have distinct keys. -/
theorem wellFormed_of_returns (hschema : c.schema.WellFormed) (h : Returns s c r) :
    ∀ m ∈ r.models, m.WellFormed := by
  have hresolved : ∀ {d branch resolved}, Reaches s c d →
      settle s.document d.schema = .ok (branch, resolved) → (Json.obj resolved).WellFormed := by
    intro d branch resolved hd hsettle
    exact wellFormed_of_settle (Reaches.wellFormed hd hschema) hsettle
  refine forall_models_of_returns ?_ ?_ .refl h
  · intro d found hd hplan
    rcases models_of_done hplan with hnone | ⟨branch, resolved, hsettle, henum⟩
    · simp [hnone]
    · exact wellFormed_of_enumeration (hresolved hd hsettle) henum
  · intro d o parts base hd hplan _ _ hnested
    exact .object (wellFormed_discriminator (hresolved hd (plan_object hplan).settled)) hnested

/-- Every model that is inferred is equal to itself. -/
theorem same_self_of_returns (hschema : c.schema.WellFormed) (h : Returns s c r) :
    ∀ m ∈ r.models, m.same m = true :=
  fun m hm => Model.same_self (wellFormed_of_returns hschema h m hm)

end

/-! ## Clear references -/

/-- The references that a schema comes to stand alone, lead to no arrays and no maps, and are
known; and known references to classes of one name are one reference. -/
structure ClearRefs (document : Members) (schema : Json) (known : String → Prop) : Prop where
  alone : ∀ ms v, ComesTo document schema (.obj ms) → get? ms "$ref" = some v → ms = [(.text "$ref", v)]
  not_container : ∀ ms v, ComesTo document schema (.obj ms) → get? ms "$ref" = some v →
    kindFound document (.obj ms) ≠ .ok .array ∧ kindFound document (.obj ms) ≠ .ok .map
  all_known : ∀ ref, ComesTo document schema (refTo ref) → known ref
  distinct : ∀ ref ref', known ref → known ref' →
    Name.ofReference ref = Name.ofReference ref' → ref = ref'

/-- The name of a class that a known reference to an object has. -/
def NamesObject (document : Members) (known : String → Prop) (name : String) : Prop :=
  ∃ ref, known ref ∧ kindFound document (refTo ref) = .ok .object ∧ Name.ofReference ref = name

/-! ## Two calls for one schema -/

/-- The same names are in two lists, apart from some that may be in one of them only. -/
def Differ (Apart : String → Prop) (names names' : List String) : Prop :=
  ∀ n, Apart n ∨ (n ∈ names ↔ n ∈ names')

theorem differ_of_forall {Apart : String → Prop} {names names' : List String}
    (h : ∀ n ∈ names, Apart n) (h' : ∀ n ∈ names', Apart n) : Differ Apart names names' := by
  intro n
  by_cases hn : n ∈ names
  · exact .inl (h n hn)
  · by_cases hn' : n ∈ names'
    · exact .inl (h' n hn')
    · exact .inr (iff_of_false hn hn')

theorem Differ.append {Apart : String → Prop} {names names' : List String}
    (h : Differ Apart names names') (more : List String) :
    Differ Apart (more ++ names) (more ++ names') := by
  intro n
  refine (h n).imp id fun hn => ?_
  rw [List.mem_append, List.mem_append, hn]

theorem Differ.filter {Apart : String → Prop} {names names' : List String}
    (h : Differ Apart names names') (keep : String → Bool) :
    Differ Apart (names.filter keep) (names'.filter keep) := by
  intro n
  refine (h n).imp id fun hn => ?_
  rw [List.mem_filter, List.mem_filter, hn]

/-- Two calls that differ in some classes under construction and in the chain of subclasses. -/
structure Twin (Apart : String → Prop) (c c' : Call) : Prop where
  schema : c.schema = c'.schema
  ownName : c.ownName = c'.ownName
  specName : c.specName = c'.specName
  visiting : Differ Apart c.trail.visiting c'.trail.visiting

/-- Two plans for an object that differ as their calls do. -/
structure ObjectPlan.Twin (Apart : String → Prop) (o o' : ObjectPlan) : Prop where
  name : o.name = o'.name
  specName : o.specName = o'.specName
  schema : o.schema = o'.schema
  required : o.required = o'.required
  properties : o.properties = o'.properties
  branch : o.branch = o'.branch
  visiting : Differ Apart o.trail.visiting o'.trail.visiting

/-- Two plans that differ as their calls do. -/
inductive Plan.Twin (Apart : String → Prop) : Plan → Plan → Prop
  | done (found : Inferred) : Twin Apart (.done found) (.done found)
  | container {kind : Container} {inner inner' : Call} (h : Inference.Twin Apart inner inner') :
    Twin Apart (.container kind inner) (.container kind inner')
  | object {o o' : ObjectPlan} (h : o.Twin Apart o') : Twin Apart (.object o) (.object o')

section
variable {s : Setting} {c c' : Call} {Apart : String → Prop} {o o' : ObjectPlan}

/-- Calls for one schema under one name. -/
theorem twin_of_name {names names' lineage lineage' : List String} (h : Differ Apart names names')
    (name : String) (schema : Json) :
    Twin Apart ⟨⟨names, lineage⟩, name, schema⟩ ⟨⟨names', lineage'⟩, name, schema⟩ :=
  ⟨rfl, rfl, rfl, h⟩

theorem Twin.className? (h : Twin Apart c c') : c.className? = c'.className? := by
  unfold Call.className? Call.ref?
  rw [h.schema]

theorem Twin.visited (h : Twin Apart c c') : Differ Apart c.visited c'.visited := by
  unfold Call.visited
  rw [h.className?]
  exact h.visiting.append _

/-- Plans for a schema of one kind under one name. -/
theorem planTwin_of_kind {trail trail' : Trail} {name : String} {specName : Key}
    {branch : Option Json} {resolved : Members} {kind : Schema.Kind} {p p' : Plan}
    (hvisiting : Differ Apart trail.visiting trail'.visiting)
    (h : planOfKind s trail name specName branch resolved kind = .ok p)
    (h' : planOfKind s trail' name specName branch resolved kind = .ok p') : p.Twin Apart p' := by
  cases kind with
  | array =>
    simp only [planOfKind] at h h'
    split at h
    · rename_i hget
      rw [hget] at h'
      cases h
      cases h'
      exact .container (twin_of_name hvisiting _ _)
    · cases h
  | object =>
    obtain ⟨required, hrequired, h⟩ := bind_eq_ok.1 h
    obtain ⟨properties, hproperties, h⟩ := bind_eq_ok.1 h
    simp only [planOfKind, hrequired, hproperties, ok_bind] at h'
    cases h
    cases h'
    exact .object ⟨rfl, rfl, rfl, rfl, rfl, rfl, hvisiting⟩
  | map =>
    simp only [planOfKind] at h h'
    split at h
    · rename_i hget
      rw [hget] at h'
      cases h
      cases h'
      exact .container (twin_of_name hvisiting _ _)
    · rename_i hother
      cases h
      split at h'
      · rename_i hget
        exact absurd hget (hother _ _)
      · cases h'
        exact .done _
  | void =>
    cases h
    cases h'
    exact .done _
  | enumeration | primitive =>
    obtain ⟨found, hfound, rfl⟩ := map_eq_ok.1 h
    obtain ⟨found', hfound', rfl⟩ := map_eq_ok.1 h'
    cases hfound.symm.trans hfound'
    exact .done _

theorem plan_of_not_schema_truthy (h : c.schema.truthy = false) :
    plan s c = .ok (.done (void s)) := by
  obtain ⟨trail, name, schema⟩ := c
  cases schema with
  | obj ms =>
    cases ms with
    | nil => rfl
    | cons => cases h
  | _ =>
    unfold plan
    dsimp only at h ⊢
    rw [h]
    rfl

/-- Two calls that both follow their schema have plans that differ as they do. -/
theorem Twin.plan (h : Twin Apart c c') (hfresh : ∀ n, ¬ c.IsPlaceholder n)
    (hfresh' : ∀ n, ¬ c'.IsPlaceholder n) {p p' : Plan} (hp : Inference.plan s c = .ok p)
    (hp' : Inference.plan s c' = .ok p') : p.Twin Apart p' := by
  by_cases htruthy : c.schema.truthy = false
  · cases (plan_of_not_schema_truthy htruthy).symm.trans hp
    cases (plan_of_not_schema_truthy (h.schema ▸ htruthy)).symm.trans hp'
    exact .done _
  · rcases plan_eq_ok hp with ⟨hfalse, -⟩ | ⟨n, hn, -⟩ | ⟨-, branch, resolved, kind, hsettle, hkind, hp⟩
    · exact absurd hfalse htruthy
    · exact absurd hn (hfresh n)
    rcases plan_eq_ok hp' with ⟨hfalse, -⟩ | ⟨n, hn, -⟩ | ⟨-, branch', resolved', kind', hsettle', hkind', hp'⟩
    · exact absurd (h.schema ▸ hfalse) htruthy
    · exact absurd hn (hfresh' n)
    rw [← h.schema] at hsettle'
    cases hsettle.symm.trans hsettle'
    cases hkind.symm.trans hkind'
    rw [← h.ownName, ← h.specName] at hp'
    exact planTwin_of_kind h.visited hp hp'

/-! ## Two results for one schema -/

theorem take_one_of_head? {α : Type} {as bs : List α} (h : as.head? = bs.head?) :
    as.take 1 = bs.take 1 := by
  cases as <;> cases bs <;> simp_all

theorem handedDown_of_head? {models models' : List Model} (h : models.head? = models'.head?) :
    handedDown models = handedDown models' := by
  cases models with
  | nil => cases models' <;> simp_all
  | cons m models =>
    cases models' with
    | nil => cases h
    | cons m' models' =>
      cases h
      cases m <;> rfl

/-- Properties contribute the same to a class if their calls give the same type, and objects
written in place the same model. -/
theorem ObjectPlan.Twin.contributed (ho : o.Twin Apart o') {members : Members}
    {parts parts' : List Contribution} (hparts : List.Forall₂ (o.Contributed s) members parts)
    (hparts' : List.Forall₂ (o'.Contributed s) members parts')
    (hcalls : ∀ m ∈ members, ∀ spoken found found', m.1.toJson.shown = .ok spoken →
      Returns s (o.propertyCall spoken m.2) found → Returns s (o'.propertyCall spoken m.2) found' →
      found.type = found'.type ∧
        (isInlineObject m.2 = true → found.models.head? = found'.models.head?)) :
    parts.map (·.property) = parts'.map (·.property) ∧
      parts.flatMap (·.nested) = parts'.flatMap (·.nested) := by
  induction hparts generalizing parts' with
  | nil =>
    cases hparts'
    exact ⟨rfl, rfl⟩
  | @cons m part members parts hpart _ ih =>
    cases hparts' with
    | @cons _ part' _ parts' hpart' hrest' =>
      obtain ⟨hm, hmembers⟩ := List.forall_mem_cons.1 hcalls
      obtain ⟨hproperties, hnested⟩ := ih hrest' hmembers
      obtain ⟨spoken, found, hspoken, hfound, rfl⟩ := hpart
      obtain ⟨spoken', found', hspoken', hfound', rfl⟩ := hpart'
      cases hspoken.symm.trans hspoken'
      obtain ⟨htype, hhead⟩ := hm spoken found found' hspoken hfound hfound'
      have hproperty : (o.contribution m spoken found).property =
          (o'.contribution m spoken found').property := by
        simp only [ObjectPlan.contribution, htype, ho.name, ho.required]
      have hmodels : (o.contribution m spoken found).nested =
          (o'.contribution m spoken found').nested := by
        unfold ObjectPlan.contribution
        dsimp only
        split
        · rename_i hinline
          exact take_one_of_head? (hhead hinline)
        · rfl
      rw [List.map_cons, List.map_cons, List.flatMap_cons, List.flatMap_cons, hproperty, hproperties,
        hmodels, hnested]
      exact ⟨rfl, rfl⟩

/-- A base class hands down the same if its calls give the same model. -/
theorem ObjectPlan.Twin.inherits (ho : o.Twin Apart o') {base base' : Base}
    (hbase : o.Inherits s base) (hbase' : o'.Inherits s base')
    (hcalls : ∀ branch ref found found', o.branch = some branch →
      (baseRef (some branch)).text = .ok ref → ¬ o.IsCircular (Name.ofReference ref) →
      Returns s (o.baseCall ref branch) found → Returns s (o'.baseCall ref branch) found' →
      found.models.head? = found'.models.head?) :
    base.name = base'.name ∧ base.inherited = base'.inherited := by
  rcases hbase with ⟨hnone, rfl⟩ | ⟨branch, ref, found, hb, href, hcircular, hfound, rfl⟩
  · rcases hbase' with ⟨-, rfl⟩ | ⟨branch', ref', found', hb', -⟩
    · exact ⟨rfl, rfl⟩
    · rw [← ho.branch, hnone] at hb'
      cases hb'
  · rcases hbase' with ⟨hnone', -⟩ | ⟨branch', ref', found', hb', href', -, hfound', rfl⟩
    · rw [← ho.branch, hb] at hnone'
      cases hnone'
    · rw [← ho.branch, hb] at hb'
      cases hb'
      cases href.symm.trans href'
      exact ⟨rfl, handedDown_of_head? (hcalls branch ref found found' hb href hcircular hfound hfound')⟩

theorem ObjectPlan.Twin.assembled (ho : o.Twin Apart o') {parts parts' : List Contribution}
    {base base' : Base} (hproperties : parts.map (·.property) = parts'.map (·.property))
    (hnested : parts.flatMap (·.nested) = parts'.flatMap (·.nested)) (hname : base.name = base'.name)
    (hinherited : base.inherited = base'.inherited) :
    (o.assembled parts base).type = (o'.assembled parts' base').type ∧
      (o.assembled parts base).models.head? = (o'.assembled parts' base').models.head? := by
  have hhead : o.head parts base = o'.head parts' base' := by
    simp only [ObjectPlan.head, ho.name, ho.specName, ho.schema, hname, hinherited, hproperties]
  simp only [ObjectPlan.assembled, hhead, hnested, ho.name, List.cons_append, List.head?_cons,
    and_self]

variable {known : String → Prop} {root : Json} {r r' : Inferred}

/-- Where two calls may differ in what is under construction, what they come to by a name in which
they differ is an object, and what a class extends is no array and no map. -/
structure Harmless (s : Setting) (Apart : String → Prop) (root : Json) : Prop where
  object : ∀ (d : Call) n, ComesTo s.document root d.schema → d.className? = some n → Apart n →
    kindFound s.document d.schema = .ok .object
  base : ∀ schema branch ref, ComesTo s.document root schema →
    kindFound s.document schema = .ok .object → IsBase s.document schema branch →
    (baseRef (some branch)).text = .ok ref →
    kindFound s.document branch ≠ .ok .array ∧ kindFound s.document branch ≠ .ok .map

/-- A reference to an object that is followed gives the name of its class as its type. -/
theorem type_of_object {n : String} (hclass : c.className? = some n)
    (hkind : kindFound s.document c.schema = .ok .object) (hfresh : ∀ n, ¬ c.IsPlaceholder n)
    (h : Returns s c r) : r.type = ⟨n, none⟩ := by
  obtain ⟨p, hplan⟩ := exists_plan_of_returns h
  obtain ⟨o, rfl, ho⟩ := plan_of_object hkind hfresh hplan
  obtain ⟨parts, base, -, -, rfl⟩ := h.object hplan
  have hown : o.name = n := by
    rw [ho.name, Call.ownName, hclass]
    rfl
  rw [← hown]
  rfl

theorem not_isPlaceholder_of_isInlineObject (h : isInlineObject c.schema = true) (n : String) :
    ¬ c.IsPlaceholder n := by
  rintro ⟨hclass, -⟩
  rw [isInlineObject_of_className? hclass] at h
  cases h

theorem Twin.symm (h : Twin Apart c c') : Twin Apart c' c :=
  ⟨h.schema.symm, h.ownName.symm, h.specName.symm, fun n => (h.visiting n).imp id Iff.symm⟩

/-- Where one call stops at a reference, the other stops as well or follows it to an object. -/
theorem Twin.type_of_placeholder (hharmless : Harmless s Apart root) (h : Twin Apart c c')
    (hcomes : ComesTo s.document root c.schema) {n : String} (hn : c.IsPlaceholder n)
    (hr : Returns s c r) (hr' : Returns s c' r') : r.type = r'.type := by
  have hclass : c'.className? = some n := h.className? ▸ hn.1
  rw [hr.done (plan_of_placeholder hn)]
  by_cases hmem : n ∈ c'.trail.visiting
  · rw [hr'.done (plan_of_placeholder ⟨hclass, hmem⟩)]
  · have hapart := (h.visiting n).resolve_right fun hiff => hmem (hiff.1 hn.2)
    have hkind := hharmless.object c' n (h.schema ▸ hcomes) hclass hapart
    refine (type_of_object hclass hkind ?_ hr').symm
    rintro n' ⟨hn', hmem'⟩
    cases hclass.symm.trans hn'
    exact hmem hmem'

/-- The results of two calls for one schema: the same type, and, if both calls follow the
schema and it is no container, the same model for it. -/
structure Matches (s : Setting) (c c' : Call) (r r' : Inferred) : Prop where
  type : r.type = r'.type
  head : (∀ n, ¬ c.IsPlaceholder n) → (∀ n, ¬ c'.IsPlaceholder n) →
    kindFound s.document c.schema ≠ .ok .array → kindFound s.document c.schema ≠ .ok .map →
    r.models.head? = r'.models.head?

section
variable (hroot : root.WellFormed)
  (hharmless : Harmless s Apart root) (hcomes : ComesTo s.document root c.schema)
  (hplan : plan s c = .ok (.object o)) (htwin : o.Twin Apart o')
  (ih : ∀ d d' found found', Nested s c d → Twin Apart d d' → Returns s d found →
    Returns s d' found' → Matches s d d' found found')
  {parts : List Contribution} (hparts : List.Forall₂ (o.Contributed s) o.properties parts)
include hcomes hplan htwin ih hparts

include hroot in
/-- The properties of two objects match if their calls do. -/
theorem contributed_of_matches {parts' : List Contribution}
    (hparts' : List.Forall₂ (o'.Contributed s) o'.properties parts') :
    parts.map (·.property) = parts'.map (·.property) ∧
      parts.flatMap (·.nested) = parts'.flatMap (·.nested) := by
  apply htwin.contributed hparts (htwin.properties ▸ hparts')
  intro m hm spoken found found' hspoken hfound hfound'
  have hnested := nested_property hplan hparts hm hspoken
  have hcall : Twin Apart (o.propertyCall spoken m.2) (o'.propertyCall spoken m.2) := by
    unfold ObjectPlan.propertyCall
    rw [htwin.name]
    exact twin_of_name htwin.visiting _ _
  have hmatches := ih _ _ found found' hnested hcall hfound hfound'
  refine ⟨hmatches.type, fun hinline => ?_⟩
  have hwf : m.2.WellFormed :=
    ComesTo.preserves stable_wellFormed s.document.wellFormed hroot (hcomes.tail hnested.leadsTo)
  apply hmatches.head (not_isPlaceholder_of_isInlineObject hinline)
    (not_isPlaceholder_of_isInlineObject hinline)
  · intro hkind
    cases kind_of_isInlineObject hwf hinline hkind <;> contradiction
  · intro hkind
    cases kind_of_isInlineObject hwf hinline hkind <;> contradiction

include hharmless in
/-- What two objects inherit matches if the calls for their base classes do. -/
theorem inherits_of_matches {base base' : Base} (hbase : o.Inherits s base)
    (hbase' : o'.Inherits s base') :
    base.name = base'.name ∧ base.inherited = base'.inherited := by
  apply htwin.inherits hbase hbase'
  intro branch ref found found' hb href hcircular hfound hfound'
  have hnested := nested_base hplan hparts hb href hcircular
  have hcall : Twin Apart (o.baseCall ref branch) (o'.baseCall ref branch) :=
    twin_of_name (htwin.visiting.filter _) _ _
  have ho := plan_object hplan
  have hkind : kindFound s.document c.schema = .ok .object := by
    rw [kindFound_of_settle ho.settled, ho.kind]
  obtain ⟨harray, hmap⟩ := hharmless.base c.schema branch ref hcomes hkind
    ((isBase_iff_of_settle ho.settled).2 hb) href
  exact (ih _ _ found found' hnested hcall hfound hfound').head (o.baseCall_fresh href)
    (o'.baseCall_fresh href) harray hmap

end

/-- Two calls for one schema that differ where it is harmless have results that match. -/
theorem Twin.agree_of_harmless (hroot : root.WellFormed) (hharmless : Harmless s Apart root)
    (h : Twin Apart c c') (hcomes : ComesTo s.document root c.schema) (hr : Returns s c r)
    (hr' : Returns s c' r') :
    Matches s c c' r r' := by
  have hacc : Acc (fun d c => Nested s c d) c := by
    obtain ⟨fuel, hfuel⟩ := hr
    exact ends_iff_acc.1 (ends_iff.2 ⟨fuel, hfuel ▸ settled_ok r⟩)
  induction hacc generalizing c' r r' with
  | intro c _ ih =>
    by_cases hfresh : ∃ n, c.IsPlaceholder n
    · obtain ⟨n, hn⟩ := hfresh
      exact ⟨h.type_of_placeholder hharmless hcomes hn hr hr', fun hnone => absurd hn (hnone n)⟩
    by_cases hfresh' : ∃ n, c'.IsPlaceholder n
    · obtain ⟨n, hn⟩ := hfresh'
      have htype := h.symm.type_of_placeholder hharmless (h.schema ▸ hcomes) hn hr' hr
      exact ⟨htype.symm, fun _ hnone => absurd hn (hnone n)⟩
    have hmatches : ∀ d d' found found', Nested s c d → Twin Apart d d' → Returns s d found →
        Returns s d' found' → Matches s d d' found found' := by
      intro d d' found found' hd hcall hfound hfound'
      exact ih d hd hcall (hcomes.tail hd.leadsTo) hfound hfound'
    obtain ⟨p, hplan⟩ := exists_plan_of_returns hr
    obtain ⟨p', hplan'⟩ := exists_plan_of_returns hr'
    cases h.plan (not_exists.1 hfresh) (not_exists.1 hfresh') hplan hplan' with
    | done found =>
      rw [hr.done hplan, hr'.done hplan']
      exact ⟨rfl, fun _ _ _ _ => rfl⟩
    | @container kind inner inner' hinner =>
      obtain ⟨found, hfound, rfl⟩ := hr.container hplan
      obtain ⟨found', hfound', rfl⟩ := hr'.container hplan'
      have htype := (hmatches inner inner' found found' (.inner hplan) hinner hfound hfound').type
      refine ⟨?_, fun _ _ harray hmap => ?_⟩
      · cases kind <;> simp only [Container.around, htype]
      · exact absurd (plan_container hplan).kindFound (not_or.2 ⟨harray, hmap⟩)
    | @object o o' htwin =>
      obtain ⟨parts, base, hparts, hbase, rfl⟩ := hr.object hplan
      obtain ⟨parts', base', hparts', hbase', rfl⟩ := hr'.object hplan'
      obtain ⟨hproperties, hnested⟩ :=
        contributed_of_matches hroot hcomes hplan htwin hmatches hparts hparts'
      obtain ⟨hname, hinherited⟩ :=
        inherits_of_matches hharmless hcomes hplan htwin hmatches hparts hbase hbase'
      obtain ⟨htype, hhead⟩ := htwin.assembled hproperties hnested hname hinherited
      exact ⟨htype, fun _ _ _ _ => hhead⟩

/-- Classes of known objects make no difference where references are clear. -/
theorem ClearRefs.harmless (hrefs : ClearRefs s.document root known) :
    Harmless s (NamesObject s.document known) root where
  object d n hcomes hclass hobject := by
    obtain ⟨ref, href, rfl⟩ := Option.map_eq_some_iff.1 hclass
    obtain ⟨ms, hschema, hget, -⟩ := ref?_eq_some_iff.1 href
    obtain ⟨ref', hknown, hkind, hname⟩ := hobject
    have halone : d.schema = refTo ref := by
      rw [hschema, hrefs.alone ms _ (hschema ▸ hcomes) hget]
      rfl
    cases hrefs.distinct ref' ref hknown (hrefs.all_known ref (halone ▸ hcomes)) hname
    exact halone ▸ hkind
  base schema branch ref hcomes hkind hbase href := by
    obtain ⟨⟨branch', resolved⟩, hsettle, hkind⟩ := bind_eq_ok.1 hkind
    cases (isBase_iff_of_settle hsettle).1 hbase
    obtain ⟨ms, v, rfl, hget⟩ := exists_of_baseRef href
    exact hrefs.not_container ms v (hcomes.tail (.base hsettle hkind)) hget

/-- Two calls for one schema that differ in classes of known objects have results that match. -/
theorem Twin.agree (hroot : root.WellFormed) (hrefs : ClearRefs s.document root known)
    (h : Twin (NamesObject s.document known) c c') (hcomes : ComesTo s.document root c.schema)
    (hr : Returns s c r) (hr' : Returns s c' r') :
    Matches s c c' r r' :=
  h.agree_of_harmless hroot hrefs.harmless hcomes hr hr'

/-! ## Copies of one model -/

theorem kindFound_refTo_empty (document : Members) : kindFound document (refTo "") = .ok .void :=
  kindFound_of_settle (settle_refTo_empty document)

/-- A reference is a placeholder only for the class that it names. -/
theorem not_isPlaceholder_refTo {ref name : String} {visiting lineage : List String}
    (hvisiting : ∀ n ∈ visiting, n ≠ Name.ofReference ref) (n : String) :
    ¬ (⟨⟨visiting, lineage⟩, name, refTo ref⟩ : Call).IsPlaceholder n := by
  rintro ⟨hclass, hmem⟩
  obtain ⟨written, href, rfl⟩ := Option.map_eq_some_iff.1 hclass
  obtain ⟨ms, hschema, hget, -⟩ := ref?_eq_some_iff.1 href
  cases hschema
  cases hget
  exact hvisiting _ hmem rfl

/-- Two calls for one reference are twins, whatever their default names and chains. -/
theorem twin_refTo {ref name name' : String} {visiting visiting' lineage lineage' : List String}
    (hne : ref ≠ "") (hvisiting : Differ Apart visiting visiting') :
    Twin Apart ⟨⟨visiting, lineage⟩, name, refTo ref⟩ ⟨⟨visiting', lineage'⟩, name', refTo ref⟩ := by
  have href : ∀ trail default, (⟨trail, default, refTo ref⟩ : Call).ref? = some ref :=
    fun trail default => ref?_eq_some_iff.2 ⟨_, rfl, rfl, hne⟩
  refine ⟨rfl, ?_, ?_, hvisiting⟩
  · unfold Call.ownName Call.className?
    rw [href, href]
    rfl
  · unfold Call.specName
    rw [href, href]

/-- A class or an enumeration is the first of the models of its schema, under the call's name. -/
theorem exists_named_model (hfresh : ∀ n, ¬ c.IsPlaceholder n) (hr : Returns s c r)
    (hkind : kindFound s.document c.schema = .ok .object ∨
      kindFound s.document c.schema = .ok .enumeration) :
    ∃ m rest, r.models = m :: rest ∧ m.name = some c.ownName := by
  obtain ⟨p, hplan⟩ := exists_plan_of_returns hr
  rcases hkind with hkind | hkind
  · obtain ⟨o, rfl, ho⟩ := plan_of_object hkind hfresh hplan
    obtain ⟨parts, base, -, -, rfl⟩ := hr.object hplan
    exact ⟨_, _, rfl, congrArg some ho.name⟩
  · obtain ⟨branch, resolved, -, -, hp⟩ := plan_of_kindFound hkind hfresh
    obtain ⟨found, henum, rfl⟩ := map_eq_ok.1 (hp.symm.trans hplan)
    obtain ⟨e, hname, rfl⟩ := exists_enumeration henum
    rw [hr.done hplan]
    exact ⟨_, _, rfl, hname⟩

theorem exists_first_model (hfresh : ∀ n, ¬ c.IsPlaceholder n) (hr : Returns s c r)
    (hkind : kindFound s.document c.schema = .ok .object ∨
      kindFound s.document c.schema = .ok .enumeration) : ∃ m rest, r.models = m :: rest := by
  obtain ⟨m, rest, hmodels, -⟩ := exists_named_model hfresh hr hkind
  exact ⟨m, rest, hmodels⟩

/-- A definition has one type, and an object or an enumeration one model, of which one copy is
kept, whatever other objects are under construction and whatever chain of subclasses asks for it. -/
theorem model_eq_of_trails {ref : String} (hrefs : ClearRefs s.document (refTo ref) known)
    {visiting visiting' lineage lineage' : List String} {name name' : String}
    (hvisiting : ∀ n ∈ visiting, n ≠ Name.ofReference ref ∧ NamesObject s.document known n)
    (hvisiting' : ∀ n ∈ visiting', n ≠ Name.ofReference ref ∧ NamesObject s.document known n)
    (hr : Returns s ⟨⟨visiting, lineage⟩, name, refTo ref⟩ r)
    (hr' : Returns s ⟨⟨visiting', lineage'⟩, name', refTo ref⟩ r') :
    r.type = r'.type ∧
      (kindFound s.document (refTo ref) = .ok .object ∨
          kindFound s.document (refTo ref) = .ok .enumeration →
        ∃ m rest m' rest', r.models = m :: rest ∧ r'.models = m' :: rest' ∧ m.same m' = true ∧
          ∀ before between after, Assembly.distinct (before ++ m :: between ++ m' :: after) =
            Assembly.distinct (before ++ m :: between ++ after)) := by
  have hfresh : ∀ n, ¬ (⟨⟨visiting, lineage⟩, name, refTo ref⟩ : Call).IsPlaceholder n :=
    not_isPlaceholder_refTo fun n hn => (hvisiting n hn).1
  have hfresh' : ∀ n, ¬ (⟨⟨visiting', lineage'⟩, name', refTo ref⟩ : Call).IsPlaceholder n :=
    not_isPlaceholder_refTo fun n hn => (hvisiting' n hn).1
  by_cases hempty : ref = ""
  · subst hempty
    have hvoid := kindFound_refTo_empty s.document
    obtain ⟨branch, resolved, -, -, hp⟩ := plan_of_kindFound hvoid hfresh
    obtain ⟨branch', resolved', -, -, hp'⟩ := plan_of_kindFound hvoid hfresh'
    rw [hr.done hp, hr'.done hp']
    refine ⟨rfl, fun hkind => ?_⟩
    rcases hkind with hkind | hkind <;> cases hvoid.symm.trans hkind
  · have htwin : Twin (NamesObject s.document known) ⟨⟨visiting, lineage⟩, name, refTo ref⟩
        ⟨⟨visiting', lineage'⟩, name', refTo ref⟩ :=
      twin_refTo hempty (differ_of_forall (fun n hn => (hvisiting n hn).2) fun n hn =>
        (hvisiting' n hn).2)
    have hschema := wellFormed_refTo ref
    have hmatches := htwin.agree hschema hrefs .refl hr hr'
    refine ⟨hmatches.type, fun hkind => ?_⟩
    obtain ⟨m, rest, hm⟩ := exists_first_model hfresh hr hkind
    obtain ⟨m', rest', hm'⟩ := exists_first_model hfresh' hr' hkind
    have hhead := hmatches.head hfresh hfresh'
      (fun h => by rcases hkind with hkind | hkind <;> cases h.symm.trans hkind)
      (fun h => by rcases hkind with hkind | hkind <;> cases h.symm.trans hkind)
    rw [hm, hm'] at hhead
    cases hhead
    have hself : m.same m = true :=
      same_self_of_returns hschema hr m (hm ▸ List.mem_cons_self)
    exact ⟨m, rest, m, rest', hm, hm', hself, Assembly.distinct_repeated hself⟩

end

/-! ## A class that holds what extends it -/

def shapeRef : Json := refTo "#/definitions/Shape"

def circleRef : Json := refTo "#/definitions/Circle"

def circlesMembers : Members := [("type", .str "array"), ("items", circleRef)]

def shapeMembers : Members :=
  [("type", .str "object"), ("properties", .obj [("children", .obj circlesMembers)])]

def radiusMembers : Members := [("type", .str "number")]

def roundMembers : Members := [("properties", .obj [("radius", .obj radiusMembers)])]

def circleMembers : Members := [("allOf", .arr [shapeRef, .obj roundMembers])]

def shapeDocument : Document where
  members := [("definitions", .obj [("Shape", .obj shapeMembers), ("Circle", .obj circleMembers)])]

theorem settle_shape : settle shapeDocument shapeRef = .ok (none, shapeMembers) := by
  cbv

theorem settle_circle : settle shapeDocument circleRef = .ok (some shapeRef, roundMembers) := by
  have hfollowed : followRefs shapeDocument circleRef .null = .ok circleMembers := by
    cbv
  have hresolved : flatten shapeDocument circleRef (.str "#/definitions/Shape") =
      .ok roundMembers := by
    rfl
  exact settle_eq_ok.2 ⟨_, hfollowed, rfl, hresolved⟩

theorem settle_circles : settle shapeDocument (.obj circlesMembers) = .ok (none, circlesMembers) :=
  rfl

theorem settle_radius : settle shapeDocument (.obj radiusMembers) = .ok (none, radiusMembers) :=
  rfl

theorem mem_of_comesTo_shape {v : Json} (h : ComesTo shapeDocument shapeRef v) :
    v = shapeRef ∨ v = circleRef ∨ v = .obj circlesMembers ∨ v = .obj radiusMembers := by
  induction h with
  | refl => exact .inl rfl
  | tail _ hstep ih =>
    rcases ih with rfl | rfl | rfl | rfl
    · rcases hstep.of_object settle_shape rfl with h | ⟨properties, m, hproperties, hm, rfl⟩
      · cases h
      · cases hproperties
        cases List.mem_singleton.1 hm
        exact .inr (.inr (.inl rfl))
    · rcases hstep.of_object settle_circle rfl with h | ⟨properties, m, hproperties, hm, rfl⟩
      · cases h
        exact .inl rfl
      · cases hproperties
        cases List.mem_singleton.1 hm
        exact .inr (.inr (.inr rfl))
    · cases hstep.of_array settle_circles rfl
      exact .inr (.inl rfl)
    · exact absurd hstep (not_leadsTo_of_primitive settle_radius rfl)

theorem kindFound_shape : kindFound shapeDocument shapeRef = .ok .object := by
  rw [kindFound_of_settle settle_shape]
  rfl

theorem kindFound_circle : kindFound shapeDocument circleRef = .ok .object := by
  rw [kindFound_of_settle settle_circle]
  rfl

def IsShapeRef (ref : String) : Prop := ref = "#/definitions/Shape" ∨ ref = "#/definitions/Circle"

theorem clearRefs_shape : ClearRefs shapeDocument shapeRef IsShapeRef where
  alone ms v h hget := by
    rcases mem_of_comesTo_shape h with h | h | h | h <;> cases h <;> cases hget <;> rfl
  not_container ms v h hget := by
    rcases mem_of_comesTo_shape h with h | h | h | h
    · rw [h, kindFound_shape]
      exact ⟨nofun, nofun⟩
    · rw [h, kindFound_circle]
      exact ⟨nofun, nofun⟩
    · cases h
      cases hget
    · cases h
      cases hget
  all_known ref h := by
    rcases mem_of_comesTo_shape h with h | h | h | h
    · cases h
      exact .inl rfl
    · cases h
      exact .inr rfl
    · simp [refTo, circlesMembers] at h
    · simp [refTo, radiusMembers] at h
  distinct ref ref' h h' heq := by
    have hne : Name.ofReference "#/definitions/Shape" ≠ Name.ofReference "#/definitions/Circle" := by
      decide
    rcases h with rfl | rfl <;> rcases h' with rfl | rfl
    · rfl
    · exact absurd heq hne
    · exact absurd heq.symm hne
    · rfl

theorem model_eq_of_trails_shape :
    ∃ r r', Returns ⟨shapeDocument, Language.swiftTypes⟩ ⟨⟨[], []⟩, "", shapeRef⟩ r ∧
      Returns ⟨shapeDocument, Language.swiftTypes⟩ ⟨⟨["Circle"], ["Disk"]⟩, "Form", shapeRef⟩ r' ∧
      r.type = r'.type ∧
      ∃ m rest m' rest', r.models = m :: rest ∧ r'.models = m' :: rest' ∧ m.same m' = true ∧
        ∀ before between after, Assembly.distinct (before ++ m :: between ++ m' :: after) =
          Assembly.distinct (before ++ m :: between ++ after) := by
  have hreturns : ∃ r, Returns ⟨shapeDocument, Language.swiftTypes⟩ ⟨⟨[], []⟩, "", shapeRef⟩ r :=
    ⟨_, 6, rfl⟩
  have hreturns' : ∃ r, Returns ⟨shapeDocument, Language.swiftTypes⟩
      ⟨⟨["Circle"], ["Disk"]⟩, "Form", shapeRef⟩ r := ⟨_, 6, rfl⟩
  obtain ⟨r, hr⟩ := hreturns
  obtain ⟨r', hr'⟩ := hreturns'
  have hnames : ∀ n ∈ ["Circle"], n ≠ Name.ofReference "#/definitions/Shape" ∧
      NamesObject shapeDocument IsShapeRef n := by
    intro n hn
    cases List.mem_singleton.1 hn
    exact ⟨by decide, "#/definitions/Circle", .inr rfl, kindFound_circle, by decide⟩
  obtain ⟨htype, hmodels⟩ := model_eq_of_trails clearRefs_shape (List.forall_mem_nil _) hnames hr hr'
  exact ⟨r, r', hr, hr', htype, hmodels (.inl kindFound_shape)⟩

end Inference

end ClientForge
