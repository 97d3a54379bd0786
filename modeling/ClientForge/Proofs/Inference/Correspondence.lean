-- SUMMARY: Two runs of inference over alike schemas give corresponding results, or both fail.
import ClientForge.Proofs.Document.Referenced
import ClientForge.Proofs.Inference.Reachability

/-!
# Corresponding results

Two settings differ in their documents, in their type tables, or in both. A
`Correspondence` says which type names and which models of the two correspond; it has a
clause for each way in which inference makes a type name or a model, so that whatever two
runs over linked schemas put together corresponds as well. The clauses speak of the results
only, and the two runs are followed once, call by call (`Correspondence.inferWith`): linked
calls have linked plans, and linked plans are carried out with corresponding results.

A name of a primitive type depends on the table in a way that no clause can foresee. It is
asked for only at the schemas that inference comes to, which `Correspondence.Names` is about.
-/

namespace ClientForge

namespace Inference

open Members Outcome Schema

/-! ## Correspondences -/

/-- Two properties that differ in their type names and descriptions only. -/
structure SameField (free : Prop) (type : String → String → Prop) (p q : Property) : Prop where
  name : p.name = q.name
  specName : p.specName = q.specName
  type : Option.Rel type p.type q.type
  format : p.format = q.format
  isRequired : p.isRequired = q.isRequired
  description : Alike free .description p.description q.description

/-- What corresponding contributions and base classes make up. -/
structure SameClass (free : Prop) (type : String → String → Prop) (model : Model → Model → Prop)
    (o o' : ObjectPlan) (parts parts' : List Contribution) (base base' : Base) : Prop where
  name : o.name = o'.name
  specName : o.specName = o'.specName
  discriminator : discriminator o.schema = discriminator o'.schema
  description : Alike free .description (Members.get o.schema "description")
    (Members.get o'.schema "description")
  fields : List.Forall₂ (SameField free type) (parts.map (·.property)) (parts'.map (·.property))
  nested : List.Forall₂ model (parts.flatMap (·.nested)) (parts'.flatMap (·.nested))
  superclass : base.name = base'.name
  inherited : base.inherited = handedDown base.models
  inherited' : base'.inherited = handedDown base'.models
  bases : List.Forall₂ model base.models base'.models

/-- Type names of two tables and models that correspond, in whatever inference makes of them. -/
structure Correspondence (free : Prop) (t t' : TypeTable) where
  type : String → String → Prop
  model : Model → Model → Prop
  type_refl : ∀ name, type name name
  type_void : type t.void t'.void
  type_within : ∀ owner {a b}, type a b →
    type (String.join [owner, ".", a]) (String.join [owner, ".", b])
  type_arrayOf : ∀ {a b}, type a b → type (t.arrayOf a) (t'.arrayOf b)
  type_mapOf : ∀ {a b}, type a b → type (t.mapOf (some a)) (t'.mapOf (some b))
  type_mapOf_none : type (t.mapOf none) (t'.mapOf none)
  model_enumeration : ∀ name cases {a b d d'}, type a b → Alike free .description d d' →
    model (.enumeration ⟨some name, some a, cases, d⟩) (.enumeration ⟨some name, some b, cases, d'⟩)
  model_object : ∀ {o o' parts parts' base base'},
    SameClass free type model o o' parts parts' base base' →
      model (.object (o.head parts base) (parts.flatMap (·.nested)))
        (.object (o'.head parts' base') (parts'.flatMap (·.nested)))

variable {free : Prop} {Known : String → Prop} {s s' : Setting}

/-- Two results of inference that correspond. -/
structure Correspondence.Found {t t' : TypeTable} (K : Correspondence free t t') (r r' : Inferred) :
    Prop where
  type : K.type r.type.name r'.type.name
  format : r.type.format = r'.type.format
  models : List.Forall₂ K.model r.models r'.models

/-! ## Linked schemas -/

section
variable {ms ns : Members} {v w : Json}

theorem both_kind (h : LinkedMembers free Known .specification ms ns) :
    Both Eq (Schema.kind ms) (Schema.kind ns) := by
  have htype : Both Eq (type? ms) (type? ns) := by
    unfold type?
    rw [h.get_exact rfl]
    split <;> first | exact .ok rfl | exact .error _ _
  have hkind : ∀ type, kindOfType ms type = kindOfType ns type := by
    intro type
    unfold kindOfType
    simp only [h.has]
  unfold Schema.kind
  simp only [h.has]
  split
  · exact .error _ _
  · refine htype.bind fun type type' _ _ heq => ?_
    cases heq
    exact .ok (hkind type)

theorem isRefBranch_of_linked {ρ : Role} (h : Linked free Known ρ v w) :
    isRefBranch v = isRefBranch w := by
  cases v with
  | obj ms =>
    obtain ⟨ns, rfl, -⟩ := alike_obj.1 h.alike
    exact LinkedMembers.has h "$ref"
  | _ => cases w <;> first | rfl | exact h.alike.elim

theorem isInlineObject_of_linked (h : Linked free Known .specification v w) :
    isInlineObject v = isInlineObject w := by
  cases v with
  | obj ms =>
    obtain ⟨ns, rfl, -⟩ := alike_obj.1 h.alike
    have hms : LinkedMembers free Known .specification ms ns := h
    unfold isInlineObject
    dsimp only
    rw [hms.has, hms.has, hms.get_exact (k := "type") rfl]
  | _ => cases w <;> first | rfl | exact h.alike.elim

theorem alike_description (h : Linked free Known .specification v w) :
    Alike free .description (description v) (description w) := by
  cases v with
  | obj ms =>
    obtain ⟨ns, rfl, -⟩ := alike_obj.1 h.alike
    exact (LinkedMembers.get h "description").alike
  | _ => cases w <;> first | exact alike_refl _ _ | exact h.alike.elim

theorem discriminator_of_linked (h : LinkedMembers free Known .specification ms ns) :
    discriminator ms = discriminator ns := by
  unfold discriminator
  rw [h.get_exact rfl]

theorem find?_of_linked {ρ : Role} {vs ws : List Json}
    (h : List.Forall₂ (Linked free Known ρ) vs ws) :
    Option.Rel (Linked free Known ρ) (vs.find? isRefBranch) (ws.find? isRefBranch) := by
  induction h with
  | nil => exact .none
  | cons hvw _ ih =>
    rw [List.find?_cons, List.find?_cons, ← isRefBranch_of_linked hvw]
    split
    · exact .some hvw
    · exact ih

theorem both_baseSchema? (h : LinkedMembers free Known .specification ms ns) :
    Both (Option.Rel (Linked free Known .specification)) (baseSchema? ms) (baseSchema? ns) := by
  have hallOf := h.get "allOf"
  unfold baseSchema?
  dsimp only
  rw [hallOf.alike.truthy]
  split
  · refine (hallOf.bothEntries nofun).bind fun vs ws _ _ hvw => ?_
    exact .ok (find?_of_linked hvw)
  · exact .ok .none

theorem baseRef_of_linked {branch branch' : Option Json}
    (h : Option.Rel (Linked free Known .specification) branch branch') :
    baseRef branch = baseRef branch' := by
  cases h with
  | none => rfl
  | @some v w h =>
    cases v with
    | obj ms =>
      obtain ⟨ns, rfl, -⟩ := alike_obj.1 h.alike
      exact LinkedMembers.get_exact h rfl
    | _ => cases w <;> first | rfl | exact h.alike.elim

theorem both_propertySchemas (h : LinkedMembers free Known .specification ms ns) :
    Both (LinkedMembers free Known .named) (propertySchemas ms) (propertySchemas ns) := by
  have hproperties := h.get "properties"
  unfold propertySchemas
  dsimp only
  rw [hproperties.alike.truthy]
  split
  · exact hproperties.bothMembers
  · exact .ok linked_empty

/-- Linked schemas are settled with linked base branches. -/
theorem both_settle (h : Agreement free Known s.document s'.document)
    (hlinked : Linked free Known .specification v w) :
    Both (fun a b => Option.Rel (Linked free Known .specification) a.1 b.1 ∧
        LinkedMembers free Known .specification a.2 b.2)
      (Inference.settle s.document v) (Inference.settle s'.document w) := by
  refine (h.resolve .null _ hlinked).bind fun followed followed' _ _ hfollowed => ?_
  refine (both_baseSchema? hfollowed).bind fun branch branch' _ _ hbranch => ?_
  rw [← baseRef_of_linked hbranch]
  exact (h.resolve _ _ hlinked).bind fun resolved resolved' _ _ hresolved => .ok ⟨hbranch, hresolved⟩

end

/-! ## Linked plans -/

/-- Two calls that differ in their schemas only, which are linked. -/
structure Call.Linked (free : Prop) (Known : String → Prop) (c c' : Call) : Prop where
  trail : c.trail = c'.trail
  name : c.name = c'.name
  schema : ClientForge.Linked free Known .specification c.schema c'.schema

/-- Two plans for objects with linked schemas. -/
structure ObjectPlan.Linked (free : Prop) (Known : String → Prop) (o o' : ObjectPlan) : Prop where
  trail : o.trail = o'.trail
  name : o.name = o'.name
  specName : o.specName = o'.specName
  schema : LinkedMembers free Known .specification o.schema o'.schema
  required : o.required = o'.required
  properties : LinkedMembers free Known .named o.properties o'.properties
  branch : Option.Rel (ClientForge.Linked free Known .specification) o.branch o'.branch

/-- Two plans that are done with corresponding results, or make linked calls. -/
inductive Plan.Linked (Known : String → Prop) (K : Correspondence free s.types s'.types) :
    Plan → Plan → Prop
  | done {found found' : Inferred} (h : K.Found found found') : Linked Known K (.done found) (.done found')
  | container (kind : Container) {inner inner' : Call} (h : inner.Linked free Known inner') :
    Linked Known K (.container kind inner) (.container kind inner')
  | object {o o' : ObjectPlan} (h : o.Linked free Known o') : Linked Known K (.object o) (.object o')

section
variable {K : Correspondence free s.types s'.types} {ms ns : Members}

theorem found_void (K : Correspondence free s.types s'.types) : K.Found (void s) (void s') :=
  ⟨K.type_void, rfl, .nil⟩

theorem found_placeholder (K : Correspondence free s.types s'.types) (name : String) :
    K.Found ⟨⟨name, none⟩, []⟩ ⟨⟨name, none⟩, []⟩ :=
  ⟨K.type_refl name, rfl, .nil⟩

/-- The names of primitive types in the format of a schema correspond. -/
def Correspondence.NamesIn (K : Correspondence free s.types s'.types) (format : Json) : Prop :=
  ∀ type, Both K.type (s.types.primitive type format) (s'.types.primitive type format)

theorem both_ofEnumeration (h : LinkedMembers free Known .specification ms ns) (name : String)
    (hnames : K.NamesIn (Members.get ms "format")) :
    Both K.Found (ofEnumeration s ms name) (ofEnumeration s' ns name) := by
  unfold ofEnumeration
  rw [← h.get_exact (k := "type") rfl, ← h.get_exact (k := "format") rfl, ← h.get_exact (k := "enum") rfl]
  refine Both.bind_same fun type _ => ?_
  refine (hnames _).bind fun enumType enumType' _ _ henumType => ?_
  refine Both.bind_same fun entries _ => ?_
  refine Both.bind_same fun cases _ => ?_
  refine .ok ⟨K.type_refl _, rfl, .cons ?_ .nil⟩
  exact K.model_enumeration name cases henumType (h.get "description").alike

theorem both_ofPrimitive (h : LinkedMembers free Known .specification ms ns)
    (hnames : K.NamesIn (Members.get ms "format")) :
    Both K.Found (ofPrimitive s ms) (ofPrimitive s' ns) := by
  unfold ofPrimitive
  rw [← h.get_exact (k := "type") rfl, ← h.get_exact (k := "format") rfl]
  refine Both.bind_same fun type _ => ?_
  refine ((hnames _).mapError _ _).bind fun name name' _ _ hname => ?_
  refine Both.bind_same fun format _ => ?_
  exact .ok ⟨hname, rfl, .nil⟩

theorem both_requiredNames (h : LinkedMembers free Known .specification ms ns) :
    Both Eq (requiredNames ms) (requiredNames ns) := by
  unfold requiredNames
  rw [h.get_exact (k := "required") rfl]
  exact .refl (fun _ => rfl) _

theorem both_planOfKind (h : LinkedMembers free Known .specification ms ns)
    (hnames : K.NamesIn (Members.get ms "format")) (trail : Trail) (name : String) (specName : Key)
    {branch branch' : Option Json}
    (hbranch : Option.Rel (Linked free Known .specification) branch branch') (kind : Schema.Kind) :
    Both (Plan.Linked Known K) (planOfKind s trail name specName branch ms kind)
      (planOfKind s' trail name specName branch' ns kind) := by
  cases kind with
  | enumeration => exact (both_ofEnumeration h name hnames).map fun _ _ => .done
  | array =>
    have hitems := h.get "items"
    simp only [planOfKind]
    split
    · rename_i items heq
      rw [heq] at hitems
      obtain ⟨items', heq', -⟩ := alike_obj.1 hitems.alike
      rw [heq'] at hitems ⊢
      exact .ok (.container .array ⟨rfl, rfl, hitems⟩)
    · rename_i hother
      have hother' := mt hitems.alike.exists_members_iff.2 (not_exists.2 hother)
      split
      · exact absurd ⟨_, ‹_›⟩ hother'
      · exact .error _ _
  | object =>
    refine (both_requiredNames h).bind fun required required' _ _ hrequired => ?_
    refine (both_propertySchemas h).bind fun properties properties' _ _ hproperties => ?_
    exact .ok (.object ⟨rfl, rfl, rfl, h, hrequired, hproperties, hbranch⟩)
  | map =>
    have hvalue := h.get "additionalProperties"
    simp only [planOfKind]
    generalize Members.get ms "additionalProperties" = v,
      Members.get ns "additionalProperties" = w at hvalue
    cases v with
    | obj vs =>
      obtain ⟨ws, rfl, hmembers⟩ := alike_obj.1 hvalue.alike
      cases hmembers with
      | nil => exact .ok (.done ⟨K.type_mapOf_none, rfl, .nil⟩)
      | cons => exact .ok (.container .map ⟨rfl, rfl, hvalue⟩)
    | _ => cases w <;> first | exact .ok (.done ⟨K.type_mapOf_none, rfl, .nil⟩) | exact hvalue.alike.elim
  | void => exact .ok (.done (found_void K))
  | primitive => exact (both_ofPrimitive h hnames).map fun _ _ => .done

theorem both_planNamed (hagree : Agreement free Known s.document s'.document) {v w : Json}
    (h : Linked free Known .specification v w)
    (hnames : ∀ branch resolved, settle s.document v = .ok (branch, resolved) →
      K.NamesIn (Members.get resolved "format"))
    (trail : Trail) (name : String) (specName : Key) :
    Both (Plan.Linked Known K) (planNamed s trail name specName v)
      (planNamed s' trail name specName w) := by
  refine (both_settle hagree h).bind fun found found' hsettle _ hfound => ?_
  obtain ⟨branch, resolved⟩ := found
  obtain ⟨branch', resolved'⟩ := found'
  obtain ⟨hbranch, hresolved⟩ := hfound
  refine (both_kind hresolved).bind fun kind kind' _ _ hkind => ?_
  cases hkind
  exact both_planOfKind hresolved (hnames branch resolved hsettle) trail name specName hbranch kind

/-- Linked calls have linked plans. -/
theorem both_plan (hagree : Agreement free Known s.document s'.document) {c c' : Call}
    (h : c.Linked free Known c')
    (hnames : ∀ branch resolved, settle s.document c.schema = .ok (branch, resolved) →
      K.NamesIn (Members.get resolved "format")) :
    Both (Plan.Linked Known K) (plan s c) (plan s' c') := by
  obtain ⟨trail, name, v⟩ := c
  obtain ⟨trail', name', w⟩ := c'
  obtain ⟨rfl, rfl, hschema⟩ := h
  have htruthy := hschema.alike.truthy
  have hother : Both (Plan.Linked Known K)
      (if v.truthy then .error (Failure.unsupported .notAnObject v) else .ok (.done (void s)))
      (if w.truthy then .error (Failure.unsupported .notAnObject w) else .ok (.done (void s'))) := by
    rw [htruthy]
    split
    · exact .error _ _
    · exact .ok (.done (found_void K))
  cases v with
  | obj ms =>
    obtain ⟨ns, rfl, hmembers⟩ := alike_obj.1 hschema.alike
    cases hmembers with
    | nil => exact .ok (.done (found_void K))
    | @cons m n ms ns =>
      have href := LinkedMembers.get_exact (k := "$ref") hschema rfl
      simp only [plan, ← href]
      split
      · refine Both.bind_same fun ref _ => ?_
        split
        · exact .ok (.done (found_placeholder K _))
        · exact both_planNamed hagree hschema hnames _ _ _
      · exact both_planNamed hagree hschema hnames _ _ _
  | _ => cases w <;> first | exact hother | exact hschema.alike.elim

/-! ## Carrying out linked plans -/

/-- Two contributions of one property. -/
structure SamePart (K : Correspondence free s.types s'.types) (a b : Contribution) : Prop where
  field : SameField free K.type a.property b.property
  nested : List.Forall₂ K.model a.nested b.nested
  beside : List.Forall₂ K.model a.beside b.beside

theorem samePart_contribution {o o' : ObjectPlan} (ho : o.Linked free Known o') {m n : Key × Json}
    (hkey : m.1 = n.1) (hschema : Linked free Known .specification m.2 n.2) (spoken : String)
    {found found' : Inferred} (hfound : K.Found found found') :
    SamePart K (o.contribution m spoken found) (o'.contribution n spoken found') := by
  have hinline := isInlineObject_of_linked hschema
  refine ⟨⟨rfl, congrArg some hkey, .some ?_, hfound.format, ?_, alike_description hschema⟩, ?_, ?_⟩
  · rw [← hinline, ← ho.name]
    split
    · exact K.type_within _ hfound.type
    · exact hfound.type
  · simp only [ObjectPlan.contribution, hkey, ho.required]
  · simp only [ObjectPlan.contribution, ← hinline]
    split
    · exact List.forall₂_take 1 hfound.models
    · exact .nil
  · simp only [ObjectPlan.contribution, ← hinline]
    split
    · exact List.forall₂_drop 1 hfound.models
    · exact hfound.models

theorem found_assembled {o o' : ObjectPlan} (ho : o.Linked free Known o')
    {parts parts' : List Contribution} (hparts : List.Forall₂ (SamePart K) parts parts')
    {base base' : Base} (hsuperclass : base.name = base'.name)
    (hinherited : base.inherited = handedDown base.models)
    (hinherited' : base'.inherited = handedDown base'.models)
    (hbases : List.Forall₂ K.model base.models base'.models) :
    K.Found (o.assembled parts base) (o'.assembled parts' base') := by
  have hclass : SameClass free K.type K.model o o' parts parts' base base' :=
    { name := ho.name
      specName := ho.specName
      discriminator := discriminator_of_linked ho.schema
      description := (ho.schema.get "description").alike
      fields := List.rel_map (fun _ _ h => h.field) hparts
      nested := List.rel_flatMap hparts fun _ _ h => h.nested
      superclass := hsuperclass
      inherited := hinherited
      inherited' := hinherited'
      bases := hbases }
  refine ⟨?_, rfl, .cons (K.model_object hclass) ?_⟩
  · simp only [ObjectPlan.assembled, ho.name]
    exact K.type_refl _
  · exact List.rel_append (List.rel_flatMap hparts fun _ _ h => h.beside) hbases

/-- Two ways of inferring nested calls that give corresponding results for linked ones. -/
def RecurBoth (Known : String → Prop) (K : Correspondence free s.types s'.types) (P : Json → Prop)
    (recur recur' : Recur) : Prop :=
  ∀ c c' : Call, c.Linked free Known c' → P c.schema → Both K.Found (recur.at c) (recur'.at c')

section
variable {P : Json → Prop} {recur recur' : Recur} {o o' : ObjectPlan}

theorem both_ofProperty (hrecur : RecurBoth Known K P recur recur') (ho : o.Linked free Known o')
    {m n : Key × Json} (hkey : m.1 = n.1) (hschema : Linked free Known .specification m.2 n.2)
    (hm : P m.2) :
    Both (SamePart K) (ofProperty recur o.trail.visiting o.name o.required m)
      (ofProperty recur' o'.trail.visiting o'.name o'.required n) := by
  rw [ObjectPlan.ofProperty_eq, ObjectPlan.ofProperty_eq, ← hkey]
  refine Both.bind_same fun spoken _ => ?_
  have hcall : (o.propertyCall spoken m.2).Linked free Known (o'.propertyCall spoken n.2) := by
    refine ⟨?_, ?_, hschema⟩
    · simp only [ObjectPlan.propertyCall, ho.trail]
    · simp only [ObjectPlan.propertyCall, ho.name, isInlineObject_of_linked hschema]
  refine (hrecur _ _ hcall hm).bind fun found found' _ _ hfound => ?_
  exact .ok (samePart_contribution ho hkey hschema spoken hfound)

theorem both_ofBase (hrecur : RecurBoth Known K P recur recur') (ho : o.Linked free Known o')
    (hbranch : ∀ branch, o.branch = some branch → P branch) :
    Both (fun base base' => base.name = base'.name ∧ base.inherited = handedDown base.models ∧
        base'.inherited = handedDown base'.models ∧ List.Forall₂ K.model base.models base'.models)
      (ofBase recur o.trail o.name o.branch) (ofBase recur' o'.trail o'.name o'.branch) := by
  have hbranches := ho.branch
  generalize o.branch = b, o'.branch = b' at hbranch hbranches
  cases hbranches with
  | none => exact .ok ⟨rfl, rfl, rfl, .nil⟩
  | @some branch branch' hschema =>
    rw [ObjectPlan.ofBase_some, ObjectPlan.ofBase_some, ← baseRef_of_linked (.some hschema)]
    refine Both.bind_same fun ref _ => ?_
    have hcircular : o.IsCircular (Name.ofReference ref) ↔ o'.IsCircular (Name.ofReference ref) := by
      simp only [ObjectPlan.IsCircular, ho.name, ho.trail]
    by_cases hcircle : o.IsCircular (Name.ofReference ref)
    · rw [if_pos hcircle, if_pos (hcircular.1 hcircle)]
      exact .error _ _
    · rw [if_neg hcircle, if_neg (mt hcircular.2 hcircle)]
      have hcall : (o.baseCall ref branch).Linked free Known (o'.baseCall ref branch') := by
        refine ⟨?_, rfl, hschema⟩
        simp only [ObjectPlan.baseCall, ho.trail, ho.name]
      refine (hrecur _ _ hcall (hbranch branch rfl)).bind fun found found' _ _ hfound => ?_
      exact .ok ⟨rfl, rfl, rfl, hfound.models⟩

/-- Linked plans are carried out with corresponding results. -/
theorem both_run (hrecur : RecurBoth Known K P recur recur') {p p' : Plan} (h : p.Linked Known K p')
    (hinner : ∀ kind inner, p = .container kind inner → P inner.schema)
    (hproperty : ∀ o, p = .object o → ∀ m ∈ o.properties, P m.2)
    (hbase : ∀ o branch, p = .object o → o.branch = some branch → P branch) :
    Both K.Found (p.run s recur) (p'.run s' recur') := by
  cases h with
  | done h => exact .ok h
  | container kind h =>
    refine (hrecur _ _ h (hinner _ _ rfl)).bind fun found found' _ _ hfound => ?_
    cases kind with
    | array => exact .ok ⟨K.type_arrayOf hfound.type, hfound.format, hfound.models⟩
    | map => exact .ok ⟨K.type_mapOf hfound.type, rfl, hfound.models⟩
  | @object o o' ho =>
    have hproperties :=
      (List.forall₂_and_left _ _).2 ⟨hproperty o rfl, ho.properties.specifications⟩
    have hparts : List.Forall₂ (fun m n => Both (SamePart K)
        (ofProperty recur o.trail.visiting o.name o.required m)
        (ofProperty recur' o'.trail.visiting o'.name o'.required n)) o.properties o'.properties :=
      hproperties.imp fun m n hmn =>
        both_ofProperty hrecur ho hmn.2.1 hmn.2.2 hmn.1
    refine (both_mapM hparts).bind fun parts parts' _ _ hparts => ?_
    refine (both_ofBase hrecur ho fun branch => hbase o branch rfl).bind fun base base' _ _ hbase => ?_
    obtain ⟨hsuperclass, hinherited, hinherited', hbases⟩ := hbase
    exact .ok (found_assembled ho hparts hsuperclass hinherited hinherited' hbases)

end

/-! ## Two runs -/

/-- What a schema has to be like for the primitive types in it to be named correspondingly, and
the schemas that it leads to have to be like. -/
structure Correspondence.Names (K : Correspondence free s.types s'.types) (P : Json → Prop) : Prop where
  step : ∀ {v w}, P v → LeadsTo s.document v w → P w
  names : ∀ {v branch resolved}, P v → settle s.document v = .ok (branch, resolved) →
    K.NamesIn (Members.get resolved "format")

/-- Linked calls give corresponding results, or both fail. -/
theorem Correspondence.inferWith (K : Correspondence free s.types s'.types) {P : Json → Prop}
    (hnames : K.Names P) (hagree : Agreement free Known s.document s'.document) (fuel : Nat) :
    RecurBoth Known K P (Inference.inferWith s fuel) (Inference.inferWith s' fuel) := by
  induction fuel with
  | zero => exact fun _ _ _ _ => .error _ _
  | succ fuel ih =>
    intro c c' h hc
    rw [inferWith_succ, inferWith_succ]
    refine (both_plan hagree h fun _ _ hsettle => hnames.names hc hsettle).bind
      fun p p' hplan _ hp => ?_
    refine both_run ih hp ?_ ?_ ?_
    · rintro kind inner rfl
      exact hnames.step hc (Nested.inner hplan).leadsTo
    · rintro o rfl m hm
      have ho := plan_object hplan
      exact hnames.step hc (.property ho.settled ho.kind ho.properties hm)
    · rintro o branch rfl hbranch
      have ho := plan_object hplan
      exact hnames.step hc (.base (hbranch ▸ ho.settled) ho.kind)

end

end Inference

end ClientForge
