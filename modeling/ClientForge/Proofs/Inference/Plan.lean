-- SUMMARY: What inferring a schema does once the schema is resolved: the calls it makes and what becomes of their results.
import ClientForge.Inference
import ClientForge.Proofs.Schema.Resolution

/-!
# Plans

Inferring a schema splits into a plan, which needs no other inference, and carrying
the plan out, which does nothing else than to make further calls and to put their
results together (`ofSchema_eq`). A plan is done already, or it is an array or a map
around one inner call, or an object with a call for each property and perhaps one for
its base class. `kindFound` is the kind that decides between them.
-/

namespace ClientForge

namespace Inference

open Outcome

/-! ## Calls and plans -/

/-- A schema to infer, the way that led to it, and its name if it has no reference. -/
structure Call where
  trail : Trail
  name : String
  schema : Json

/-- The inference of a call. -/
def Recur.at (recur : Recur) (c : Call) : Except Failure Inferred :=
  recur c.trail c.name c.schema

inductive Container
  | array
  | map
deriving DecidableEq, Repr

/-- A container of what has been inferred. -/
def Container.around (s : Setting) : Container → Inferred → Inferred
  | .array, inner => ⟨⟨s.types.arrayOf inner.type.name, inner.type.format⟩, inner.models⟩
  | .map, inner => ⟨⟨s.types.mapOf (some inner.type.name), none⟩, inner.models⟩

/-- An object before its properties and its base class are inferred. -/
structure ObjectPlan where
  trail : Trail
  name : String
  specName : Key
  schema : Members
  required : List Json
  properties : Members
  branch : Option Json

inductive Plan
  | done (found : Inferred)
  | container (kind : Container) (inner : Call)
  | object (o : ObjectPlan)

namespace ObjectPlan

/-- The call for a property, given the text of its key. -/
def propertyCall (o : ObjectPlan) (spoken : String) (schema : Json) : Call where
  trail := ⟨o.trail.visiting, []⟩
  name := propertyModelName o.name spoken (isInlineObject schema)
  schema := schema

/-- The call for the base class that a branch with some reference names. -/
def baseCall (o : ObjectPlan) (ref : String) (branch : Json) : Call where
  trail := ⟨o.trail.visiting.filter (· != Name.ofReference ref), o.trail.lineage ++ [o.name]⟩
  name := ""
  schema := branch

/-- A base class that is the object itself or one that asked for it. -/
def IsCircular (o : ObjectPlan) (superclass : String) : Prop :=
  superclass = o.name ∨ superclass ∈ o.trail.lineage

instance (o : ObjectPlan) (superclass : String) : Decidable (o.IsCircular superclass) :=
  inferInstanceAs (Decidable (_ ∨ _))

/-- The class that the properties and the base class make up. -/
def head (o : ObjectPlan) (parts : List Contribution) (base : Base) : ClassHead where
  name := some o.name
  specName := some o.specName
  superclass := base.name
  discriminator := discriminator o.schema
  properties := ownProperties (parts.map (·.property)) base.inherited
  inherited := base.inherited
  initializer := ownProperties (parts.map (·.property)) base.inherited ++ base.inherited
  subclasses := []
  description := Members.get o.schema "description"

/-- The class, the models beside it and those of its base class. -/
def assembled (o : ObjectPlan) (parts : List Contribution) (base : Base) : Inferred :=
  ⟨⟨o.name, none⟩, .object (o.head parts base) (parts.flatMap (·.nested)) ::
    parts.flatMap (·.beside) ++ base.models⟩

/-- What a property contributes, given the text of its key and what was inferred for it. -/
def contribution (o : ObjectPlan) (m : Key × Json) (spoken : String) (found : Inferred) :
    Contribution where
  property := {
    name := some (Name.ofMember [spoken])
    specName := some m.1
    type := some (if isInlineObject m.2 then String.join [o.name, ".", found.type.name]
      else found.type.name)
    format := found.type.format
    isRequired := m.1.toJson.isAmong o.required
    description := Inference.description m.2 }
  nested := if isInlineObject m.2 then found.models.take 1 else []
  beside := if isInlineObject m.2 then found.models.drop 1 else found.models

/-- The base class of some name, given what was inferred for it. -/
def inheriting (superclass : String) (found : Inferred) : Base :=
  ⟨some superclass, handedDown found.models, found.models⟩

def run (o : ObjectPlan) (recur : Recur) : Except Failure Inferred := do
  let parts ← o.properties.mapM (ofProperty recur o.trail.visiting o.name o.required)
  let base ← ofBase recur o.trail o.name o.branch
  return o.assembled parts base

end ObjectPlan

def Plan.run (s : Setting) (recur : Recur) : Plan → Except Failure Inferred
  | .done found => .ok found
  | .container kind inner => do return kind.around s (← recur.at inner)
  | .object o => o.run recur

/-! ## Planning -/

/-- A schema resolved but for its base class, and the branch that names the base class. -/
def settle (document : Members) (schema : Json) : Except Failure (Option Json × Members) := do
  let branch ← baseSchema? (← Schema.followRefs document schema .null)
  return (branch, ← Schema.flatten document schema (baseRef branch))

/-- The kind that a schema is found to have: that of the schema without its base class. -/
def kindFound (document : Members) (schema : Json) : Except Failure Schema.Kind := do
  Schema.kind (← settle document schema).2

/-- The plan for a resolved schema of a known kind. -/
def planOfKind (s : Setting) (trail : Trail) (name : String) (specName : Key)
    (branch : Option Json) (resolved : Members) : Schema.Kind → Except Failure Plan
  | .enumeration => .done <$> ofEnumeration s resolved name
  | .array =>
    match Members.get resolved "items" with
    | .obj items => .ok (.container .array ⟨⟨trail.visiting, []⟩, name, .obj items⟩)
    | _ => .error (.unsupported .arrayWithoutItems (.obj resolved))
  | .object => do
    let required ← requiredNames resolved
    let properties ← propertySchemas resolved
    return .object ⟨trail, name, specName, resolved, required, properties, branch⟩
  | .map =>
    match Members.get resolved "additionalProperties" with
    | .obj (m :: ms) =>
      .ok (.container .map ⟨⟨trail.visiting, []⟩, Name.ofClass [name, "value"], .obj (m :: ms)⟩)
    | _ => .ok (.done ⟨⟨s.types.mapOf none, none⟩, []⟩)
  | .void => .ok (.done (void s))
  | .primitive => .done <$> ofPrimitive s resolved

def planNamed (s : Setting) (trail : Trail) (name : String) (specName : Key) (schema : Json) :
    Except Failure Plan := do
  let (branch, resolved) ← settle s.document schema
  planOfKind s trail name specName branch resolved (← Schema.kind resolved)

/-- The plan for a call. A reference to a class under construction is done with its name. -/
def plan (s : Setting) (c : Call) : Except Failure Plan := do
  match c.schema with
  | .obj [] => return .done (void s)
  | .obj (m :: ms) =>
    let ref := Members.get (m :: ms) "$ref"
    if ref.truthy then
      let ref ← ref.text
      let name := Name.ofReference ref
      if name ∈ c.trail.visiting then return .done ⟨⟨name, none⟩, []⟩
      else
        planNamed s { c.trail with visiting := name :: c.trail.visiting } name
          (.text (Name.lastComponent ref)) c.schema
    else planNamed s c.trail c.name (.text c.name) c.schema
  | v => if v.truthy then .error (.unsupported .notAnObject v) else return .done (void s)

/-! ## Carrying out a plan -/

section
variable {s : Setting} {recur : Recur}

theorem planOfKind_run (trail : Trail) (name : String) (specName : Key) (branch : Option Json)
    (resolved : Members) (kind : Schema.Kind) :
    (planOfKind s trail name specName branch resolved kind >>= Plan.run s recur) =
      match kind with
      | .enumeration => ofEnumeration s resolved name
      | .array => ofArray s recur trail.visiting resolved name
      | .object => ofObject recur trail resolved name specName branch
      | .map => ofMap s recur trail.visiting resolved name
      | .void => return void s
      | .primitive => ofPrimitive s resolved := by
  cases kind with
  | enumeration => cases h : ofEnumeration s resolved name <;> simp [planOfKind, h, Plan.run]
  | array =>
    cases h : Members.get resolved "items" <;> simp only [ofArray, planOfKind, h] <;> rfl
  | object =>
    simp only [ofObject, planOfKind, bind_assoc, pure_bind]
    rfl
  | map =>
    cases h : Members.get resolved "additionalProperties" with
    | obj ms => cases ms <;> simp only [ofMap, planOfKind, h] <;> rfl
    | _ => simp only [ofMap, planOfKind, h]; rfl
  | void => rfl
  | primitive => cases h : ofPrimitive s resolved <;> simp [planOfKind, h, Plan.run]

theorem planNamed_run (trail : Trail) (name : String) (specName : Key) (schema : Json) :
    (planNamed s trail name specName schema >>= Plan.run s recur) =
      ofNamed s recur trail name specName schema := by
  unfold ofNamed planNamed settle
  cases Schema.followRefs s.document schema .null with
  | error e => rfl
  | ok followed =>
    rw [ok_bind, ok_bind]
    cases baseSchema? followed with
    | error e => rfl
    | ok branch =>
      rw [ok_bind, ok_bind]
      cases Schema.flatten s.document schema (baseRef branch) with
      | error e => rfl
      | ok resolved =>
        change (Schema.kind resolved >>= fun kind =>
            planOfKind s trail name specName branch resolved kind) >>= Plan.run s recur = _
        rw [bind_assoc, ok_bind]
        apply bind_congr
        intro kind
        exact planOfKind_run trail name specName branch resolved kind

/-- Inferring a schema is planning and carrying the plan out. -/
theorem ofSchema_eq (c : Call) :
    ofSchema s recur c.trail c.name c.schema = (plan s c >>= Plan.run s recur) := by
  obtain ⟨trail, name, schema⟩ := c
  cases schema with
  | obj ms =>
    cases ms with
    | nil => rfl
    | cons m ms =>
      simp only [ofSchema, plan]
      split
      · rw [bind_assoc]
        refine congrArg _ (funext fun ref => ?_)
        split
        · rfl
        · exact (planNamed_run _ _ _ _).symm
      · exact (planNamed_run _ _ _ _).symm
  | _ =>
    simp only [ofSchema, plan]
    split <;> rfl

theorem inferWith_succ (fuel : Nat) (c : Call) :
    (inferWith s (fuel + 1)).at c = (plan s c >>= Plan.run s (inferWith s fuel)) :=
  ofSchema_eq c

end

/-! ## Properties and base classes -/

namespace ObjectPlan

variable {s : Setting} {recur : Recur} {o : ObjectPlan}

theorem ofProperty_eq (m : Key × Json) :
    ofProperty recur o.trail.visiting o.name o.required m = (do
      let spoken ← m.1.toJson.shown
      let found ← recur.at (o.propertyCall spoken m.2)
      return o.contribution m spoken found) := rfl

theorem ofBase_none : ofBase recur o.trail o.name none = .ok Base.none := rfl

theorem ofBase_some (branch : Json) :
    ofBase recur o.trail o.name (some branch) = (do
      let ref ← (baseRef (some branch)).text
      if o.IsCircular (Name.ofReference ref) then
        .error (.unsupported (.circularInheritance o.name (Name.ofReference ref)) branch)
      else
        let found ← recur.at (o.baseCall ref branch)
        return inheriting (Name.ofReference ref) found) := rfl

theorem ofProperty_eq_ok {m : Key × Json} {part : Contribution} :
    ofProperty recur o.trail.visiting o.name o.required m = .ok part ↔
      ∃ spoken, m.1.toJson.shown = .ok spoken ∧ ∃ found,
        recur.at (o.propertyCall spoken m.2) = .ok found ∧ o.contribution m spoken found = part := by
  simp only [ofProperty_eq, bind_eq_ok, pure_eq, Except.ok.injEq]

theorem ofBase_eq_ok {branch : Option Json} {base : Base} :
    ofBase recur o.trail o.name branch = .ok base ↔
      (branch = none ∧ base = Base.none) ∨ ∃ b ref found, branch = some b ∧
        (baseRef (some b)).text = .ok ref ∧ ¬ o.IsCircular (Name.ofReference ref) ∧
        recur.at (o.baseCall ref b) = .ok found ∧ inheriting (Name.ofReference ref) found = base := by
  cases branch with
  | none => simp [ofBase_none, eq_comm]
  | some b =>
    rw [ofBase_some, bind_eq_ok]
    constructor
    · rintro ⟨ref, href, h⟩
      split at h
      · cases h
      · rename_i hcircular
        obtain ⟨found, hfound, h⟩ := bind_eq_ok.1 h
        exact .inr ⟨b, ref, found, rfl, href, hcircular, hfound, Except.ok.inj h⟩
    · rintro (⟨h, -⟩ | ⟨b', ref, found, hb, href, hcircular, hfound, rfl⟩)
      · cases h
      · cases hb
        exact ⟨ref, href, by rw [if_neg hcircular, hfound]; rfl⟩

theorem run_eq_ok {r : Inferred} :
    o.run recur = .ok r ↔ ∃ parts base,
      List.Forall₂ (fun m part => ofProperty recur o.trail.visiting o.name o.required m = .ok part)
        o.properties parts ∧
      ofBase recur o.trail o.name o.branch = .ok base ∧ o.assembled parts base = r := by
  simp only [run, bind_eq_ok, mapM_eq_ok, pure_eq, Except.ok.injEq]
  constructor
  · rintro ⟨parts, hparts, base, hbase, h⟩
    exact ⟨parts, base, hparts, hbase, h⟩
  · rintro ⟨parts, base, hparts, hbase, h⟩
    exact ⟨parts, hparts, base, hbase, h⟩

end ObjectPlan

/-! ## What a plan says about its call -/

namespace Call

/-- The reference that a call follows. -/
def ref? (c : Call) : Option String :=
  match c.schema with
  | .obj ms =>
    match Members.get ms "$ref" with
    | .str ref => if ref = "" then none else some ref
    | _ => none
  | _ => none

/-- The class that a call builds because its schema is a reference. -/
def className? (c : Call) : Option String := c.ref?.map Name.ofReference

/-- The name that a call gives to what it builds. -/
def ownName (c : Call) : String := c.className?.getD c.name

/-- What is written in the document as the name of what a call builds. -/
def specName (c : Call) : Key :=
  match c.ref? with
  | some ref => .text (Name.lastComponent ref)
  | none => .text c.name

/-- The chain of subclasses with the one that a call builds. -/
def line (c : Call) : List String := c.trail.lineage ++ [c.ownName]

/-- The classes under construction once a call has begun. -/
def visited (c : Call) : List String := c.className?.toList ++ c.trail.visiting

/-- A reference to a class under construction. -/
def IsPlaceholder (c : Call) (name : String) : Prop :=
  c.className? = some name ∧ name ∈ c.trail.visiting

end Call

/-- What a plan beyond a void type or a placeholder comes from. -/
structure Settles (s : Setting) (c : Call) (p : Plan) : Prop where
  intro ::
  fresh : ∀ name, ¬ c.IsPlaceholder name
  exists_kind : ∃ branch resolved kind, settle s.document c.schema = .ok (branch, resolved) ∧
    Schema.kind resolved = .ok kind ∧
    planOfKind s ⟨c.visited, c.trail.lineage⟩ c.ownName c.specName branch resolved kind = .ok p

section
variable {s : Setting} {c : Call} {trail : Trail} {name : String} {m : Key × Json} {ms : Members}
  {ref : String} {p : Plan}

theorem ref?_eq_some_iff : c.ref? = some ref ↔
    ∃ ms, c.schema = .obj ms ∧ Members.get? ms "$ref" = some (.str ref) ∧ ref ≠ "" := by
  obtain ⟨trail, name, schema⟩ := c
  unfold Call.ref? Members.get
  cases schema with
  | obj ms =>
    cases hget : Members.get? ms "$ref" with
    | none => simp [hget]
    | some v =>
      cases v with
      | str written =>
        by_cases hempty : written = ""
        · simp [hget, hempty, eq_comm]
        · simp only [hget, Option.getD_some, hempty, if_false, Option.some.injEq]
          constructor
          · rintro rfl
            exact ⟨ms, rfl, hget, hempty⟩
          · rintro ⟨_, hms, hget', -⟩
            cases hms
            cases hget.symm.trans hget'
            rfl
      | _ => simp [hget]
  | _ => simp

theorem className?_of_ref? (h : c.ref? = some ref) :
    c.className? = some (Name.ofReference ref) := by
  rw [Call.className?, h]
  rfl

theorem ref?_of_ref (trail : Trail) (name : String)
    (hget : Members.get (m :: ms) "$ref" = .str ref) (hne : ref ≠ "") :
    (⟨trail, name, .obj (m :: ms)⟩ : Call).ref? = some ref := by
  simp [Call.ref?, hget, hne]

theorem ref?_of_not_truthy (trail : Trail) (name : String)
    (h : ¬ (Members.get (m :: ms) "$ref").truthy = true) :
    (⟨trail, name, .obj (m :: ms)⟩ : Call).ref? = none := by
  unfold Call.ref?
  cases hget : Members.get (m :: ms) "$ref" <;> simp_all [Json.truthy]

theorem plan_of_ref (hget : Members.get (m :: ms) "$ref" = .str ref) (hne : ref ≠ "") :
    plan s ⟨trail, name, .obj (m :: ms)⟩ =
      if Name.ofReference ref ∈ trail.visiting then .ok (.done ⟨⟨Name.ofReference ref, none⟩, []⟩)
      else planNamed s { trail with visiting := Name.ofReference ref :: trail.visiting }
        (Name.ofReference ref) (.text (Name.lastComponent ref)) (.obj (m :: ms)) := by
  have htruthy : (Json.str ref).truthy = true := by simpa [Json.truthy] using hne
  simp only [plan, hget, htruthy, if_true]
  rfl

theorem plan_of_not_truthy (h : ¬ (Members.get (m :: ms) "$ref").truthy = true) :
    plan s ⟨trail, name, .obj (m :: ms)⟩ =
      planNamed s trail name (.text name) (.obj (m :: ms)) := by
  simp only [plan, if_neg h]

/-- A reference to a class under construction is done with its name. -/
theorem plan_of_placeholder (h : c.IsPlaceholder name) :
    plan s c = .ok (.done ⟨⟨name, none⟩, []⟩) := by
  obtain ⟨trail, _, schema⟩ := c
  obtain ⟨hclass, hmem⟩ := h
  obtain ⟨ref, href, rfl⟩ := Option.map_eq_some_iff.1 hclass
  cases schema with
  | obj ms =>
    cases ms with
    | nil => simp [Call.ref?, Members.get, Members.get?] at href
    | cons m ms =>
      by_cases htruthy : (Members.get (m :: ms) "$ref").truthy = true
      · cases hget : Members.get (m :: ms) "$ref" with
        | str written =>
          have hne : written ≠ "" := by simpa [hget, Json.truthy] using htruthy
          rw [ref?_of_ref trail _ hget hne] at href
          cases href
          rw [plan_of_ref hget hne, if_pos hmem]
        | _ => simp [Call.ref?, hget] at href
      · rw [ref?_of_not_truthy trail _ htruthy] at href
        cases href
  | _ => cases href

/-- Any other schema with members is planned by its kind. -/
theorem plan_of_fresh (hschema : c.schema = .obj (m :: ms)) (hfresh : ∀ name, ¬ c.IsPlaceholder name)
    (href : (Members.get (m :: ms) "$ref").truthy = true →
      ∃ ref, Members.get (m :: ms) "$ref" = .str ref) :
    plan s c = planNamed s ⟨c.visited, c.trail.lineage⟩ c.ownName c.specName c.schema := by
  obtain ⟨trail, name, schema⟩ := c
  cases hschema
  by_cases htruthy : (Members.get (m :: ms) "$ref").truthy = true
  · obtain ⟨ref, hget⟩ := href htruthy
    have hne : ref ≠ "" := by simpa [hget, Json.truthy] using htruthy
    have href := ref?_of_ref trail name hget hne
    rw [plan_of_ref hget hne, if_neg fun hmem => hfresh _ ⟨className?_of_ref? href, hmem⟩]
    unfold Call.visited Call.ownName Call.specName Call.className?
    rw [href]
    rfl
  · have href := ref?_of_not_truthy trail name htruthy
    rw [plan_of_not_truthy htruthy]
    unfold Call.visited Call.ownName Call.specName Call.className?
    rw [href]
    rfl

theorem exists_ref_of_plan (htruthy : (Members.get (m :: ms) "$ref").truthy = true)
    (h : plan s ⟨trail, name, .obj (m :: ms)⟩ = .ok p) :
    ∃ ref, Members.get (m :: ms) "$ref" = .str ref := by
  simp only [plan, if_pos htruthy] at h
  obtain ⟨ref, href, -⟩ := bind_eq_ok.1 h
  cases hget : Members.get (m :: ms) "$ref" with
  | str r => exact ⟨r, rfl⟩
  | _ => simp [hget, Json.text] at href

theorem plan_eq_ok (h : plan s c = .ok p) :
    (c.schema.truthy = false ∧ p = .done (void s)) ∨
      (∃ name, c.IsPlaceholder name ∧ p = .done ⟨⟨name, none⟩, []⟩) ∨ Settles s c p := by
  by_cases hplaceholder : ∃ name, c.IsPlaceholder name
  · obtain ⟨name, hname⟩ := hplaceholder
    rw [plan_of_placeholder hname] at h
    exact .inr (.inl ⟨name, hname, (Except.ok.inj h).symm⟩)
  have hfresh := not_exists.1 hplaceholder
  obtain ⟨trail, name, schema⟩ := c
  cases schema with
  | obj ms =>
    cases ms with
    | nil => exact .inl ⟨rfl, (Except.ok.inj h).symm⟩
    | cons m ms =>
      rw [plan_of_fresh rfl hfresh fun htruthy => exists_ref_of_plan htruthy h] at h
      obtain ⟨⟨branch, resolved⟩, hsettle, h⟩ := bind_eq_ok.1 h
      obtain ⟨kind, hkind, h⟩ := bind_eq_ok.1 h
      exact .inr (.inr ⟨hfresh, branch, resolved, kind, hsettle, hkind, h⟩)
  | _ =>
    unfold plan at h
    dsimp only at h
    split at h
    · cases h
    · rename_i hfalse
      exact .inl ⟨Bool.eq_false_iff.2 hfalse, (Except.ok.inj h).symm⟩

/-- A call for a base branch follows the reference of the branch. -/
theorem ref?_of_baseRef (h : (baseRef (some c.schema)).text = .ok ref) :
    c.ref? = if ref = "" then none else some ref := by
  obtain ⟨trail, name, schema⟩ := c
  unfold baseRef at h
  unfold Call.ref?
  cases schema with
  | obj ms =>
    dsimp only at h ⊢
    cases hget : Members.get ms "$ref" <;> rw [hget] at h <;> cases h
    rfl
  | _ => cases h

/-- The base class itself is not under construction when it is inferred. -/
theorem ObjectPlan.baseCall_fresh (o : ObjectPlan) {branch : Json}
    (h : (baseRef (some branch)).text = .ok ref) (name : String) :
    ¬ (o.baseCall ref branch).IsPlaceholder name := by
  rintro ⟨hclass, hmem⟩
  obtain ⟨written, hwritten, rfl⟩ := Option.map_eq_some_iff.1 hclass
  rw [ref?_of_baseRef (show (baseRef (some (o.baseCall ref branch).schema)).text = .ok ref from h)]
    at hwritten
  split at hwritten
  · cases hwritten
  · cases hwritten
    have hne := (List.mem_filter.1 hmem).2
    simp at hne

end

/-- A reference that is followed is a text. -/
theorem exists_ref_of_followRefs {document ms r : Members}
    (h : Schema.followRefs document (.obj ms) .null = .ok r)
    (htruthy : (Members.get ms "$ref").truthy = true) : ∃ ref, Members.get ms "$ref" = .str ref := by
  let IsText (m : Schema.Mode) (ms _r : Members) : Prop :=
    m.refs = true → (Members.get ms "$ref").truthy = true → ∃ ref, Members.get ms "$ref" = .str ref
  have hplain : Schema.Plain .null IsText := by
    intro m ms parts hnone _ hrefs htruthy
    unfold Schema.Mode.ref? at hnone
    cases hget : Members.get ms "$ref" <;>
      simp_all [Schema.refKey, Json.same, Json.truthy, Json.number?]
  have hthrough : Schema.Through document .null IsText := by
    intro m ms ref start parts r href _ _ _ _ _
    unfold Schema.Mode.ref? at href
    dsimp only at href
    split at href
    · exact ⟨ref, Option.some.inj href⟩
    · cases href
  obtain ⟨ms', hms, htext⟩ := Schema.resolve_induction hplain hthrough h
  cases hms
  exact htext rfl htruthy

/-- A schema with neither a reference nor a composition stays as it is and extends nothing. -/
theorem settle_of_isPlain {document ms : Members} (href : (Members.get ms "$ref").truthy = false)
    (hplain : Schema.IsPlain ms) :
    settle document (.obj ms) = .ok (none, Members.mergeAll [(⟨true, true⟩ : Schema.Mode).own ms]) := by
  have href? : ∀ m : Schema.Mode, m.ref? .null ms = none := by
    intro m
    unfold Schema.Mode.ref? Schema.refKey
    simp [href]
  have hbase : baseSchema? (Members.mergeAll [(⟨true, false⟩ : Schema.Mode).own ms]) = .ok none := by
    have hfalse : (Members.get (Members.mergeAll [(⟨true, false⟩ : Schema.Mode).own ms])
        "allOf").truthy = false := by
      unfold Members.get
      cases hget : Members.get? (Members.mergeAll [(⟨true, false⟩ : Schema.Mode).own ms]) "allOf" with
      | none => rfl
      | some v =>
        refine Members.truthy_get?_merge (by simp [Members.get?]) ?_ v hget
        intro m hm hmeaning
        apply hplain m.2
        have hkey : m.1 = Schema.allOfKey := Key.meaning_eq_text_iff.1 hmeaning
        rw [← hkey]
        exact List.mem_of_mem_filter hm
    unfold baseSchema?
    simp [hfalse]
  unfold settle Schema.followRefs Schema.flatten
  rw [Schema.resolve_of_isPlain (href? _) fun _ => hplain, ok_bind, hbase, ok_bind]
  change (Schema.resolve document .null ⟨true, true⟩ (.obj ms) >>= _) = _
  rw [Schema.resolve_of_isPlain (href? _) fun _ => hplain]
  rfl

/-- A schema that has a kind is planned by it. -/
theorem plan_of_kindFound {s : Setting} {c : Call} {kind : Schema.Kind}
    (h : kindFound s.document c.schema = .ok kind) (hfresh : ∀ name, ¬ c.IsPlaceholder name) :
    ∃ branch resolved, settle s.document c.schema = .ok (branch, resolved) ∧
      Schema.kind resolved = .ok kind ∧
      plan s c = planOfKind s ⟨c.visited, c.trail.lineage⟩ c.ownName c.specName branch resolved kind := by
  obtain ⟨⟨branch, resolved⟩, hsettle, hkind⟩ := bind_eq_ok.1 h
  refine ⟨branch, resolved, hsettle, hkind, ?_⟩
  obtain ⟨trail, name, schema⟩ := c
  cases schema with
  | obj ms =>
    cases ms with
    | nil =>
      rw [settle_of_isPlain rfl fun _ hv => absurd hv List.not_mem_nil] at hsettle
      cases hsettle
      cases hkind
      rfl
    | cons m ms =>
      obtain ⟨followed, hfollowed, -⟩ := bind_eq_ok.1 hsettle
      rw [plan_of_fresh rfl hfresh fun htruthy => exists_ref_of_followRefs hfollowed htruthy]
      simp only [planNamed, hsettle, hkind, ok_bind]
  | _ =>
    obtain ⟨followed, hfollowed, -⟩ := bind_eq_ok.1 hsettle
    obtain ⟨ms, hms⟩ := Schema.exists_members_of_resolve hfollowed
    cases hms

/-- What the plan of an object takes from its call. -/
structure ObjectPlan.Of (s : Setting) (c : Call) (o : ObjectPlan) : Prop where
  fresh : ∀ name, ¬ c.IsPlaceholder name
  settled : settle s.document c.schema = .ok (o.branch, o.schema)
  kind : Schema.kind o.schema = .ok .object
  required : requiredNames o.schema = .ok o.required
  properties : propertySchemas o.schema = .ok o.properties
  trail : o.trail = ⟨c.visited, c.trail.lineage⟩
  name : o.name = c.ownName

/-- What the plan of a container takes from its call. -/
structure Container.Of (s : Setting) (c : Call) (k : Container) (inner : Call) : Prop where
  fresh : ∀ name, ¬ c.IsPlaceholder name
  trail : inner.trail = ⟨c.visited, []⟩
  exists_member : ∃ branch resolved, settle s.document c.schema = .ok (branch, resolved) ∧
    ∃ key, Members.get? resolved key = some inner.schema
  kindFound : kindFound s.document c.schema = .ok .array ∨ kindFound s.document c.schema = .ok .map

section
variable {s : Setting} {trail : Trail} {name : String} {specName : Key} {branch : Option Json}
  {resolved : Members}

theorem planOfKind_object {kind : Schema.Kind} {o : ObjectPlan}
    (h : planOfKind s trail name specName branch resolved kind = .ok (.object o)) :
    kind = .object ∧ requiredNames resolved = .ok o.required ∧
      propertySchemas resolved = .ok o.properties ∧ o.trail = trail ∧ o.name = name ∧
      o.branch = branch ∧ o.schema = resolved := by
  cases kind with
  | enumeration =>
    obtain ⟨found, -, h⟩ := map_eq_ok.1 h
    cases h
  | array =>
    simp only [planOfKind] at h
    split at h <;> cases h
  | object =>
    obtain ⟨required, hrequired, h⟩ := bind_eq_ok.1 h
    obtain ⟨properties, hproperties, h⟩ := bind_eq_ok.1 h
    cases h
    exact ⟨rfl, hrequired, hproperties, rfl, rfl, rfl, rfl⟩
  | map =>
    simp only [planOfKind] at h
    split at h <;> cases h
  | void => cases h
  | primitive =>
    obtain ⟨found, -, h⟩ := map_eq_ok.1 h
    cases h

theorem planOfKind_container {kind : Schema.Kind} {k : Container} {inner : Call}
    (h : planOfKind s trail name specName branch resolved kind = .ok (.container k inner)) :
    (kind = .array ∨ kind = .map) ∧ inner.trail = ⟨trail.visiting, []⟩ ∧
      ∃ key, Members.get? resolved key = some inner.schema := by
  cases kind with
  | enumeration =>
    obtain ⟨found, -, h⟩ := map_eq_ok.1 h
    cases h
  | array =>
    simp only [planOfKind] at h
    split at h
    · rename_i hget
      cases h
      exact ⟨.inl rfl, rfl, "items", Members.get?_of_get_obj hget⟩
    · cases h
  | object =>
    obtain ⟨required, -, h⟩ := bind_eq_ok.1 h
    obtain ⟨properties, -, h⟩ := bind_eq_ok.1 h
    cases h
  | map =>
    simp only [planOfKind] at h
    split at h
    · rename_i hget
      cases h
      exact ⟨.inr rfl, rfl, "additionalProperties", Members.get?_of_get_obj hget⟩
    · cases h
  | void => cases h
  | primitive =>
    obtain ⟨found, -, h⟩ := map_eq_ok.1 h
    cases h

end

theorem kindFound_of_settle {document : Members} {schema : Json} {branch : Option Json}
    {resolved : Members} (h : settle document schema = .ok (branch, resolved)) :
    kindFound document schema = Schema.kind resolved := by
  rw [kindFound, h]
  rfl

theorem plan_object {s : Setting} {c : Call} {o : ObjectPlan} (h : plan s c = .ok (.object o)) :
    o.Of s c := by
  rcases plan_eq_ok h with ⟨-, h⟩ | ⟨name, -, h⟩ | ⟨hfresh, branch, resolved, kind, hsettle, hkind, h⟩
  · cases h
  · cases h
  · obtain ⟨rfl, hrequired, hproperties, htrail, hname, rfl, rfl⟩ := planOfKind_object h
    exact ⟨hfresh, hsettle, hkind, hrequired, hproperties, htrail, hname⟩

theorem plan_of_object {s : Setting} {c : Call} (hkind : kindFound s.document c.schema = .ok .object)
    (hfresh : ∀ n, ¬ c.IsPlaceholder n) {p : Plan} (h : plan s c = .ok p) :
    ∃ o, p = .object o ∧ o.Of s c := by
  obtain ⟨branch, resolved, -, -, hplan⟩ := plan_of_kindFound hkind hfresh
  obtain ⟨required, -, hrest⟩ := bind_eq_ok.1 (hplan.symm.trans h)
  obtain ⟨properties, -, hrest⟩ := bind_eq_ok.1 hrest
  cases hrest
  exact ⟨_, rfl, plan_object h⟩

theorem plan_container {s : Setting} {c : Call} {k : Container} {inner : Call}
    (h : plan s c = .ok (.container k inner)) : k.Of s c inner := by
  rcases plan_eq_ok h with ⟨-, h⟩ | ⟨name, -, h⟩ | ⟨hfresh, branch, resolved, kind, hsettle, hkind, h⟩
  · cases h
  · cases h
  · obtain ⟨hkinds, htrail, hmember⟩ := planOfKind_container h
    refine ⟨hfresh, htrail, ⟨branch, resolved, hsettle, hmember⟩, ?_⟩
    rw [kindFound_of_settle hsettle, hkind]
    exact hkinds.imp (congrArg _) (congrArg _)

end Inference

end ClientForge
