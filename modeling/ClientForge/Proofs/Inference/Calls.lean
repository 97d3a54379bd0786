-- SUMMARY: The calls that inferring a schema makes, one level down and at any depth.
import Mathlib.Logic.Relation
import ClientForge.Proofs.Inference.Extension
import ClientForge.Proofs.Inference.Fuel

/-!
# Nested calls

`Nested s c d` says that the inference of `c` comes to the call `d`: the call inside a
container, a property of an object once those before it have returned, or the base
class once all properties have. A nested call has to be settled for its caller to be
(`Nested.settled`) and has to return for its caller to return (`Nested.returns`), and
a call ends when all its nested calls do (`ends_of_nested`). So a call ends exactly if
no chain of nested calls from it goes on for ever (`ends_iff_acc`).
-/

namespace ClientForge

namespace Inference

open Outcome Schema

/-- A property whose call returns. -/
def ObjectPlan.PropertyReturns (s : Setting) (o : ObjectPlan) (m : Key × Json) : Prop :=
  ∃ spoken found, m.1.toJson.shown = .ok spoken ∧ Returns s (o.propertyCall spoken m.2) found

/-- The calls that a call makes itself. -/
inductive Nested (s : Setting) (c : Call) : Call → Prop
  | inner {kind : Container} {inner : Call} (h : plan s c = .ok (.container kind inner)) :
    Nested s c inner
  | property {o : ObjectPlan} {before after : Members} {m : Key × Json} {spoken : String}
    (h : plan s c = .ok (.object o)) (hsplit : o.properties = before ++ m :: after)
    (hreturns : ∀ e ∈ before, o.PropertyReturns s e) (hspoken : m.1.toJson.shown = .ok spoken) :
    Nested s c (o.propertyCall spoken m.2)
  | base {o : ObjectPlan} {branch : Json} {ref : String} (h : plan s c = .ok (.object o))
    (hreturns : ∀ e ∈ o.properties, o.PropertyReturns s e) (hbranch : o.branch = some branch)
    (href : (baseRef (some branch)).text = .ok ref)
    (hcircular : ¬ o.IsCircular (Name.ofReference ref)) :
    Nested s c (o.baseCall ref branch)

/-- The calls that a call makes at any depth, itself included. -/
def Reaches (s : Setting) : Call → Call → Prop := Relation.ReflTransGen (Nested s)

section
variable {s : Setting} {c d : Call} {o : ObjectPlan}

/-! ## What nested calls are like -/

/-- A value written in an object or as one of its properties. -/
inductive Within (resolved : Members) : Json → Prop
  | member {m : Key × Json} (h : m ∈ resolved) : Within resolved m.2
  | property {k : Key} {properties : Members} {m : Key × Json} (h : (k, .obj properties) ∈ resolved)
    (hm : m ∈ properties) : Within resolved m.2

/-- A call for a value in a resolved schema. It starts a new chain of subclasses. -/
structure Inside (s : Setting) (c d : Call) : Prop where
  trail : d.trail = ⟨c.visited, []⟩
  exists_resolved : ∃ branch resolved, settle s.document c.schema = .ok (branch, resolved) ∧
    Within resolved d.schema

/-- A call for a base class that the chain of subclasses does not have yet. -/
structure Above (s : Setting) (c d : Call) (ref : String) : Prop where
  exists_resolved : ∃ resolved, settle s.document c.schema = .ok (some d.schema, resolved)
  text : (baseRef (some d.schema)).text = .ok ref
  acyclic : Name.ofReference ref ∉ c.line
  trail : d.trail = ⟨c.visited.filter (· != Name.ofReference ref), c.line⟩
  name : d.name = ""

/-- The properties of a schema are the members of an object, if there are any. -/
theorem propertySchemas_eq_ok {resolved properties : Members}
    (h : propertySchemas resolved = .ok properties) :
    properties = [] ∨ Members.get? resolved "properties" = some (.obj properties) := by
  unfold propertySchemas Members.get at h
  cases hget : Members.get? resolved "properties" with
  | none =>
    rw [hget] at h
    cases h
    exact .inl rfl
  | some v =>
    rw [hget] at h
    cases v with
    | obj members =>
      cases members with
      | nil => cases h; exact .inl rfl
      | cons => cases h; exact .inr rfl
    | _ =>
      dsimp only [Option.getD_some] at h
      split at h
      · cases h
      · cases h
        exact .inl rfl

theorem within_of_propertySchemas {resolved properties : Members} {m : Key × Json}
    (h : propertySchemas resolved = .ok properties) (hm : m ∈ properties) :
    Within resolved m.2 := by
  rcases propertySchemas_eq_ok h with rfl | hget
  · cases hm
  · obtain ⟨⟨k, v⟩, hmem, -, rfl⟩ := Members.mem_of_get? hget
    exact .property hmem hm

theorem Nested.fresh (h : Nested s c d) (name : String) : ¬ c.IsPlaceholder name := by
  cases h with
  | inner h => exact (plan_container h).fresh name
  | property h => exact (plan_object h).fresh name
  | base h => exact (plan_object h).fresh name

theorem Nested.inside_or_above (h : Nested s c d) : Inside s c d ∨ ∃ ref, Above s c d ref := by
  cases h with
  | inner h =>
    have hk := plan_container h
    obtain ⟨branch, resolved, hsettle, key, hget⟩ := hk.exists_member
    obtain ⟨m, hm, -, hschema⟩ := Members.mem_of_get? hget
    exact .inl ⟨hk.trail, branch, resolved, hsettle, hschema ▸ .member hm⟩
  | @property o before after m spoken h hsplit =>
    have ho := plan_object h
    have hm : m ∈ o.properties := by simp [hsplit]
    refine .inl ⟨?_, o.branch, o.schema, ho.settled, within_of_propertySchemas ho.properties hm⟩
    unfold ObjectPlan.propertyCall
    rw [ho.trail]
  | @base o branch ref h hreturns hbranch href hcircular =>
    have ho := plan_object h
    have hline : o.trail.lineage ++ [o.name] = c.line := by
      rw [ho.trail, ho.name, Call.line]
    refine .inr ⟨ref, ⟨o.schema, hbranch ▸ ho.settled⟩, href, ?_, ?_, rfl⟩
    · intro hmem
      rw [← hline] at hmem
      rcases List.mem_append.1 hmem with hmem | hmem
      · exact hcircular (.inr hmem)
      · exact hcircular (.inl (List.mem_singleton.1 hmem))
    · unfold ObjectPlan.baseCall
      rw [hline, ho.trail]

theorem Within.preserves {P : Json → Prop} (hP : Hereditary P) {resolved : Members} {v : Json}
    (h : P (.obj resolved)) (hv : Within resolved v) : P v := by
  cases hv with
  | member hm => exact hP.member h hm
  | property hmem hm => exact hP.member (hP.member h hmem) hm

/-- What a document and a schema have in common, nested schemas have too. -/
theorem Nested.preserves {P : Json → Prop} (hP : Stable P) (hdoc : P (.obj s.document))
    (h : Nested s c d) (hc : P c.schema) : P d.schema := by
  rcases h.inside_or_above with hinside | ⟨ref, habove⟩
  · obtain ⟨branch, resolved, hsettle, hwithin⟩ := hinside.exists_resolved
    exact hwithin.preserves hP.toHereditary (hP.resolve hdoc hc (flatten_of_settle hsettle))
  · obtain ⟨resolved, hsettle⟩ := habove.exists_resolved
    exact ((isBase_iff_of_settle hsettle).2 rfl).preserves hP hdoc hc

theorem Reaches.preserves {P : Json → Prop} (hP : Stable P) (hdoc : P (.obj s.document))
    (h : Reaches s c d) (hc : P c.schema) : P d.schema := by
  induction h with
  | refl => exact hc
  | tail _ hnested ih => exact hnested.preserves hP hdoc ih

theorem Reaches.wellFormed (h : Reaches s c d) (hschema : c.schema.WellFormed) :
    d.schema.WellFormed :=
  h.preserves stable_wellFormed s.document.wellFormed hschema

/-! ## From a call to its nested calls -/

theorem ObjectPlan.PropertyReturns.outcome {m : Key × Json} (h : o.PropertyReturns s m)
    (fuel : Nat) :
    ofProperty (inferWith s fuel) o.trail.visiting o.name o.required m = .error .tooDeep ∨
      ∃ part, ofProperty (inferWith s fuel) o.trail.visiting o.name o.required m = .ok part := by
  obtain ⟨spoken, found, hspoken, more, hfound⟩ := h
  have hmax := returns_of_le (Nat.le_max_left more fuel) hfound
  have hbelow := below_inferWith (s := s) (Nat.le_max_right more fuel) (o.propertyCall spoken m.2)
  rw [ofProperty_eq, hspoken, ok_bind]
  by_cases hsettled : Settled ((inferWith s fuel).at (o.propertyCall spoken m.2))
  · rw [hbelow hsettled, hmax]
    exact .inr ⟨_, rfl⟩
  · rw [not_not.1 hsettled]
    exact .inl rfl

theorem outcome_of_properties {before : Members} (h : ∀ e ∈ before, o.PropertyReturns s e)
    (fuel : Nat) :
    before.mapM (ofProperty (inferWith s fuel) o.trail.visiting o.name o.required) =
        .error .tooDeep ∨
      ∃ parts, before.mapM (ofProperty (inferWith s fuel) o.trail.visiting o.name o.required) =
        .ok parts :=
  mapM_tooDeep_or_ok fun e he => (h e he).outcome fuel

/-- A nested call that fails makes its caller fail. -/
theorem Nested.error (h : Nested s c d) {fuel : Nat} {e : Failure}
    (hd : (inferWith s fuel).at d = .error e) :
    (inferWith s (fuel + 1)).at c = .error .tooDeep ∨ (inferWith s (fuel + 1)).at c = .error e := by
  cases h with
  | inner h =>
    rw [inferWith_succ, h, ok_bind, Plan.run, hd]
    exact .inr rfl
  | @property o before after m spoken h hsplit hreturns hspoken =>
    have hm : ofProperty (inferWith s fuel) o.trail.visiting o.name o.required m = .error e := by
      rw [ObjectPlan.ofProperty_eq, hspoken, ok_bind, hd]
      rfl
    rw [inferWith_succ, h, ok_bind, Plan.run, ObjectPlan.run, hsplit, List.mapM_append,
      List.mapM_cons, hm]
    rcases outcome_of_properties hreturns fuel with hb | ⟨parts, hb⟩
    · exact .inl (by rw [hb]; rfl)
    · exact .inr (by rw [hb]; rfl)
  | @base o branch ref h hreturns hbranch href hcircular =>
    have hbase : ofBase (inferWith s fuel) o.trail o.name o.branch = .error e := by
      rw [hbranch, ObjectPlan.ofBase_some, href, ok_bind, if_neg hcircular, hd]
      rfl
    rw [inferWith_succ, h, ok_bind, Plan.run, ObjectPlan.run, hbase]
    rcases outcome_of_properties hreturns fuel with hb | ⟨parts, hb⟩
    · exact .inl (by rw [hb]; rfl)
    · exact .inr (by rw [hb]; rfl)

theorem Nested.settled (h : Nested s c d) {fuel : Nat}
    (hc : Settled ((inferWith s (fuel + 1)).at c)) : Settled ((inferWith s fuel).at d) :=
  fun hd => hc ((h.error hd).elim id id)

theorem exists_succ_of_returns {r : Inferred} (h : Returns s c r) :
    ∃ fuel, (inferWith s (fuel + 1)).at c = .ok r := by
  obtain ⟨fuel, h⟩ := h
  exact ⟨fuel, returns_of_le (Nat.le_succ fuel) h⟩

theorem Nested.returns (h : Nested s c d) {r : Inferred} (hc : Returns s c r) :
    ∃ found, Returns s d found := by
  obtain ⟨fuel, hc⟩ := exists_succ_of_returns hc
  cases hd : (inferWith s fuel).at d with
  | ok found => exact ⟨found, fuel, hd⟩
  | error e => rcases h.error hd with h | h <;> rw [hc] at h <;> cases h

theorem Reaches.returns (h : Reaches s c d) {r : Inferred} (hc : Returns s c r) :
    ∃ found, Returns s d found := by
  induction h with
  | refl => exact ⟨r, hc⟩
  | tail _ hnested ih =>
    obtain ⟨found, hfound⟩ := ih
    exact hnested.returns hfound

/-! ## From the nested calls to their caller -/

/-- Some fuel suffices for the rest of the properties, if those before have returned. -/
theorem exists_fuel_of_properties (hplan : plan s c = .ok (.object o))
    (hends : ∀ d, Nested s c d → Ends s d) (after : Members) :
    ∀ before, o.properties = before ++ after → (∀ e ∈ before, o.PropertyReturns s e) →
      ∃ fuel, ∀ more ≥ fuel, Settled
        (after.mapM (ofProperty (inferWith s more) o.trail.visiting o.name o.required)) ∧
        ∀ parts, after.mapM (ofProperty (inferWith s more) o.trail.visiting o.name o.required) =
          .ok parts → ∀ e ∈ after, o.PropertyReturns s e := by
  induction after with
  | nil => exact fun before _ _ => ⟨0, fun more _ => ⟨settled_ok _, by simp⟩⟩
  | cons m after ih =>
    intro before hsplit hreturns
    cases hspoken : m.1.toJson.shown with
    | error e =>
      have hm : ∀ fuel, ofProperty (inferWith s fuel) o.trail.visiting o.name o.required m =
          .error e := by
        intro fuel
        rw [ObjectPlan.ofProperty_eq, hspoken, error_bind]
      refine ⟨0, fun more _ => ?_⟩
      rw [List.mapM_cons, hm, error_bind]
      refine ⟨fun h => settled_shown m.1.toJson ?_, by simp⟩
      rw [hspoken]
      simpa using h
    | ok spoken =>
      obtain ⟨answer, hsettled, fuel, hanswer⟩ :=
        hends _ (.property hplan hsplit hreturns hspoken)
      have hm : ∀ more ≥ fuel, ofProperty (inferWith s more) o.trail.visiting o.name o.required m =
          (answer >>= fun found => .ok (o.contribution m spoken found)) := by
        intro more hle
        rw [ObjectPlan.ofProperty_eq, hspoken, ok_bind, hanswer more hle]
        rfl
      cases answer with
      | error e =>
        refine ⟨fuel, fun more hle => ?_⟩
        rw [List.mapM_cons, hm more hle, error_bind, error_bind]
        exact ⟨fun h => hsettled (by simpa using h), by simp⟩
      | ok found =>
        have hreturn : o.PropertyReturns s m :=
          ⟨spoken, found, hspoken, fuel, hanswer fuel (Nat.le_refl _)⟩
        obtain ⟨fuel', h⟩ := ih (before ++ [m]) (by simpa using hsplit) (by
          intro e he
          rcases List.mem_append.1 he with he | he
          · exact hreturns e he
          · exact List.mem_singleton.1 he ▸ hreturn)
        refine ⟨max fuel fuel', fun more hle => ?_⟩
        obtain ⟨hafter, hparts⟩ := h more (Nat.le_trans (Nat.le_max_right fuel fuel') hle)
        rw [List.mapM_cons, hm more (Nat.le_trans (Nat.le_max_left fuel fuel') hle), ok_bind, ok_bind]
        refine ⟨hafter.bind fun parts _ => settled_ok _, fun parts h e he => ?_⟩
        obtain ⟨rest, hrest, -⟩ := bind_eq_ok.1 h
        rcases List.mem_cons.1 he with rfl | he
        · exact hreturn
        · exact hparts rest hrest e he

/-- Some fuel suffices for the base class, if the properties have returned. -/
theorem exists_fuel_of_base (hplan : plan s c = .ok (.object o))
    (hends : ∀ d, Nested s c d → Ends s d) :
    ∃ fuel, ∀ more ≥ fuel, (∀ e ∈ o.properties, o.PropertyReturns s e) →
      Settled (ofBase (inferWith s more) o.trail o.name o.branch) := by
  cases hbranch : o.branch with
  | none => exact ⟨0, fun more _ _ => settled_ok _⟩
  | some branch =>
    by_cases hreturns : ∀ e ∈ o.properties, o.PropertyReturns s e
    · cases href : (baseRef (some branch)).text with
      | error e =>
        refine ⟨0, fun more _ _ => ?_⟩
        rw [ObjectPlan.ofBase_some, href, error_bind]
        exact fun he => settled_text _ (href.trans (by simpa using he))
      | ok ref =>
        by_cases hcircular : o.IsCircular (Name.ofReference ref)
        · refine ⟨0, fun more _ _ => ?_⟩
          rw [ObjectPlan.ofBase_some, href, ok_bind, if_pos hcircular]
          exact nofun
        · obtain ⟨answer, hsettled, fuel, hanswer⟩ :=
            hends _ (.base hplan hreturns hbranch href hcircular)
          refine ⟨fuel, fun more hle _ => ?_⟩
          rw [ObjectPlan.ofBase_some, href, ok_bind, if_neg hcircular, hanswer more hle]
          exact hsettled.bind fun found _ => settled_ok _
    · exact ⟨0, fun more _ h => absurd h hreturns⟩

/-- A call ends if all the calls that it makes do. -/
theorem ends_of_nested (h : ∀ d, Nested s c d → Ends s d) : Ends s c := by
  rw [ends_iff]
  cases hplan : plan s c with
  | error e =>
    refine ⟨1, ?_⟩
    rw [inferWith_succ, hplan, error_bind]
    exact fun he => settled_plan s c (hplan.trans (by simpa using he))
  | ok p =>
    cases p with
    | done found => exact ⟨1, by rw [inferWith_succ, hplan]; exact settled_ok _⟩
    | container kind inner =>
      obtain ⟨fuel, hinner⟩ := ends_iff.1 (h inner (.inner hplan))
      refine ⟨fuel + 1, ?_⟩
      rw [inferWith_succ, hplan]
      exact hinner.bind fun found _ => settled_ok _
    | object o =>
      obtain ⟨fuel, hproperties⟩ :=
        exists_fuel_of_properties hplan h o.properties [] rfl (by simp)
      obtain ⟨fuel', hbase⟩ := exists_fuel_of_base hplan h
      refine ⟨max fuel fuel' + 1, ?_⟩
      obtain ⟨hsettled, hreturns⟩ := hproperties _ (Nat.le_max_left fuel fuel')
      rw [inferWith_succ, hplan, ok_bind]
      exact hsettled.bind fun parts hparts =>
        (hbase _ (Nat.le_max_right fuel fuel') (hreturns parts hparts)).bind fun base _ => settled_ok _

/-- A call ends exactly if the calls nested in it do not go on for ever. -/
theorem ends_iff_acc : Ends s c ↔ Acc (fun d c => Nested s c d) c := by
  constructor
  · intro h
    obtain ⟨fuel, hsettled⟩ := ends_iff.1 h
    clear h
    induction fuel generalizing c with
    | zero => exact absurd rfl hsettled
    | succ fuel ih => exact Acc.intro c fun d hd => ih (hd.settled hsettled)
  · intro h
    induction h with
    | intro c _ ih => exact ends_of_nested ih

end

end Inference

end ClientForge
