-- SUMMARY: Which circles of classes that extend one another are rejected, and which are not seen.
import Mathlib.Logic.Relation
import ClientForge.Proofs.Inference.Closed
import ClientForge.Proofs.Inference.Void

/-!
# Circles of classes

A class is asked for its base class once its properties have returned, and the chain of
subclasses is what rules out a circle (`Climb`). From a definition whose base classes come back
to one of them this cannot go on for ever (`exists_stop`), and it fails where it comes back to
a class of the chain (`raises_of_comesBack`). But it also stops at a base class that is no
object once its own base class is left out, and then the circle is not seen
(`returns_iff_of_comesBack`). A definition that extends itself is always such a one: nothing
is left of it without its base class (`infer_of_extends_itself`).
-/

namespace ClientForge

namespace Inference

open Members Outcome Schema

/-! ## Circles in a document -/

/-- A schema extends what the reference of a branch names. -/
def ExtendsRef (document : Members) (schema branch : Json) : Prop :=
  IsBase document schema branch ∧ ∃ ref, (baseRef (some branch)).text = .ok ref

/-- The way from a schema to what it extends, directly or not, comes back to a definition that
is on it already. -/
def ComesBack (document : Members) (schema : Json) : Prop :=
  ∃ first again, Relation.ReflTransGen (ExtendsRef document) schema first ∧
    Relation.TransGen (ExtendsRef document) first again ∧
    baseRef (some first) = baseRef (some again)

/-! ## From a class to its base class -/

/-- A class whose properties have returned goes on with its base class, unless that is on the
chain of subclasses. -/
inductive Climb (s : Setting) (c : Call) : Call → Prop
  | intro {o : ObjectPlan} {branch : Json} {ref : String} (hplan : plan s c = .ok (.object o))
    (hreturns : ∀ e ∈ o.properties, o.PropertyReturns s e) (hbranch : o.branch = some branch)
    (href : (baseRef (some branch)).text = .ok ref)
    (hcircular : ¬ o.IsCircular (Name.ofReference ref)) : Climb s c (o.baseCall ref branch)

/-- The calls for a class and for those that it extends, as far as inference comes. -/
def Climbs (s : Setting) : Call → Call → Prop := Relation.ReflTransGen (Climb s)

/-- A call fails, given sufficient fuel. -/
def Raises (s : Setting) (c : Call) (e : Failure) : Prop :=
  ∃ fuel, ∀ more ≥ fuel, (inferWith s more).at c = .error e

section
variable {s : Setting} {c d : Call} {o : ObjectPlan}

theorem Climb.nested (h : Climb s c d) : Nested s c d := by
  cases h with
  | intro hplan hreturns hbranch href hcircular => exact .base hplan hreturns hbranch href hcircular

theorem Climb.extendsRef (h : Climb s c d) : ExtendsRef s.document c.schema d.schema := by
  cases h with
  | intro hplan _ hbranch href =>
    exact ⟨(isBase_iff_of_settle (plan_object hplan).settled).2 hbranch, _, href⟩

theorem Climb.lineage (h : Climb s c d) : d.trail.lineage = c.line := by
  cases h with
  | intro hplan =>
    have ho := plan_object hplan
    simp only [ObjectPlan.baseCall, ho.trail, ho.name, Call.line]

theorem Climb.fresh (h : Climb s c d) (n : String) : ¬ d.IsPlaceholder n := by
  cases h with
  | @intro o _ _ _ _ _ href => exact o.baseCall_fresh href n

theorem Climb.ownName_eq (h : Climb s c d) {ref : String}
    (href : (baseRef (some d.schema)).text = .ok ref) : d.ownName = Name.ofReference ref := by
  cases h with
  | @intro o branch ref' _ _ _ href' =>
    rw [ownName_baseCall o href', Except.ok.inj (href'.symm.trans href)]

theorem ObjectPlan.isCircular_iff (ho : o.Of s c) (superclass : String) :
    o.IsCircular superclass ↔ superclass ∈ c.line := by
  simp only [ObjectPlan.IsCircular, ho.trail, ho.name, Call.line, List.mem_append,
    List.mem_singleton, or_comm]

/-- A class has one base class at most. -/
theorem Climb.eq_baseCall (h : Climb s c d) (hplan : plan s c = .ok (.object o)) {branch : Json}
    {ref : String} (hbranch : o.branch = some branch) (href : (baseRef (some branch)).text = .ok ref) :
    d = o.baseCall ref branch ∧ ¬ o.IsCircular (Name.ofReference ref) := by
  cases h with
  | intro hplan' _ hbranch' href' hcircular =>
    cases hplan.symm.trans hplan'
    cases hbranch.symm.trans hbranch'
    cases href.symm.trans href'
    exact ⟨rfl, hcircular⟩

theorem Climb.ownName_notMem (h : Climb s c d) : d.ownName ∉ c.line := by
  cases h with
  | @intro o _ _ hplan _ _ href hcircular =>
    rwa [ownName_baseCall o href, ← ObjectPlan.isCircular_iff (plan_object hplan)]

/-! ## The outcome of a class is that of its base class -/

/-- Properties that return do so all with the same fuel. -/
theorem exists_parts_of_properties {before : Members} (h : ∀ e ∈ before, o.PropertyReturns s e) :
    ∃ fuel, ∀ more ≥ fuel, ∃ parts,
      before.mapM (ofProperty (inferWith s more) o.trail.visiting o.name o.required) = .ok parts := by
  induction before with
  | nil => exact ⟨0, fun more _ => ⟨[], rfl⟩⟩
  | cons m before ih =>
    obtain ⟨⟨spoken, found, hspoken, fuel, hfound⟩, hbefore⟩ := List.forall_mem_cons.1 h
    obtain ⟨fuel', hparts⟩ := ih hbefore
    refine ⟨max fuel fuel', fun more hle => ?_⟩
    obtain ⟨parts, hparts⟩ := hparts more (Nat.le_trans (Nat.le_max_right fuel fuel') hle)
    have hfound' := returns_of_le (Nat.le_trans (Nat.le_max_left fuel fuel') hle) hfound
    have hpart := ObjectPlan.ofProperty_eq_ok.2 ⟨spoken, hspoken, found, hfound', rfl⟩
    exact ⟨_ :: parts, mapM_eq_ok.2 (.cons hpart (mapM_eq_ok.1 hparts))⟩

/-- With sufficient fuel, what becomes of a class whose properties return is up to its base class. -/
theorem exists_run_of_properties (hplan : plan s c = .ok (.object o))
    (hreturns : ∀ e ∈ o.properties, o.PropertyReturns s e) :
    ∃ fuel, ∀ more ≥ fuel, ∃ parts, (inferWith s (more + 1)).at c =
      o.assembled parts <$> ofBase (inferWith s more) o.trail o.name o.branch := by
  obtain ⟨fuel, hparts⟩ := exists_parts_of_properties hreturns
  refine ⟨fuel, fun more hle => ?_⟩
  obtain ⟨parts, hparts⟩ := hparts more hle
  refine ⟨parts, ?_⟩
  rw [inferWith_succ, hplan, ok_bind, Plan.run, ObjectPlan.run, hparts, ok_bind]
  exact bind_pure_comp _ _

theorem Climb.exists_run (h : Climb s c d) : ∃ fuel, ∀ more ≥ fuel, ∃ extended,
    (inferWith s (more + 1)).at c = extended <$> (inferWith s more).at d := by
  cases h with
  | @intro o branch ref hplan hreturns hbranch href hcircular =>
    obtain ⟨fuel, hrun⟩ := exists_run_of_properties hplan hreturns
    refine ⟨fuel, fun more hle => ?_⟩
    obtain ⟨parts, hrun⟩ := hrun more hle
    refine ⟨fun found => o.assembled parts (ObjectPlan.inheriting (Name.ofReference ref) found), ?_⟩
    rw [hrun, hbranch, ObjectPlan.ofBase_some, href, ok_bind, if_neg hcircular]
    cases (inferWith s more).at (o.baseCall ref branch) <;> rfl

theorem Climb.exists_returns_iff (h : Climb s c d) :
    (∃ r, Returns s c r) ↔ ∃ r, Returns s d r := by
  constructor
  · rintro ⟨r, hr⟩
    exact h.nested.returns hr
  · rintro ⟨r, fuel, hr⟩
    obtain ⟨fuel', hrun⟩ := h.exists_run
    obtain ⟨extended, hrun⟩ := hrun (max fuel fuel') (Nat.le_max_right fuel fuel')
    rw [returns_of_le (Nat.le_max_left fuel fuel') hr] at hrun
    exact ⟨extended r, _, hrun⟩

theorem Climb.raises (h : Climb s c d) {e : Failure} (he : Raises s d e) : Raises s c e := by
  obtain ⟨fuel, he⟩ := he
  obtain ⟨fuel', hrun⟩ := h.exists_run
  refine ⟨max fuel fuel' + 1, fun more hle => ?_⟩
  obtain ⟨rest, rfl⟩ := Nat.exists_eq_add_of_le' hle
  obtain ⟨extended, hrun⟩ := hrun (rest + max fuel fuel') (by omega)
  rw [he (rest + max fuel fuel') (by omega)] at hrun
  exact hrun

theorem Climbs.exists_returns_iff (h : Climbs s c d) :
    (∃ r, Returns s c r) ↔ ∃ r, Returns s d r := by
  induction h with
  | refl => exact Iff.rfl
  | tail _ hclimb ih => exact ih.trans hclimb.exists_returns_iff

theorem Climbs.raises (h : Climbs s c d) {e : Failure} (he : Raises s d e) : Raises s c e := by
  induction h with
  | refl => exact he
  | tail _ hclimb ih => exact ih (hclimb.raises he)

theorem Climbs.fresh (h : Climbs s c d) (hc : ∀ n, ¬ c.IsPlaceholder n) (n : String) :
    ¬ d.IsPlaceholder n := by
  rcases Relation.ReflTransGen.cases_tail h with rfl | ⟨_, _, hclimb⟩
  · exact hc n
  · exact hclimb.fresh n

/-- An object whose base class is on its chain is rejected. -/
theorem raises_of_isCircular (hplan : plan s c = .ok (.object o))
    (hreturns : ∀ e ∈ o.properties, o.PropertyReturns s e) {branch : Json} {ref : String}
    (hbranch : o.branch = some branch) (href : (baseRef (some branch)).text = .ok ref)
    (hcircular : o.IsCircular (Name.ofReference ref)) :
    Raises s c (.unsupported (.circularInheritance o.name (Name.ofReference ref)) branch) := by
  obtain ⟨fuel, hrun⟩ := exists_run_of_properties hplan hreturns
  refine ⟨fuel + 1, fun more hle => ?_⟩
  obtain ⟨rest, rfl⟩ := Nat.exists_eq_add_of_le' hle
  obtain ⟨parts, hrun⟩ := hrun (rest + fuel) (Nat.le_add_left fuel rest)
  rw [hbranch, ObjectPlan.ofBase_some, href, ok_bind, if_pos hcircular] at hrun
  exact hrun

/-! ## No way up goes on for ever -/

/-- The classes that have asked for a base class, directly or not, are on its chain. -/
theorem ownName_mem_lineage (h : Relation.TransGen (Climb s) c d) :
    c.ownName ∈ d.trail.lineage ∧ d.ownName ∉ d.trail.lineage := by
  induction h with
  | single hclimb =>
    rw [hclimb.lineage]
    exact ⟨List.mem_append_right _ List.mem_cons_self, hclimb.ownName_notMem⟩
  | tail _ hclimb ih =>
    rw [hclimb.lineage]
    exact ⟨List.mem_append_left _ ih.1, hclimb.ownName_notMem⟩

section
variable (hgo : ∀ d branch, Climbs s c d → ExtendsRef s.document d.schema branch → ∃ e, Climb s d e)
include hgo

theorem exists_climb {branch : Json} (hd : Climbs s c d)
    (h : ExtendsRef s.document d.schema branch) : ∃ e, Climb s d e ∧ e.schema = branch := by
  obtain ⟨e, he⟩ := hgo d branch hd h
  exact ⟨e, he, he.extendsRef.1.unique h.1⟩

theorem exists_climbs {schema : Json}
    (h : Relation.ReflTransGen (ExtendsRef s.document) c.schema schema) :
    ∃ d, Climbs s c d ∧ d.schema = schema := by
  induction h with
  | refl => exact ⟨c, .refl, rfl⟩
  | tail _ hextends ih =>
    obtain ⟨d, hd, rfl⟩ := ih
    obtain ⟨e, he, hschema⟩ := exists_climb hgo hd hextends
    exact ⟨e, hd.tail he, hschema⟩

theorem exists_transGen_climb {schema : Json} (hd : Climbs s c d)
    (h : Relation.TransGen (ExtendsRef s.document) d.schema schema) :
    ∃ e, Relation.TransGen (Climb s) d e ∧ e.schema = schema := by
  induction h with
  | single hextends =>
    obtain ⟨e, he, hschema⟩ := exists_climb hgo hd hextends
    exact ⟨e, .single he, hschema⟩
  | tail _ hextends ih =>
    obtain ⟨e, he, rfl⟩ := ih
    obtain ⟨e', he', hschema⟩ := exists_climb hgo (hd.trans he.to_reflTransGen) hextends
    exact ⟨e', he.tail he', hschema⟩

end

/-- On the way up from a definition that comes back, some class does not get its base class. -/
theorem exists_stop (hcomes : ComesBack s.document c.schema)
    (hname : ∀ ref, (baseRef (some c.schema)).text = .ok ref → c.ownName = Name.ofReference ref) :
    ∃ d branch, Climbs s c d ∧ ExtendsRef s.document d.schema branch ∧ ∀ e, ¬ Climb s d e := by
  by_contra hnone
  have hgo : ∀ d branch, Climbs s c d → ExtendsRef s.document d.schema branch → ∃ e, Climb s d e := by
    intro d branch hd hextends
    by_contra hstop
    exact hnone ⟨d, branch, hd, hextends, not_exists.1 hstop⟩
  obtain ⟨_, _, hfirst, hagain, heq⟩ := hcomes
  obtain ⟨d, hd, rfl⟩ := exists_climbs hgo hfirst
  obtain ⟨e, he, rfl⟩ := exists_transGen_climb hgo hd hagain
  obtain ⟨hmem, hnotMem⟩ := ownName_mem_lineage he
  -- Both are named after the reference that they share.
  obtain ⟨d', -, hlast⟩ := Relation.TransGen.tail'_iff.1 he
  obtain ⟨ref, href⟩ := hlast.extendsRef.2
  have hdname : d.ownName = Name.ofReference ref := by
    rw [← heq] at href
    rcases Relation.ReflTransGen.cases_tail hd with rfl | ⟨_, _, hclimb⟩
    · exact hname ref href
    · exact hclimb.ownName_eq href
  rw [hdname, ← hlast.ownName_eq href] at hmem
  exact hnotMem hmem

/-- A class without its base class has one on its own chain, unless its properties fail. -/
theorem exists_circular_of_stop {branch : Json} (hplan : plan s d = .ok (.object o))
    (hreturns : ∀ e ∈ o.properties, o.PropertyReturns s e)
    (hextends : ExtendsRef s.document d.schema branch) (hstop : ∀ e, ¬ Climb s d e) :
    ∃ ref, o.branch = some branch ∧ (baseRef (some branch)).text = .ok ref ∧
      o.IsCircular (Name.ofReference ref) := by
  obtain ⟨hbase, ref, href⟩ := hextends
  have hbranch := (isBase_iff_of_settle (plan_object hplan).settled).1 hbase
  refine ⟨ref, hbranch, href, ?_⟩
  by_contra hcircular
  exact hstop _ (.intro hplan hreturns hbranch href hcircular)

/-- An object that is not given its base class does not return. -/
theorem not_returns_of_stop {branch : Json} {r : Inferred}
    (hkind : kindFound s.document d.schema = .ok .object) (hfresh : ∀ n, ¬ d.IsPlaceholder n)
    (hextends : ExtendsRef s.document d.schema branch) (hstop : ∀ e, ¬ Climb s d e) :
    ¬ Returns s d r := by
  intro hr
  obtain ⟨p, hplan⟩ := exists_plan_of_returns hr
  obtain ⟨o, rfl, -⟩ := plan_of_object hkind hfresh hplan
  obtain ⟨parts, base, hparts, hbase, -⟩ := hr.object hplan
  obtain ⟨ref, hbranch, href, hcircular⟩ := exists_circular_of_stop hplan
    (propertyReturns_of_contributed hparts) hextends hstop
  rcases hbase with ⟨hnone, -⟩ | ⟨branch', ref', found, hbranch', href', hcircular', -, -⟩
  · cases hbranch.symm.trans hnone
  · cases hbranch.symm.trans hbranch'
    cases href.symm.trans href'
    exact hcircular' hcircular

end

/-! ## Circles of definitions -/

/-- A call for an object whose properties all return. -/
def BuildsProperties (s : Setting) (c : Call) : Prop :=
  ∃ o, plan s c = .ok (.object o) ∧ ∀ e ∈ o.properties, o.PropertyReturns s e

section
variable {s : Setting} {name ref : String}

theorem ComesBack.ne_empty {document : Members} (h : ComesBack document (refTo ref)) : ref ≠ "" := by
  rintro rfl
  obtain ⟨first, again, hfirst, hagain, -⟩ := h
  have hway := Relation.TransGen.trans_right hfirst hagain
  obtain ⟨branch, hextends, -⟩ := Relation.TransGen.head'_iff.1 hway
  cases (isBase_iff_of_settle (settle_refTo_empty document)).1 hextends.1

theorem ownName_refTo (hne : ref ≠ "") (trail : Trail) :
    (⟨trail, name, refTo ref⟩ : Call).ownName = Name.ofReference ref := by
  have href : (⟨trail, name, refTo ref⟩ : Call).ref? = some ref := ref?_of_ref trail name rfl hne
  rw [Call.ownName, className?_of_ref? href, Option.getD_some]

/-- A circle is stopped somewhere on the way up. -/
theorem ComesBack.exists_stop (h : ComesBack s.document (refTo ref)) (name : String) :
    ∃ d branch, Climbs s ⟨⟨[], []⟩, name, refTo ref⟩ d ∧
      ExtendsRef s.document d.schema branch ∧ ∀ e, ¬ Climb s d e := by
  refine Inference.exists_stop h fun written hwritten => ?_
  cases hwritten
  exact ownName_refTo h.ne_empty _

/-- A circle is not seen exactly if inference comes to a base class that is no object without
its own base class, and that returns. -/
theorem returns_iff_of_comesBack (h : ComesBack s.document (refTo ref)) :
    (∃ r, Returns s ⟨⟨[], []⟩, name, refTo ref⟩ r) ↔
      ∃ d r, Climbs s ⟨⟨[], []⟩, name, refTo ref⟩ d ∧
        kindFound s.document d.schema ≠ .ok .object ∧ Returns s d r := by
  constructor
  · intro hreturns
    obtain ⟨d, branch, hd, hextends, hstop⟩ := h.exists_stop name
    obtain ⟨r, hr⟩ := hd.exists_returns_iff.1 hreturns
    refine ⟨d, r, hd, fun hkind => ?_, hr⟩
    have hfresh := hd.fresh fun n hn => List.not_mem_nil hn.2
    exact not_returns_of_stop hkind hfresh hextends hstop hr
  · rintro ⟨d, r, hd, -, hr⟩
    exact hd.exists_returns_iff.2 ⟨r, hr⟩

/-- A circle of objects whose properties return is rejected where it comes back to the chain. -/
theorem raises_of_comesBack (h : ComesBack s.document (refTo ref))
    (hbuilds : ∀ d, Climbs s ⟨⟨[], []⟩, name, refTo ref⟩ d → BuildsProperties s d) :
    ∃ d superclass branch, Climbs s ⟨⟨[], []⟩, name, refTo ref⟩ d ∧
      IsBase s.document d.schema branch ∧ superclass ∈ d.line ∧
      Raises s ⟨⟨[], []⟩, name, refTo ref⟩
        (.unsupported (.circularInheritance d.ownName superclass) branch) := by
  obtain ⟨d, branch, hd, hextends, hstop⟩ := h.exists_stop name
  obtain ⟨o, hplan, hreturns⟩ := hbuilds d hd
  obtain ⟨superRef, hbranch, href, hcircular⟩ :=
    exists_circular_of_stop hplan hreturns hextends hstop
  have ho := plan_object hplan
  refine ⟨d, Name.ofReference superRef, branch, hd, hextends.1,
    (ObjectPlan.isCircular_iff ho _).1 hcircular, ?_⟩
  rw [← ho.name]
  exact hd.raises (raises_of_isCircular hplan hreturns hbranch href hcircular)

/-- Nothing is left of a definition that extends itself once its base class is left out. -/
theorem kindFound_of_extends_itself {document : Members} {branch : Json}
    (h : IsBase document (refTo ref) branch) (href : baseRef (some branch) = .str ref) :
    kindFound document (refTo ref) = .ok .void := by
  obtain ⟨followed, hfollowed, hbranch⟩ := h
  have hleft : whole.ref? (.str ref) [(refKey, .str ref)] = none := by
    simp [Mode.ref?, Members.get, get?, Json.same]
  have hresolved : flatten document (refTo ref) (.str ref) = .ok [] :=
    resolve_of_isPlain hleft fun _ => isPlain_ref ref
  have hsettle : settle document (refTo ref) = .ok (some branch, []) :=
    settle_eq_ok.2 ⟨followed, hfollowed, hbranch, href ▸ hresolved⟩
  exact kindFound_of_settle hsettle

theorem infer_of_extends_itself {branch : Json} (h : IsBase s.document (refTo ref) branch)
    (href : baseRef (some branch) = .str ref) : infer s name (refTo ref) = .ok (void s) :=
  infer_of_kindFound_void (kindFound_of_extends_itself h href)

/-- What becomes of a definition whose base classes come back to one of them: it has a type
exactly if inference comes to a base class that is no object without its own base class and that
returns; it is rejected if all classes on the way are objects with properties that return; and
it is void if it extends itself. -/
theorem outcome_of_comesBack (name : String) (h : ComesBack s.document (refTo ref)) :
    ((∃ r, Returns s ⟨⟨[], []⟩, name, refTo ref⟩ r) ↔
      ∃ d r, Climbs s ⟨⟨[], []⟩, name, refTo ref⟩ d ∧
        kindFound s.document d.schema ≠ .ok .object ∧ Returns s d r) ∧
    ((∀ d, Climbs s ⟨⟨[], []⟩, name, refTo ref⟩ d → BuildsProperties s d) →
      ∃ d superclass branch, Climbs s ⟨⟨[], []⟩, name, refTo ref⟩ d ∧
        IsBase s.document d.schema branch ∧ superclass ∈ d.line ∧
        Raises s ⟨⟨[], []⟩, name, refTo ref⟩
          (.unsupported (.circularInheritance d.ownName superclass) branch)) ∧
    ∀ branch, IsBase s.document (refTo ref) branch → baseRef (some branch) = .str ref →
      infer s name (refTo ref) = .ok (void s) :=
  ⟨returns_iff_of_comesBack h, raises_of_comesBack h, fun _ => infer_of_extends_itself⟩

end

/-! ## Two classes that extend each other -/

/-- A class without properties of its own that extends another one. -/
def extendingMembers (ref : String) : Members :=
  [("type", .str "object"), ("properties", .obj []), ("allOf", .arr [refTo ref])]

def chickenRef : Json := refTo "#/definitions/Chicken"

def eggRef : Json := refTo "#/definitions/Egg"

def poultryDocument : Document where
  members :=
    [("definitions", .obj [("Chicken", .obj (extendingMembers "#/definitions/Egg")),
      ("Egg", .obj (extendingMembers "#/definitions/Chicken"))])]

def poultry : Setting := ⟨poultryDocument, Language.swiftTypes⟩

def poultryPlan (name base : String) (trail : Trail) : ObjectPlan where
  trail := trail
  name := name
  specName := .text name
  schema := [("type", .str "object"), ("properties", .obj [])]
  required := []
  properties := []
  branch := some (refTo base)

def chickenCall : Call := ⟨⟨[], []⟩, "", chickenRef⟩

def chickenPlan : ObjectPlan := poultryPlan "Chicken" "#/definitions/Egg" ⟨["Chicken"], []⟩

def eggCall : Call := chickenPlan.baseCall "#/definitions/Egg" eggRef

def eggPlan : ObjectPlan :=
  poultryPlan "Egg" "#/definitions/Chicken" ⟨["Egg", "Chicken"], ["Chicken"]⟩

theorem plan_chickenCall : plan poultry chickenCall = .ok (.object chickenPlan) := by
  rfl

theorem plan_eggCall : plan poultry eggCall = .ok (.object eggPlan) := by
  rfl

theorem extendsRef_of_plan {s : Setting} {c : Call} {o : ObjectPlan}
    (hplan : plan s c = .ok (.object o)) {ref : String} (hbranch : o.branch = some (refTo ref)) :
    ExtendsRef s.document c.schema (refTo ref) :=
  ⟨(isBase_iff_of_settle (plan_object hplan).settled).2 hbranch, ref, rfl⟩

theorem comesBack_chickenRef : ComesBack poultryDocument chickenRef :=
  ⟨chickenRef, chickenRef, .refl,
    .tail (.single (extendsRef_of_plan plan_chickenCall rfl)) (extendsRef_of_plan plan_eggCall rfl), rfl⟩

/-- Inference comes from the one class to the other and no further. -/
theorem eq_of_climbs_chickenCall {d : Call} (h : Climbs poultry chickenCall d) :
    d = chickenCall ∨ d = eggCall := by
  induction h with
  | refl => exact .inl rfl
  | tail _ hclimb ih =>
    rcases ih with rfl | rfl
    · exact .inr (hclimb.eq_baseCall plan_chickenCall rfl rfl).1
    · exact absurd (by decide) (hclimb.eq_baseCall plan_eggCall rfl rfl).2

theorem buildsProperties_of_climbs_chickenCall {d : Call} (h : Climbs poultry chickenCall d) :
    BuildsProperties poultry d := by
  rcases eq_of_climbs_chickenCall h with rfl | rfl
  · exact ⟨chickenPlan, plan_chickenCall, List.forall_mem_nil _⟩
  · exact ⟨eggPlan, plan_eggCall, List.forall_mem_nil _⟩

theorem raises_chickenCall : ComesBack poultryDocument chickenRef ∧
    ∃ d superclass branch, Climbs poultry chickenCall d ∧
      IsBase poultryDocument d.schema branch ∧ superclass ∈ d.line ∧
      Raises poultry chickenCall
        (.unsupported (.circularInheritance d.ownName superclass) branch) :=
  ⟨comesBack_chickenRef, (outcome_of_comesBack (s := poultry) "" comesBack_chickenRef).2.1
    fun _ => buildsProperties_of_climbs_chickenCall⟩

/-! ## A class that extends itself -/

def selfRef : Json := refTo "#/definitions/Self"

def selfDocument : Document where
  members := [("definitions", .obj [("Self", .obj (extendingMembers "#/definitions/Self"))])]

theorem isBase_selfRef : IsBase selfDocument selfRef selfRef :=
  ⟨extendingMembers "#/definitions/Self", by cbv, rfl⟩

/-- A class that extends itself is not rejected. -/
theorem infer_selfRef : ComesBack selfDocument selfRef ∧
    infer ⟨selfDocument, Language.swiftTypes⟩ "" selfRef = .ok ⟨⟨"Void", none⟩, []⟩ :=
  ⟨⟨selfRef, selfRef, .refl, .single ⟨isBase_selfRef, _, rfl⟩, rfl⟩,
    infer_of_extends_itself isBase_selfRef rfl⟩

end Inference

end ClientForge
