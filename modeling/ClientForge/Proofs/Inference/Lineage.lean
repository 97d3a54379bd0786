-- SUMMARY: Which call builds a class, and that its base class is built by a call further up the same line.
import ClientForge.Proofs.Inference.Closed

/-!
# Lines of classes

Every class of a result, however deep it is nested, is built by some call (`builtBy_of_returns`).
If the schemas that classes extend are objects, the superclass of a class is built by the call
for its base branch, which has the class in its line: the superclass is among the models of
the result, hands down what the class inherits, and is not in the line yet
(`BuiltAt.exists_base`).
-/

namespace ClientForge

/-- A model among some others or nested in one of them at any depth. -/
inductive Occurs (models : List Model) : Model → Prop
  | top {m : Model} (h : m ∈ models) : Occurs models m
  | nested {m owner : Model} (h : Occurs models owner) (hm : m ∈ owner.nested) : Occurs models m

namespace Inference

open Members Outcome Schema

/-! ## Classes at any depth -/

/-- A model whose classes, itself and those nested in it, all have some property. -/
inductive AllClasses (P : ClassHead → Prop) : Model → Prop
  | object {head : ClassHead} {nested : List Model} (hhead : P head)
    (hnested : ∀ m ∈ nested, AllClasses P m) : AllClasses P (.object head nested)
  | enumeration (e : EnumModel) : AllClasses P (.enumeration e)

theorem AllClasses.mono {P P' : ClassHead → Prop} {m : Model} (h : AllClasses P m)
    (hP : ∀ head, P head → P' head) : AllClasses P' m := by
  induction h with
  | object hhead _ ih => exact .object (hP _ hhead) ih
  | enumeration e => exact .enumeration e

theorem AllClasses.of_occurs {P : ClassHead → Prop} {models : List Model} {m : Model}
    (hall : ∀ m ∈ models, AllClasses P m) (h : Occurs models m) : AllClasses P m := by
  induction h with
  | top h => exact hall _ h
  | nested _ hm ih =>
    cases ih with
    | object _ hnested => exact hnested _ hm
    | enumeration => cases hm

/-- A class that a call builds from its properties and its base class. -/
def BuiltAt (s : Setting) (d : Call) (head : ClassHead) : Prop :=
  ∃ x : Making s, x.call = d ∧ x.head = head

/-- The call for the base class of a class that is made, and what it hands down. -/
structure Making.Asks {s : Setting} (x : Making s) (branch : Json) (ref : String) (found : Inferred) :
    Prop where
  planned : x.plan.branch = some branch
  referred : (baseRef (some branch)).text = .ok ref
  acyclic : ¬ x.plan.IsCircular (Name.ofReference ref)
  nested : Nested s x.call (x.plan.baseCall ref branch)
  returns : Returns s (x.plan.baseCall ref branch) found
  superclass : x.head.superclass = some (Name.ofReference ref)
  inherited : x.head.inherited = handedDown found.models

/-- A class that is made extends nothing, or there is a call for its base class. -/
theorem Making.root_or_asks {s : Setting} (x : Making s) :
    x.plan.branch = none ∧ x.head.superclass = none ∧ x.head.inherited = [] ∨
      ∃ branch ref found, x.Asks branch ref found := by
  obtain ⟨d, o, parts, base, hplan, hparts, hbase⟩ := x
  have hcases := hbase
  rcases hcases with ⟨hnone, rfl⟩ | ⟨branch, ref, found, hb, href, hcircular, hfound, rfl⟩
  · exact .inl ⟨hnone, rfl, rfl⟩
  · exact .inr ⟨branch, ref, found, hb, href, hcircular,
      nested_base hplan hparts hb href hcircular, hfound, rfl, rfl⟩

/-- The schemas that classes extend, on the way from a call, are objects. -/
def ExtendsObjects (s : Setting) (c : Call) : Prop :=
  ∀ branch ref, BuildsOn s c branch ref → kindFound s.document branch = .ok .object

section
variable {s : Setting} {c d : Call} {r : Inferred} {head : ClassHead}

/-- Every class of a result is built by a call that is reached. -/
theorem builtBy_of_returns (h : Returns s c r) :
    ∀ m ∈ r.models, AllClasses (fun head => ∃ d, Reaches s c d ∧ BuiltAt s d head) m := by
  refine forall_models_of_returns ?_ ?_ .refl h
  · intro d found _ hplan
    rcases models_of_done hplan with hnone | ⟨_, resolved, -, henum⟩
    · simp [hnone]
    · obtain ⟨e, -, rfl⟩ := exists_enumeration henum
      intro m hm
      rw [List.mem_singleton.1 hm]
      exact .enumeration e
  · intro d o parts base hd hplan hparts hbase hnested
    exact .object ⟨d, hd, ⟨d, o, parts, base, hplan, hparts, hbase⟩, rfl, rfl⟩ hnested

/-! ## What a class takes -/

theorem BuiltAt.initializer (h : BuiltAt s d head) :
    head.initializer = head.properties ++ head.inherited := by
  obtain ⟨x, -, rfl⟩ := h
  rfl

/-- No property of a class repeats an inherited one. -/
theorem BuiltAt.not_sameShape (h : BuiltAt s d head) :
    ∀ p ∈ head.properties, ∀ q ∈ head.inherited, p.sameShape q = false := by
  obtain ⟨x, -, rfl⟩ := h
  intro p hp q hq
  have hnone := (List.mem_filter.1 hp).2
  rw [Bool.not_eq_true', List.any_eq_false] at hnone
  exact Bool.eq_false_iff.2 (hnone q hq)

theorem BuiltAt.inherited_of_none (h : BuiltAt s d head) (hnone : head.superclass = none) :
    head.inherited = [] := by
  obtain ⟨x, -, rfl⟩ := h
  rcases x.root_or_asks with ⟨-, -, hinherited⟩ | ⟨_, _, _, hasks⟩
  · exact hinherited
  · cases hnone.symm.trans hasks.superclass

theorem BuiltAt.name_eq (h : BuiltAt s d head) : head.name = some d.ownName := by
  obtain ⟨x, rfl, rfl⟩ := h
  rw [← (plan_object x.planned).name]
  rfl

/-- A superclass that is an object is among the models of the result, hands down what is
inherited, and is built by a call with the class in its line. -/
theorem BuiltAt.exists_base (hschema : c.schema.WellFormed) (hc : Returns s c r)
    (hbases : ExtendsObjects s c) (hd : Reaches s c d) (h : BuiltAt s d head) {superclass : String}
    (hsuperclass : head.superclass = some superclass) :
    ∃ e base nested, Reaches s c e ∧ BuiltAt s e base ∧ .object base nested ∈ r.models ∧
      base.name = some superclass ∧ head.inherited = base.properties ++ base.inherited ∧
      e.trail.lineage = d.line ∧ superclass ∉ d.line := by
  obtain ⟨x, rfl, rfl⟩ := h
  have ho := plan_object x.planned
  rcases x.root_or_asks with ⟨-, hnone, -⟩ | ⟨branch, ref, found, hasks⟩
  · cases hnone.symm.trans hsuperclass
  · obtain rfl : Name.ofReference ref = superclass :=
      Option.some.inj (hasks.superclass.symm.trans hsuperclass)
    have hline : x.plan.trail.lineage ++ [x.plan.name] = x.call.line := by
      rw [ho.trail, ho.name, Call.line]
    have hreaches : Reaches s c (x.plan.baseCall ref branch) := hd.tail hasks.nested
    have hkind : kindFound s.document branch = .ok .object := by
      refine hbases branch ref
        ⟨x.call, hd, ho.fresh, ?_, (isBase_iff_of_settle ho.settled).2 hasks.planned, hasks.referred⟩
      rw [kindFound_of_settle ho.settled, ho.kind]
    obtain ⟨p, hplan⟩ := exists_plan_of_returns hasks.returns
    obtain ⟨o, rfl, -⟩ := plan_of_object hkind (x.plan.baseCall_fresh hasks.referred) hplan
    obtain ⟨parts, base, hparts, hbase, rfl⟩ := hasks.returns.object hplan
    have hbuilt : BuiltAt s (x.plan.baseCall ref branch) (o.head parts base) :=
      ⟨⟨_, o, parts, base, hplan, hparts, hbase⟩, rfl, rfl⟩
    have hmodels := models_of_reaches hschema hreaches hc hasks.returns
      (isInlineObject_of_baseRef hasks.referred)
    refine ⟨_, _, _, hreaches, hbuilt, hmodels _ List.mem_cons_self, ?_, hasks.inherited, hline, ?_⟩
    · rw [hbuilt.name_eq, ownName_baseCall x.plan hasks.referred]
    · rw [← hline, List.mem_append, List.mem_singleton]
      exact fun h => hasks.acyclic h.symm

end

end Inference

end ClientForge
