-- SUMMARY: The schemas that inferring a schema leads to, whatever is under construction.
import ClientForge.Proofs.Inference.Closed

/-!
# Schemas that a schema comes to

A schema leads to the items of an array, the values of a map, and the properties and the
base branch of an object, once it is settled (`LeadsTo`). Which calls are made for them
depends on the way, but every nested call is for a schema that the schema of its caller
leads to (`Nested.leadsTo`). A call that follows its schema and returns has made one for
each object that the schema leads to (`LeadsTo.exists_nested`), so an object that the schema
comes to is followed by some call, unless another one of the same class name is on the way
(`exists_followed`).
-/

namespace ClientForge

namespace Inference

open Members Outcome Schema

/-- A schema that inferring another one leads to. -/
inductive LeadsTo (document : Members) (schema : Json) : Json → Prop
  | items {branch : Option Json} {resolved : Members} {items : Json}
    (hsettle : settle document schema = .ok (branch, resolved))
    (hkind : Schema.kind resolved = .ok .array) (hget : get? resolved "items" = some items) :
    LeadsTo document schema items
  | value {branch : Option Json} {resolved : Members} {value : Json}
    (hsettle : settle document schema = .ok (branch, resolved))
    (hkind : Schema.kind resolved = .ok .map)
    (hget : get? resolved "additionalProperties" = some value) : LeadsTo document schema value
  | property {branch : Option Json} {resolved properties : Members} {m : Key × Json}
    (hsettle : settle document schema = .ok (branch, resolved))
    (hkind : Schema.kind resolved = .ok .object)
    (hproperties : propertySchemas resolved = .ok properties) (hm : m ∈ properties) :
    LeadsTo document schema m.2
  | base {branch : Json} {resolved : Members}
    (hsettle : settle document schema = .ok (some branch, resolved))
    (hkind : Schema.kind resolved = .ok .object) : LeadsTo document schema branch

/-- The schemas that a schema leads to, directly or not, itself included. -/
def ComesTo (document : Members) : Json → Json → Prop := Relation.ReflTransGen (LeadsTo document)

theorem LeadsTo.preserves {P : Json → Prop} (hP : Stable P) {document : Members}
    {schema schema' : Json} (hdoc : P (.obj document)) (hschema : P schema)
    (h : LeadsTo document schema schema') : P schema' := by
  have hresolved : ∀ {branch resolved}, settle document schema = .ok (branch, resolved) →
      P (.obj resolved) := fun hsettle => hP.resolve hdoc hschema (flatten_of_settle hsettle)
  cases h with
  | items hsettle _ hget => exact hP.lookup (hresolved hsettle) hget
  | value hsettle _ hget => exact hP.lookup (hresolved hsettle) hget
  | property hsettle _ hproperties hm =>
    exact (within_of_propertySchemas hproperties hm).preserves hP.toHereditary (hresolved hsettle)
  | base hsettle => exact ((isBase_iff_of_settle hsettle).2 rfl).preserves hP hdoc hschema

theorem ComesTo.preserves {P : Json → Prop} (hP : Stable P) {document : Members}
    {schema schema' : Json} (hdoc : P (.obj document)) (hschema : P schema)
    (h : ComesTo document schema schema') : P schema' := by
  induction h with
  | refl => exact hschema
  | tail _ hstep ih => exact hstep.preserves hP hdoc ih

section
variable {document resolved : Members} {schema v : Json} {branch : Option Json}

theorem LeadsTo.of_object (h : LeadsTo document schema v)
    (hsettle : settle document schema = .ok (branch, resolved))
    (hkind : Schema.kind resolved = .ok .object) :
    branch = some v ∨
      ∃ properties m, propertySchemas resolved = .ok properties ∧ m ∈ properties ∧ m.2 = v := by
  cases h with
  | items hsettle' hkind' =>
    cases hsettle.symm.trans hsettle'
    cases hkind.symm.trans hkind'
  | value hsettle' hkind' =>
    cases hsettle.symm.trans hsettle'
    cases hkind.symm.trans hkind'
  | property hsettle' _ hproperties hm =>
    cases hsettle.symm.trans hsettle'
    exact .inr ⟨_, _, hproperties, hm, rfl⟩
  | base hsettle' =>
    cases hsettle.symm.trans hsettle'
    exact .inl rfl

theorem LeadsTo.of_array (h : LeadsTo document schema v)
    (hsettle : settle document schema = .ok (branch, resolved))
    (hkind : Schema.kind resolved = .ok .array) : get? resolved "items" = some v := by
  cases h with
  | items hsettle' _ hget =>
    cases hsettle.symm.trans hsettle'
    exact hget
  | value hsettle' hkind' | property hsettle' hkind' | base hsettle' hkind' =>
    cases hsettle.symm.trans hsettle'
    cases hkind.symm.trans hkind'

theorem not_leadsTo_of_primitive (hsettle : settle document schema = .ok (branch, resolved))
    (hkind : Schema.kind resolved = .ok .primitive) : ¬ LeadsTo document schema v := by
  intro h
  cases h with
  | items hsettle' hkind' | value hsettle' hkind' | property hsettle' hkind' | base hsettle' hkind' =>
    cases hsettle.symm.trans hsettle'
    cases hkind.symm.trans hkind'

end

/-- A call is nested for a schema that the schema of its caller leads to. -/
theorem Nested.leadsTo {s : Setting} {c d : Call} (h : Nested s c d) :
    LeadsTo s.document c.schema d.schema := by
  cases h with
  | inner hplan =>
    rcases plan_eq_ok hplan with ⟨-, hp⟩ | ⟨n, -, hp⟩ | ⟨-, branch, resolved, kind, hsettle, hkind, hp⟩
    · cases hp
    · cases hp
    · rcases (planOfKind_container hp).1 with rfl | rfl
      · simp only [planOfKind] at hp
        split at hp
        · rename_i hget
          cases hp
          exact .items hsettle hkind (get?_of_get_obj hget)
        · cases hp
      · simp only [planOfKind] at hp
        split at hp
        · rename_i hget
          cases hp
          exact .value hsettle hkind (get?_of_get_obj hget)
        · cases hp
  | @property o before after m spoken hplan hsplit =>
    have ho := plan_object hplan
    have hm : m ∈ o.properties := by simp [hsplit]
    exact .property ho.settled ho.kind ho.properties hm
  | base hplan _ hbranch =>
    have ho := plan_object hplan
    exact .base (hbranch ▸ ho.settled) ho.kind

theorem Reaches.comesTo {s : Setting} {c d : Call} (h : Reaches s c d) :
    ComesTo s.document c.schema d.schema := by
  induction h with
  | refl => exact .refl
  | tail _ hnested ih => exact ih.tail hnested.leadsTo

/-! ## From schemas to calls -/

/-- The name of the class that a schema stands for because it is a reference. -/
def classNameOf (schema : Json) : Option String := (⟨⟨[], []⟩, "", schema⟩ : Call).className?

section
variable {s : Setting} {c : Call} {r : Inferred} {v : Json} {m : Key × Json} {ms : Members}

/-- Only an object with members leads to a schema. -/
theorem LeadsTo.exists_members {document : Members} {schema : Json} (h : LeadsTo document schema v) :
    ∃ m ms, schema = .obj (m :: ms) := by
  have hsettled : ∀ {branch resolved kind}, settle document schema = .ok (branch, resolved) →
      Schema.kind resolved = .ok kind → kind ≠ .void → ∃ m ms, schema = .obj (m :: ms) := by
    intro branch resolved kind hsettle hkind hne
    obtain ⟨ms, rfl⟩ := exists_members_of_resolve (flatten_of_settle hsettle)
    cases ms with
    | nil =>
      have hempty : settle document (.obj []) = .ok (none, []) := settle_of_isPlain rfl nofun
      cases hempty.symm.trans hsettle
      cases hkind
      exact absurd rfl hne
    | cons m ms => exact ⟨m, ms, rfl⟩
  cases h with
  | items hsettle hkind | value hsettle hkind | property hsettle hkind | base hsettle hkind =>
    exact hsettled hsettle hkind nofun

/-- A call that follows its schema and returns makes a call for each object that it leads to. -/
theorem LeadsTo.exists_nested (h : LeadsTo s.document c.schema v) (hv : v = .obj (m :: ms))
    (hr : Returns s c r) (hfresh : ∀ n, ¬ c.IsPlaceholder n) : ∃ d, Nested s c d ∧ d.schema = v := by
  have hobject : ∀ {branch resolved}, settle s.document c.schema = .ok (branch, resolved) →
      Schema.kind resolved = .ok .object → ∃ o parts base, plan s c = .ok (.object o) ∧
        o.branch = branch ∧ propertySchemas resolved = .ok o.properties ∧
        List.Forall₂ (o.Contributed s) o.properties parts ∧ o.Inherits s base := by
    intro branch resolved hsettle hkind
    obtain ⟨p, hplan⟩ := exists_plan_of_returns hr
    obtain ⟨o, rfl, ho⟩ := plan_of_object ((kindFound_of_settle hsettle).trans hkind) hfresh hplan
    obtain ⟨parts, base, hparts, hbase, -⟩ := hr.object hplan
    cases ho.settled.symm.trans hsettle
    exact ⟨o, parts, base, hplan, rfl, ho.properties, hparts, hbase⟩
  cases h with
  | items hsettle hkind hget =>
    obtain ⟨branch', resolved', hsettle', -, hplan⟩ :=
      plan_of_kindFound ((kindFound_of_settle hsettle).trans hkind) hfresh
    cases hsettle.symm.trans hsettle'
    simp only [planOfKind, Members.get, hget, hv, Option.getD_some] at hplan
    exact ⟨_, .inner hplan, hv.symm⟩
  | value hsettle hkind hget =>
    obtain ⟨branch', resolved', hsettle', -, hplan⟩ :=
      plan_of_kindFound ((kindFound_of_settle hsettle).trans hkind) hfresh
    cases hsettle.symm.trans hsettle'
    simp only [planOfKind, Members.get, hget, hv, Option.getD_some] at hplan
    exact ⟨_, .inner hplan, hv.symm⟩
  | property hsettle hkind hproperties hm =>
    obtain ⟨o, parts, base, hplan, -, hproperties', hparts, -⟩ := hobject hsettle hkind
    cases hproperties.symm.trans hproperties'
    obtain ⟨part, -, spoken, found, hspoken, -, -⟩ := exists_of_mem_left hparts hm
    exact ⟨_, nested_property hplan hparts hm hspoken, rfl⟩
  | base hsettle hkind =>
    obtain ⟨o, parts, base, hplan, hbranch, -, hparts, hbase⟩ := hobject hsettle hkind
    rcases hbase with ⟨hnone, -⟩ | ⟨branch, ref, found, hb, href, hcircular, -, -⟩
    · cases hbranch.symm.trans hnone
    · cases hbranch.symm.trans hb
      exact ⟨_, nested_base hplan hparts hb href hcircular, rfl⟩

theorem leadsTo_of_transGen {c d : Call} (h : Relation.TransGen (Nested s) c d) :
    Relation.TransGen (LeadsTo s.document) c.schema d.schema := by
  induction h with
  | single h => exact .single h.leadsTo
  | tail _ h ih => exact ih.tail h.leadsTo

/-- An object that a schema comes to is followed by some call, if no other one of the same class
name is on the way to it. -/
theorem exists_followed (hstart : c.trail.visiting = []) (hr : Returns s c r)
    (hone : ∀ v w n, ComesTo s.document c.schema v → classNameOf v = some n → classNameOf w = some n →
      Relation.TransGen (LeadsTo s.document) v w → w = v)
    (h : ComesTo s.document c.schema v) (hv : v = .obj (m :: ms)) :
    ∃ d, Reaches s c d ∧ d.schema = v ∧ ∀ n, ¬ d.IsPlaceholder n := by
  induction h generalizing m ms with
  | refl =>
    refine ⟨c, .refl, rfl, fun n hn => ?_⟩
    have hmem := hn.2
    rw [hstart] at hmem
    cases hmem
  | tail _ hstep ih =>
    obtain ⟨m', ms', hu⟩ := hstep.exists_members
    obtain ⟨d, hd, rfl, hfresh⟩ := ih hu
    obtain ⟨rd, hrd⟩ := hd.returns hr
    obtain ⟨e, hnested, rfl⟩ := hstep.exists_nested hv hrd hfresh
    by_cases hplaceholder : ∃ n, e.IsPlaceholder n
    · -- The class is being built by a call further out, which follows the same schema.
      obtain ⟨n, hclass, hmem⟩ := hplaceholder
      obtain ⟨e', he', hchain, hclass'⟩ := exists_enclosing hstart (hd.tail hnested) hmem
      obtain ⟨x, hinner, -⟩ := Relation.TransGen.head'_iff.1 hchain
      refine ⟨e', he', ?_, hinner.fresh⟩
      exact (hone e'.schema e.schema n he'.comesTo hclass' hclass (leadsTo_of_transGen hchain)).symm
    · exact ⟨e, hd.tail hnested, rfl, not_exists.1 hplaceholder⟩

end

end Inference

end ClientForge
