-- SUMMARY: More fuel changes no answer of inference, and nothing but nested calls can run out of it.
import ClientForge.Proofs.Inference.Plan

/-!
# Fuel

Planning never fails for want of fuel (`settled_plan`), so inference runs out only
where the schemas it follows into each other do not end. An answer found with some
fuel is the answer with any more of it (`below_inferWith`). Hence a call ends, with one
answer for all sufficient fuel, as soon as there is fuel with which it is settled
(`ends_iff`), and returns at most one result (`Returns.unique`).
-/

namespace ClientForge

namespace Inference

open Outcome

/-! ## Planning is settled -/

theorem settled_text (v : Json) : Settled v.text := by cases v <;> simp [Json.text]

theorem settled_entries (v : Json) : Settled v.entries := by cases v <;> simp [Json.entries]

theorem settled_members (v : Json) : Settled v.members := by cases v <;> simp [Json.members]

theorem settled_shown (v : Json) : Settled v.shown := by
  simp only [Json.shown]
  split <;> simp

theorem settled_settle (document : Members) (schema : Json) : Settled (settle document schema) := by
  have hbase : ∀ followed, Settled (baseSchema? followed) := by
    intro followed
    simp only [baseSchema?]
    split
    · exact (settled_entries _).bind fun entries _ => settled_ok _
    · exact settled_ok _
  refine (Schema.settled_resolve _ _).bind fun followed _ => (hbase followed).bind fun branch _ => ?_
  exact (Schema.settled_resolve _ _).bind fun resolved _ => settled_ok _

theorem settled_kind (ms : Members) : Settled (Schema.kind ms) := by
  have htype : Settled (Schema.type? ms) := by
    simp only [Schema.type?]
    split <;> simp
  simp only [Schema.kind]
  split
  · simp
  · exact htype.bind fun type _ => settled_ok _

theorem settled_primitive (t : TypeTable) (type : Option String) (format : Json) :
    Settled (t.primitive type format) := by
  simp only [TypeTable.primitive]
  split
  · exact settled_ok _
  · simp only [TypeTable.pick]
    split
    · exact settled_ok _
    · refine (Schema.settled_key _).bind fun v _ => ?_
      cases v <;> exact settled_ok _
  · simp
  · simp

theorem settled_ofEnumeration (s : Setting) (schema : Members) (name : String) :
    Settled (ofEnumeration s schema name) := by
  refine (settled_text _).bind fun type _ => (settled_primitive _ _ _).bind fun enumType _ => ?_
  refine (settled_entries _).bind fun entries _ => (settled_mapM fun value _ => ?_).bind fun cases _ =>
    settled_ok _
  exact (settled_shown _).bind fun shown _ => settled_ok _

theorem settled_ofPrimitive (s : Setting) (schema : Members) : Settled (ofPrimitive s schema) := by
  have hformat : ∀ type format, Settled (preservedFormat type format) := by
    intro type format
    simp only [preservedFormat]
    split
    · exact settled_ok _
    · split
      · exact settled_ok _
      · refine (Schema.settled_key _).bind fun v _ => ?_
        cases v <;> exact settled_ok _
  have herror : ∀ {x : Except Failure String}, Settled x →
      Settled (x.mapError (aboutSchema schema)) := by
    intro x hx
    cases x with
    | ok a => exact settled_ok a
    | error e =>
      cases e with
      | tooDeep => exact absurd rfl hx
      | _ => simp [Except.mapError, aboutSchema]
  refine (settled_text _).bind fun type _ => (herror (settled_primitive _ _ _)).bind fun name _ => ?_
  exact (hformat _ _).bind fun format _ => settled_ok _

theorem settled_map {α β : Type} {x : Except Failure α} (f : α → β) (hx : Settled x) :
    Settled (f <$> x) := by
  cases x with
  | ok a => exact settled_ok _
  | error e => exact fun h => hx (by simpa [Functor.map, Except.map] using h)

theorem settled_planOfKind (s : Setting) (trail : Trail) (name : String) (specName : Key)
    (branch : Option Json) (resolved : Members) (kind : Schema.Kind) :
    Settled (planOfKind s trail name specName branch resolved kind) := by
  cases kind with
  | enumeration => exact settled_map _ (settled_ofEnumeration s resolved name)
  | array =>
    simp only [planOfKind]
    split <;> simp
  | object =>
    have hrequired : Settled (requiredNames resolved) := by
      simp only [requiredNames]
      split
      · exact settled_mapM fun v _ => Schema.settled_key v
      · exact settled_ok _
    have hproperties : Settled (propertySchemas resolved) := by
      simp only [propertySchemas]
      split
      · exact settled_members _
      · exact settled_ok _
    exact hrequired.bind fun required _ => hproperties.bind fun properties _ => settled_ok _
  | map =>
    simp only [planOfKind]
    split <;> exact settled_ok _
  | void => exact settled_ok _
  | primitive => exact settled_map _ (settled_ofPrimitive s resolved)

theorem settled_planNamed (s : Setting) (trail : Trail) (name : String) (specName : Key)
    (schema : Json) : Settled (planNamed s trail name specName schema) :=
  (settled_settle _ _).bind fun _ _ => (settled_kind _).bind fun kind _ =>
    settled_planOfKind s trail name specName _ _ kind

theorem settled_plan (s : Setting) (c : Call) : Settled (plan s c) := by
  obtain ⟨trail, name, schema⟩ := c
  cases schema with
  | obj ms =>
    cases ms with
    | nil => exact settled_ok _
    | cons m ms =>
      simp only [plan]
      split
      · refine (settled_text _).bind fun ref _ => ?_
        split
        · exact settled_ok _
        · exact settled_planNamed _ _ _ _ _
      · exact settled_planNamed _ _ _ _ _
  | _ =>
    simp only [plan]
    split <;> simp

/-! ## More fuel -/

section
variable {s : Setting}

theorem below_run {f g : Recur} (h : ∀ c, Below (f.at c) (g.at c)) (p : Plan) :
    Below (p.run s f) (p.run s g) := by
  cases p with
  | done found => exact .refl _
  | container kind inner => exact (h inner).bind fun found => .refl _
  | object o =>
    have hproperty : ∀ m, Below (ofProperty f o.trail.visiting o.name o.required m)
        (ofProperty g o.trail.visiting o.name o.required m) := fun m =>
      (Below.refl _).bind fun spoken => (h (o.propertyCall spoken m.2)).bind fun found => .refl _
    have hbase : Below (ofBase f o.trail o.name o.branch) (ofBase g o.trail o.name o.branch) := by
      cases o.branch with
      | none => exact .refl _
      | some branch =>
        rw [ObjectPlan.ofBase_some, ObjectPlan.ofBase_some]
        refine (Below.refl _).bind fun ref => ?_
        split
        · exact .refl _
        · exact (h (o.baseCall ref branch)).bind fun found => .refl _
    exact (below_mapM hproperty o.properties).bind fun parts => hbase.bind fun base => .refl _

theorem below_inferWith_succ (fuel : Nat) (c : Call) :
    Below ((inferWith s fuel).at c) ((inferWith s (fuel + 1)).at c) := by
  induction fuel generalizing c with
  | zero => exact below_tooDeep _
  | succ fuel ih =>
    rw [inferWith_succ, inferWith_succ]
    exact (Below.refl _).bind fun p => below_run ih p

/-- An answer found with some fuel is found with more of it. -/
theorem below_inferWith {fuel more : Nat} (hle : fuel ≤ more) (c : Call) :
    Below ((inferWith s fuel).at c) ((inferWith s more).at c) := by
  induction hle with
  | refl => exact .refl _
  | step hle ih =>
    intro h
    have heq := ih h
    exact heq.trans (below_inferWith_succ _ c (heq ▸ h))

/-- A call has a result, found with some fuel. -/
def Returns (s : Setting) (c : Call) (r : Inferred) : Prop :=
  ∃ fuel, (inferWith s fuel).at c = .ok r

/-- A call has one answer, a result or a failure, for all sufficient fuel. -/
def Ends (s : Setting) (c : Call) : Prop :=
  ∃ answer, Settled answer ∧ ∃ fuel, ∀ more ≥ fuel, (inferWith s more).at c = answer

theorem returns_of_le {c : Call} {r : Inferred} {fuel more : Nat} (hle : fuel ≤ more)
    (h : (inferWith s fuel).at c = .ok r) : (inferWith s more).at c = .ok r := by
  have hbelow := below_inferWith (s := s) hle c
  rw [h] at hbelow
  exact (hbelow (settled_ok r)).symm

theorem Returns.unique {c : Call} {r r' : Inferred} (h : Returns s c r) (h' : Returns s c r') :
    r = r' := by
  obtain ⟨fuel, h⟩ := h
  obtain ⟨fuel', h'⟩ := h'
  have hmax := returns_of_le (Nat.le_max_left fuel fuel') h
  have hmax' := returns_of_le (Nat.le_max_right fuel fuel') h'
  exact Except.ok.inj (hmax.symm.trans hmax')

theorem ends_iff {c : Call} : Ends s c ↔ ∃ fuel, Settled ((inferWith s fuel).at c) := by
  constructor
  · rintro ⟨answer, hsettled, fuel, h⟩
    exact ⟨fuel, h fuel (Nat.le_refl _) ▸ hsettled⟩
  · rintro ⟨fuel, h⟩
    exact ⟨_, h, fuel, fun more hle => (below_inferWith hle c h).symm⟩

end

end Inference

end ClientForge
