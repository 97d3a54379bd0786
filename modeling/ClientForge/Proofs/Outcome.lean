-- SUMMARY: Computations that may fail: when a sequence succeeds, when two runs agree, and when fuel runs out.
import Mathlib.Data.List.Forall2
import ClientForge.Failure

/-!
# Outcomes

A sequence of computations succeeds when each of them does (`bind_eq_ok`,
`mapM_eq_ok`). `Both R` relates two runs that succeed together, with results that `R`
relates, or fail together; sequences of related computations are related. A computation is
settled when it does not fail for want of fuel; `Below x y` says that `y` is `x` with more
fuel, and so the same unless `x` ran out.
-/

namespace ClientForge

namespace Outcome

/-! ## Success -/

section
variable {ε α β : Type}

@[simp] theorem ok_bind (a : α) (f : α → Except ε β) : (.ok a >>= f) = f a := rfl

@[simp] theorem error_bind (e : ε) (f : α → Except ε β) : (.error e >>= f) = .error e := rfl

@[simp] theorem pure_eq (a : α) : (pure a : Except ε α) = .ok a := rfl

theorem bind_eq_ok {x : Except ε α} {f : α → Except ε β} {b : β} :
    (x >>= f) = .ok b ↔ ∃ a, x = .ok a ∧ f a = .ok b := by
  cases x with
  | error e => simp
  | ok a => simp

theorem map_eq_ok {x : Except ε α} {f : α → β} {b : β} :
    f <$> x = .ok b ↔ ∃ a, x = .ok a ∧ f a = b := by
  cases x with
  | error e => simp [Functor.map, Except.map]
  | ok a => simp [Functor.map, Except.map]

/-- A computation whose result can be tested has one that passes. -/
theorem exists_ok_of_any {x : Except ε α} {test : α → Bool} (h : x.toOption.any test = true) :
    ∃ a, x = .ok a ∧ test a = true := by
  cases x with
  | error e => cases h
  | ok a => exact ⟨a, rfl, h⟩

theorem mapM_eq_ok {f : α → Except ε β} {as : List α} {bs : List β} :
    as.mapM f = .ok bs ↔ List.Forall₂ (fun a b => f a = .ok b) as bs := by
  induction as generalizing bs with
  | nil => simp [eq_comm]
  | cons a as ih =>
    rw [List.mapM_cons, bind_eq_ok]
    constructor
    · rintro ⟨b, hb, h⟩
      obtain ⟨bs', hbs, h⟩ := bind_eq_ok.1 h
      cases h
      exact .cons hb (ih.1 hbs)
    · intro h
      cases h with
      | cons hb hbs => exact ⟨_, hb, bind_eq_ok.2 ⟨_, ih.2 hbs, rfl⟩⟩

theorem exists_of_mem_right {R : α → β → Prop} {as : List α} {bs : List β}
    (h : List.Forall₂ R as bs) {b : β} (hb : b ∈ bs) : ∃ a ∈ as, R a b := by
  induction h with
  | nil => simp at hb
  | cons hab _ ih =>
    rcases List.mem_cons.1 hb with rfl | hb
    · exact ⟨_, List.mem_cons_self, hab⟩
    · obtain ⟨a, ha, hab⟩ := ih hb
      exact ⟨a, List.mem_cons_of_mem _ ha, hab⟩

theorem exists_of_mem_left {R : α → β → Prop} {as : List α} {bs : List β}
    (h : List.Forall₂ R as bs) {a : α} (ha : a ∈ as) : ∃ b ∈ bs, R a b :=
  exists_of_mem_right h.flip ha

theorem exists_mapM_eq_ok {f : α → Except ε β} {as : List α} :
    (∃ bs, as.mapM f = .ok bs) ↔ ∀ a ∈ as, ∃ b, f a = .ok b := by
  constructor
  · rintro ⟨bs, h⟩ a ha
    obtain ⟨b, -, hb⟩ := exists_of_mem_left (mapM_eq_ok.1 h) ha
    exact ⟨b, hb⟩
  · intro h
    induction as with
    | nil => exact ⟨[], rfl⟩
    | cons a as ih =>
      obtain ⟨ha, has⟩ := List.forall_mem_cons.1 h
      obtain ⟨b, hb⟩ := ha
      obtain ⟨bs, hbs⟩ := ih has
      exact ⟨b :: bs, mapM_eq_ok.2 (.cons hb (mapM_eq_ok.1 hbs))⟩

/-- A loop whose items can fail in one way only. -/
theorem mapM_eq_error_iff {f : α → Except ε β} {fault : ε} (hfault : ∀ a e, f a = .error e → e = fault)
    {as : List α} {e : ε} :
    as.mapM f = .error e ↔ (∃ a ∈ as, f a = .error fault) ∧ e = fault := by
  induction as with
  | nil => simp
  | cons a as ih =>
    rw [List.mapM_cons]
    cases hfa : f a with
    | error e' =>
      cases hfault a e' hfa
      simp [hfa, eq_comm]
    | ok b =>
      simp only [ok_bind, List.mem_cons, exists_eq_or_imp, hfa, reduceCtorEq, false_or, ← ih]
      cases as.mapM f <;> simp

/-- A loop whose result is empty. -/
theorem eq_ok_nil_of_any {x : Except ε (List α)} (h : x.toOption.any List.isEmpty = true) :
    x = .ok [] := by
  obtain ⟨as, rfl, hempty⟩ := exists_ok_of_any h
  rw [List.isEmpty_iff.1 hempty]

/-- A loop that finds something for each item of one list, related to the item of another. -/
theorem exists_mapM_of_forall₂ {γ : Type} {f : α → Except ε γ} {R : γ → β → Prop} {as : List α}
    {bs : List β} (h : List.Forall₂ (fun a b => ∃ c, f a = .ok c ∧ R c b) as bs) :
    ∃ cs, as.mapM f = .ok cs ∧ List.Forall₂ R cs bs := by
  induction h with
  | nil => exact ⟨[], rfl, .nil⟩
  | cons hab _ ih =>
    obtain ⟨c, hc, hcb⟩ := hab
    obtain ⟨cs, hcs, hbs⟩ := ih
    exact ⟨c :: cs, mapM_eq_ok.2 (.cons hc (mapM_eq_ok.1 hcs)), .cons hcb hbs⟩

/-- A loop over the items of one list, each with what another loop has found for it. -/
theorem forall₂_of_zip {γ : Type} {R : α → β → Prop} {S : α × β → γ → Prop} {as : List α}
    {bs : List β} {cs : List γ} (h : List.Forall₂ R as bs) (h' : List.Forall₂ S (as.zip bs) cs) :
    List.Forall₂ (fun a c => ∃ b ∈ bs, R a b ∧ S (a, b) c) as cs := by
  induction h generalizing cs with
  | nil =>
    cases h'
    exact .nil
  | @cons a b as bs hab _ ih =>
    rw [List.zip_cons_cons] at h'
    cases h' with
    | cons hc h' =>
      refine .cons ⟨b, List.mem_cons_self, hab, hc⟩ ((ih h').imp fun a c => ?_)
      rintro ⟨b', hmem, hab', hc'⟩
      exact ⟨b', List.mem_cons_of_mem _ hmem, hab', hc'⟩

end

/-! ## Two runs -/

section
variable {ε α β γ δ : Type}

/-- Two computations that both succeed, with related results, or both fail. -/
inductive Both (R : α → β → Prop) : Except ε α → Except ε β → Prop
  | ok {a : α} {b : β} (h : R a b) : Both R (.ok a) (.ok b)
  | error (e e' : ε) : Both R (.error e) (.error e')

variable {R S : α → β → Prop} {x : Except ε α} {y : Except ε β}

theorem Both.imp (h : Both R x y) (hRS : ∀ a b, x = .ok a → y = .ok b → R a b → S a b) :
    Both S x y := by
  cases h with
  | ok h => exact .ok (hRS _ _ rfl rfl h)
  | error e e' => exact .error e e'

theorem Both.mono (h : Both R x y) (hRS : ∀ a b, R a b → S a b) : Both S x y :=
  h.imp fun a b _ _ => hRS a b

theorem Both.refl {R : α → α → Prop} (hR : ∀ a, R a a) (x : Except ε α) : Both R x x := by
  cases x with
  | ok a => exact .ok (hR a)
  | error e => exact .error e e

theorem Both.trans_eq {z : Except ε β} (h : Both R x y) (h' : Both Eq y z) : Both R x z := by
  cases h with
  | ok h =>
    cases h' with
    | ok h' => exact .ok (h' ▸ h)
  | error e _ =>
    cases h' with
    | error _ e' => exact .error e e'

theorem Both.bind {Q : γ → δ → Prop} {f : α → Except ε γ} {g : β → Except ε δ} (h : Both R x y)
    (hfg : ∀ a b, x = .ok a → y = .ok b → R a b → Both Q (f a) (g b)) :
    Both Q (x >>= f) (y >>= g) := by
  cases h with
  | ok h => exact hfg _ _ rfl rfl h
  | error e e' => exact .error e e'

/-- Two runs that begin with the same computation. -/
theorem Both.bind_same {Q : γ → δ → Prop} {f : α → Except ε γ} {g : α → Except ε δ} {x : Except ε α}
    (hfg : ∀ a, x = .ok a → Both Q (f a) (g a)) : Both Q (x >>= f) (x >>= g) := by
  cases x with
  | ok a => exact hfg a rfl
  | error e => exact .error e e

theorem Both.map {Q : γ → δ → Prop} {f : α → γ} {g : β → δ} (h : Both R x y)
    (hfg : ∀ a b, R a b → Q (f a) (g b)) : Both Q (f <$> x) (g <$> y) := by
  cases h with
  | ok h => exact .ok (hfg _ _ h)
  | error e e' => exact .error e e'

theorem Both.mapError (h : Both R x y) (f g : ε → ε) : Both R (x.mapError f) (y.mapError g) := by
  cases h with
  | ok h => exact .ok h
  | error e e' => exact .error _ _

theorem Both.exists_left (h : Both R x y) {a : α} (ha : x = .ok a) : ∃ b, y = .ok b ∧ R a b := by
  cases h with
  | ok h =>
    cases ha
    exact ⟨_, rfl, h⟩
  | error => cases ha

theorem Both.ok_iff {a : α} {b : β} : Both R (.ok a : Except ε α) (.ok b) ↔ R a b := by
  constructor
  · intro h
    cases h with
    | ok h => exact h
  · exact .ok

theorem both_of_iff (h : (∃ a, x = .ok a) ↔ ∃ b, y = .ok b) : Both (fun _ _ => True) x y := by
  cases x with
  | ok a =>
    obtain ⟨b, rfl⟩ := h.1 ⟨a, rfl⟩
    exact .ok trivial
  | error e =>
    cases y with
    | ok b => cases (h.2 ⟨b, rfl⟩).choose_spec
    | error e' => exact .error e e'

/-- Two loops over lists that are related item by item. -/
theorem both_mapM {Q : γ → δ → Prop} {f : α → Except ε γ} {g : β → Except ε δ} {as : List α}
    {bs : List β} (h : List.Forall₂ (fun a b => Both Q (f a) (g b)) as bs) :
    Both (List.Forall₂ Q) (as.mapM f) (bs.mapM g) := by
  induction h with
  | nil => exact .ok .nil
  | cons hab _ ih =>
    rw [List.mapM_cons, List.mapM_cons]
    refine hab.bind fun c d _ _ hcd => ?_
    exact ih.bind fun cs ds _ _ hcds => .ok (.cons hcd hcds)

end

/-! ## Want of fuel -/

variable {α β : Type}

/-- A computation that does not fail for want of fuel. -/
def Settled (x : Except Failure α) : Prop := x ≠ .error .tooDeep

@[simp] theorem settled_ok (a : α) : Settled (.ok a) := nofun

@[simp] theorem settled_error_iff {e : Failure} :
    Settled (.error e : Except Failure α) ↔ e ≠ .tooDeep := by
  simp [Settled]

theorem Settled.bind {x : Except Failure α} {f : α → Except Failure β} (hx : Settled x)
    (hf : ∀ a, x = .ok a → Settled (f a)) : Settled (x >>= f) := by
  cases x with
  | error e => exact fun h => hx (by simpa using h)
  | ok a => exact hf a rfl

theorem settled_mapM {f : α → Except Failure β} {as : List α} (h : ∀ a ∈ as, Settled (f a)) :
    Settled (as.mapM f) := by
  induction as with
  | nil => exact settled_ok _
  | cons a as ih =>
    rw [List.mapM_cons]
    apply (h a List.mem_cons_self).bind
    intro b _
    exact (ih fun a' ha' => h a' (List.mem_cons_of_mem _ ha')).bind fun bs _ => settled_ok _

theorem mapM_tooDeep_or_ok {α β : Type} {f : α → Except Failure β} {as : List α}
    (h : ∀ a ∈ as, f a = .error .tooDeep ∨ ∃ b, f a = .ok b) :
    as.mapM f = .error .tooDeep ∨ ∃ bs, as.mapM f = .ok bs := by
  induction as with
  | nil => exact .inr ⟨[], rfl⟩
  | cons a as ih =>
    rw [List.mapM_cons]
    rcases h a List.mem_cons_self with ha | ⟨b, hb⟩
    · exact .inl (by rw [ha]; rfl)
    · rw [hb, ok_bind]
      rcases ih fun a' ha' => h a' (List.mem_cons_of_mem _ ha') with has | ⟨bs, hbs⟩
      · exact .inl (by rw [has]; rfl)
      · exact .inr ⟨b :: bs, by rw [hbs]; rfl⟩

/-- The second is the first, which may have run out of fuel, with more of it. -/
def Below (x y : Except Failure α) : Prop := Settled x → x = y

theorem Below.refl (x : Except Failure α) : Below x x := fun _ => rfl

theorem below_tooDeep (y : Except Failure α) : Below (.error .tooDeep) y := fun h => absurd rfl h

theorem Below.bind {x y : Except Failure α} {f g : α → Except Failure β} (hx : Below x y)
    (hf : ∀ a, Below (f a) (g a)) : Below (x >>= f) (y >>= g) := by
  intro h
  have hsettled : Settled x := fun e => h (by simp [e])
  rw [← hx hsettled]
  cases x with
  | error e => rfl
  | ok a => exact hf a h

theorem below_mapM {f g : α → Except Failure β} (h : ∀ a, Below (f a) (g a)) (as : List α) :
    Below (as.mapM f) (as.mapM g) := by
  induction as with
  | nil => exact .refl _
  | cons a as ih =>
    rw [List.mapM_cons, List.mapM_cons]
    exact (h a).bind fun b => ih.bind fun bs => .refl _

end Outcome

end ClientForge
