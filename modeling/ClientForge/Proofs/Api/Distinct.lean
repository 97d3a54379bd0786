-- SUMMARY: Which models of an API are kept, and what linking its classes leaves as it is.
import Mathlib.Data.List.Forall2
import ClientForge.Api.Assembly
import ClientForge.Proofs.Model.Equality
import ClientForge.Proofs.Outcome

/-!
# Distinct models

Of models that are equal up to descriptions one is kept (`exists_kept`), and only models
that are there are (`mem_of_mem_distinct`). A model that is equal to itself is kept no
second time (`distinct_repeated`). Telling classes and enumerations apart keeps the classes
as they are (`separate_eq_ok`), and linking them to their subclasses changes nothing but
the lists of these (`linkSubclasses_unchanged`).
-/

namespace ClientForge

namespace Assembly

open Outcome

/-! ## Keeping models -/

/-- A model is kept, or one that is equal to it. -/
def IsKept (kept : List Model) (m : Model) : Prop := ∃ k ∈ kept, k = m ∨ k.same m = true

theorem mem_keepNew_of_mem {kept : List Model} {k m : Model} (h : k ∈ kept) :
    k ∈ keepNew kept m := by
  unfold keepNew
  split
  · exact h
  · exact List.mem_append_left _ h

theorem isKept_keepNew (kept : List Model) (m : Model) : IsKept (keepNew kept m) m := by
  unfold keepNew
  split
  · rename_i hamong
    obtain ⟨k, hk, hsame⟩ := List.any_eq_true.1 hamong
    exact ⟨k, hk, .inr hsame⟩
  · exact ⟨m, List.mem_append_right _ List.mem_cons_self, .inl rfl⟩

theorem mem_foldl_keepNew_of_mem {kept : List Model} {k : Model} (h : k ∈ kept)
    (models : List Model) : k ∈ models.foldl keepNew kept := by
  induction models generalizing kept with
  | nil => exact h
  | cons m models ih => exact ih (mem_keepNew_of_mem h)

theorem isKept_foldl_keepNew {kept models : List Model} {m : Model} (h : m ∈ models) :
    IsKept (models.foldl keepNew kept) m := by
  induction models generalizing kept with
  | nil => cases h
  | cons first models ih =>
    rcases List.mem_cons.1 h with rfl | h
    · obtain ⟨k, hk, hsame⟩ := isKept_keepNew kept m
      exact ⟨k, mem_foldl_keepNew_of_mem hk models, hsame⟩
    · exact ih h

theorem exists_kept {models : List Model} {m : Model} (h : m ∈ models) :
    IsKept (distinct models) m := isKept_foldl_keepNew h

theorem mem_of_mem_foldl_keepNew {kept models : List Model} {m : Model}
    (h : m ∈ models.foldl keepNew kept) : m ∈ kept ∨ m ∈ models := by
  induction models generalizing kept with
  | nil => exact .inl h
  | cons first models ih =>
    rcases ih h with hkept | hmodels
    · unfold keepNew at hkept
      split at hkept
      · exact .inl hkept
      · rcases List.mem_append.1 hkept with hkept | hfirst
        · exact .inl hkept
        · exact .inr (List.mem_singleton.1 hfirst ▸ List.mem_cons_self)
    · exact .inr (List.mem_cons_of_mem _ hmodels)

theorem mem_of_mem_distinct {models : List Model} {m : Model} (h : m ∈ distinct models) :
    m ∈ models := by
  rcases mem_of_mem_foldl_keepNew h with h | h
  · cases h
  · exact h

theorem keepNew_of_isKept {kept : List Model} {m : Model} (hself : m.same m = true)
    (h : IsKept kept m) : keepNew kept m = kept := by
  obtain ⟨k, hk, hsame⟩ := h
  refine if_pos (List.any_eq_true.2 ⟨k, hk, ?_⟩)
  rcases hsame with rfl | hsame
  · exact hself
  · exact hsame

/-- A model that has come before is not kept again. -/
theorem distinct_repeated {m : Model} (hself : m.same m = true) (before between after : List Model) :
    distinct (before ++ m :: between ++ m :: after) = distinct (before ++ m :: between ++ after) := by
  have hkept : IsKept (distinct (before ++ m :: between)) m := exists_kept (by simp)
  have hsplit : ∀ xs ys, distinct (xs ++ ys) = ys.foldl keepNew (distinct xs) :=
    fun xs ys => List.foldl_append
  rw [hsplit, List.foldl_cons, keepNew_of_isKept hself hkept, ← hsplit]

/-! ## Classes and enumerations -/

theorem separate_eq_ok {models objects enums : List Model}
    (h : separate models = .ok (objects, enums)) : objects = models.filter Model.isObject := by
  induction models generalizing objects enums with
  | nil => cases h; rfl
  | cons m models ih =>
    cases m with
    | object head nested =>
      obtain ⟨⟨objects', enums'⟩, hrest, h⟩ := bind_eq_ok.1 h
      cases h
      rw [ih hrest]
      rfl
    | enumeration e =>
      obtain ⟨⟨objects', enums'⟩, hrest, h⟩ := bind_eq_ok.1 h
      cases h
      rw [ih hrest]
      rfl
    | property => cases h

/-- Every model is listed, under its kind, and nothing else is. -/
theorem perm_of_separate {models objects enums : List Model}
    (h : separate models = .ok (objects, enums)) : (objects ++ enums).Perm models := by
  induction models generalizing objects enums with
  | nil =>
    cases h
    exact .refl _
  | cons m models ih =>
    cases m with
    | object head nested =>
      obtain ⟨⟨objects', enums'⟩, hrest, h⟩ := bind_eq_ok.1 h
      cases h
      exact (ih hrest).cons _
    | enumeration e =>
      obtain ⟨⟨objects', enums'⟩, hrest, h⟩ := bind_eq_ok.1 h
      cases h
      exact List.perm_middle.trans ((ih hrest).cons _)
    | property => cases h

/-! ## Subclasses -/

/-- The same model but for the list of its subclasses. -/
def Relinked (m m' : Model) : Prop :=
  m' = m ∨ ∃ head nested subclasses, m = .object head nested ∧
    m' = .object { head with subclasses } nested

theorem relinked_link (others : List Model) (m : Model) : Relinked m (link others m) := by
  cases m with
  | object head nested =>
    by_cases hdiscriminated : head.discriminator.truthy = true
    · exact .inr ⟨head, nested, _, rfl, if_pos hdiscriminated⟩
    · exact .inl (if_neg hdiscriminated)
  | _ => exact .inl rfl

theorem relinked_linkAfter (before models : List Model) :
    List.Forall₂ Relinked models (linkAfter before models) := by
  induction models generalizing before with
  | nil => exact .nil
  | cons m models ih => exact .cons (relinked_link _ m) (ih _)

/-- Linking classes changes nothing but the lists of subclasses. -/
theorem linkSubclasses_unchanged (models : List Model) :
    List.Forall₂ Relinked models (linkSubclasses models) := relinked_linkAfter [] models

theorem Relinked.wellFormed {m m' : Model} (h : Relinked m m') (hm : m.WellFormed) :
    m'.WellFormed := by
  rcases h with rfl | ⟨head, nested, subclasses, rfl, rfl⟩
  · exact hm
  · cases hm with
    | object hhead hnested => exact .object hhead hnested

theorem map_name_of_relinked {models models' : List Model} (h : List.Forall₂ Relinked models models') :
    models'.map Model.name = models.map Model.name := by
  induction h with
  | nil => rfl
  | cons hrelinked _ ih =>
    rw [List.map_cons, List.map_cons, ih]
    rcases hrelinked with rfl | ⟨head, nested, subclasses, rfl, rfl⟩ <;> rfl

end Assembly

end ClientForge
