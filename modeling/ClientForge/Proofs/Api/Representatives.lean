-- SUMMARY: Of every class of models that are equal up to descriptions, exactly the first is kept.
import Mathlib.Data.List.Induction
import ClientForge.Proofs.Api.Distinct
import ClientForge.Proofs.Model.Descriptions

/-!
# Representatives

Models with distinct keys in their values fall into classes of equal ones, since equality
up to descriptions is an equivalence. What `distinct` keeps of some models is in their order
(`distinct_sublist`), no two of it are equal (`pairwise_distinct`), and what it keeps of a
class is the first model of it and nothing else (`filter_distinct`). A list of models no two
of which are equal is kept as it is (`distinct_of_pairwise`). `modelsOf_represents` says all
this of the models of an API.
-/

namespace ClientForge

namespace Assembly

/-- No two models are equal up to descriptions. -/
def Differing (models : List Model) : Prop := models.Pairwise fun a b => a.same b = false

/-! ## One model more -/

theorem distinct_concat (models : List Model) (last : Model) :
    distinct (models ++ [last]) = keepNew (distinct models) last := by
  rw [distinct, List.foldl_append]
  rfl

theorem keepNew_of_isAmong {kept : List Model} {m : Model} (h : m.isAmong kept = true) :
    keepNew kept m = kept := if_pos h

theorem keepNew_of_not_isAmong {kept : List Model} {m : Model} (h : m.isAmong kept = false) :
    keepNew kept m = kept ++ [m] := if_neg (Bool.eq_false_iff.1 h)

theorem isAmong_eq_false_iff {kept : List Model} {m : Model} :
    m.isAmong kept = false ↔ ∀ k ∈ kept, k.same m = false := by
  simp only [Model.isAmong, List.any_eq_false, Bool.not_eq_true]

theorem differing_concat_iff {models : List Model} {last : Model} :
    Differing (models ++ [last]) ↔ Differing models ∧ last.isAmong models = false := by
  rw [Differing, List.pairwise_append, isAmong_eq_false_iff]
  simp [Differing]

/-! ## What is kept -/

theorem distinct_sublist (models : List Model) : (distinct models).Sublist models := by
  induction models using List.reverseRecOn with
  | nil => exact .refl _
  | append_singleton models last ih =>
    rw [distinct_concat]
    cases hamong : last.isAmong (distinct models) with
    | true =>
      rw [keepNew_of_isAmong hamong]
      exact ih.trans (List.sublist_append_left models [last])
    | false =>
      rw [keepNew_of_not_isAmong hamong]
      exact ih.append (.refl [last])

theorem pairwise_distinct (models : List Model) : Differing (distinct models) := by
  induction models using List.reverseRecOn with
  | nil => exact .nil
  | append_singleton models last ih =>
    rw [distinct_concat]
    cases hamong : last.isAmong (distinct models) with
    | true => rwa [keepNew_of_isAmong hamong]
    | false =>
      rw [keepNew_of_not_isAmong hamong]
      exact differing_concat_iff.2 ⟨ih, hamong⟩

/-- Models that differ are all kept. -/
theorem distinct_of_pairwise {models : List Model} (h : Differing models) :
    distinct models = models := by
  induction models using List.reverseRecOn with
  | nil => rfl
  | append_singleton models last ih =>
    obtain ⟨hmodels, hlast⟩ := differing_concat_iff.1 h
    rw [distinct_concat, ih hmodels, keepNew_of_not_isAmong hlast]

/-! ## Which model of a class is kept -/

/-- The first model equal to another is the first of those that are kept. -/
theorem find?_distinct {models : List Model} (hmodels : ∀ m ∈ models, m.WellFormed) (m : Model) :
    (distinct models).find? (·.same m) = models.find? (·.same m) := by
  induction models using List.reverseRecOn with
  | nil => rfl
  | append_singleton models last ih =>
    have ih := ih fun n hn => hmodels n (List.mem_append_left _ hn)
    rw [distinct_concat]
    cases hamong : last.isAmong (distinct models) with
    | false => rw [keepNew_of_not_isAmong hamong, List.find?_append, List.find?_append, ih]
    | true =>
      rw [keepNew_of_isAmong hamong, ih, List.find?_append]
      obtain ⟨k, hk, hlast⟩ := List.any_eq_true.1 hamong
      have hk : k ∈ models := mem_of_mem_distinct hk
      -- if the last model is the first that is equal, the one kept in its place was so before it
      cases hfound : models.find? (·.same m) with
      | some first => rfl
      | none =>
        have hdiffers : last.same m = false := by
          refine Bool.eq_false_iff.2 fun hsame => ?_
          have hsame := Model.same_trans (hmodels k (List.mem_append_left _ hk)) hlast hsame
          exact List.find?_eq_none.1 hfound k hk hsame
        rw [List.find?_singleton, hdiffers]
        rfl

theorem filter_same_of_differing {models : List Model} (hmodels : ∀ m ∈ models, m.WellFormed)
    (hdiffer : Differing models) {m k : Model} (hm : m.WellFormed)
    (hfirst : models.find? (·.same m) = some k) : models.filter (·.same m) = [k] := by
  have hequal : ∀ a ∈ models.filter (·.same m), a.WellFormed ∧ a.same m = true := fun a ha =>
    ⟨hmodels a (List.mem_filter.1 ha).1, (List.mem_filter.1 ha).2⟩
  have hdiffer : Differing (models.filter (·.same m)) := hdiffer.filter _
  rw [← List.head?_filter] at hfirst
  obtain ⟨rest, hfilter⟩ := List.head?_eq_some_iff.1 hfirst
  rw [hfilter] at hequal hdiffer ⊢
  -- a second model equal to `m` would be equal to the first
  cases rest with
  | nil => rfl
  | cons other rest =>
    obtain ⟨hk, hkm⟩ := hequal k List.mem_cons_self
    obtain ⟨hother, hom⟩ := hequal other (List.mem_cons_of_mem _ List.mem_cons_self)
    have hsame : k.same other = true := Model.same_trans hk hkm (Model.same_symm hother hm hom)
    have hnot : k.same other = false := (List.pairwise_cons.1 hdiffer).1 other List.mem_cons_self
    rw [hsame] at hnot
    cases hnot

/-- Of the models that are equal to one of them, the first is kept and nothing else. -/
theorem filter_distinct {models : List Model} (hmodels : ∀ m ∈ models, m.WellFormed) {m : Model}
    (hm : m ∈ models) :
    ∃ k, models.find? (·.same m) = some k ∧ (distinct models).filter (·.same m) = [k] := by
  have hself : m.same m = true := Model.same_self (hmodels m hm)
  obtain ⟨k, hk⟩ : ∃ k, models.find? (·.same m) = some k :=
    Option.isSome_iff_exists.1 (List.find?_isSome.2 ⟨m, hm, hself⟩)
  refine ⟨k, hk, filter_same_of_differing (fun n hn => hmodels n (mem_of_mem_distinct hn))
    (pairwise_distinct models) (hmodels m hm) ?_⟩
  rw [find?_distinct hmodels, hk]

/-! ## The models of an API -/

theorem same_equivalence :
    Equivalence fun a b : { m : Model // m.WellFormed } => a.1.same b.1 = true where
  refl a := Model.same_self a.2
  symm {a b} := Model.same_symm a.2 b.2
  trans {a _ _} := Model.same_trans a.2

/-- Equality of models does not see descriptions and is an equivalence; of the models of some
methods, exactly the first of each class is kept, in their order, and nothing happens to what
is kept if this is done again. -/
theorem modelsOf_represents {methods : List BuiltMethod}
    (hmethods : ∀ b ∈ methods, ∀ m ∈ b.models, m.WellFormed) :
    (Equivalence fun a b : { m : Model // m.WellFormed } => a.1.same b.1 = true) ∧
      (∀ e e' m n, (Model.redescribe e m).same (Model.redescribe e' n) = m.same n) ∧
      (modelsOf methods).Sublist (methods.flatMap (·.models)) ∧
      (∀ m ∈ methods.flatMap (·.models), ∃ k,
        (methods.flatMap (·.models)).find? (·.same m) = some k ∧
          (modelsOf methods).filter (·.same m) = [k]) ∧
      Differing (modelsOf methods) ∧
      (∀ again : List BuiltMethod, again.flatMap (·.models) = modelsOf methods →
        modelsOf again = modelsOf methods) := by
  have hmodels : ∀ m ∈ methods.flatMap (·.models), m.WellFormed := fun m hm => by
    obtain ⟨b, hb, hm⟩ := List.mem_flatMap.1 hm
    exact hmethods b hb m hm
  refine ⟨same_equivalence, fun e e' m n => Model.same_redescribe_both e e' m n,
    distinct_sublist _, fun m hm => filter_distinct hmodels hm, pairwise_distinct _,
    fun again hagain => ?_⟩
  rw [modelsOf, hagain]
  exact distinct_of_pairwise (pairwise_distinct _)

/-! ### One size, told twice -/

/-- An enumeration of one case. -/
def sizeModel (value : Json) (description : String) : Model :=
  .enumeration ⟨some "Size", some "Double", [⟨some "one", value⟩], .str description⟩

/-- A method that needs some models. -/
def needing (models : List Model) : BuiltMethod :=
  ⟨⟨"/sizes", "get", "sizes", [], ⟨none, .null, .null, none, none, false, .null, .null⟩, .null⟩, models⟩

/-- The size one, as a number with a fraction. -/
def exactSize : Model := sizeModel (.float (.finite ⟨false, 1, 0⟩)) "exact"

/-- Models of one name: two of the same value in different words, and one of another value. -/
def sizes : List BuiltMethod :=
  [needing [sizeModel (.int 1) "whole"], needing [exactSize, sizeModel (.int 2) "two"]]

/-- The two of one value are one model, and the one of another value is kept beside it. -/
theorem modelsOf_represents_sizes :
    (∀ b ∈ sizes, ∀ m ∈ b.models, m.WellFormed) ∧
      (modelsOf sizes).filter (·.same exactSize) = [sizeModel (.int 1) "whole"] ∧
      (modelsOf sizes).filter (·.same (sizeModel (.int 2) "two")) = [sizeModel (.int 2) "two"] ∧
      (modelsOf sizes).map (·.name) = [some "Size", some "Size"] := by
  have hsizes : ∀ b ∈ sizes, ∀ m ∈ b.models, m.WellFormed := by
    simp only [sizes, needing, List.forall_mem_cons, List.not_mem_nil, false_implies, implies_true,
      and_true]
    refine ⟨?_, ?_, ?_⟩ <;> exact .enumeration (by simp [Json.WellFormed])
  obtain ⟨-, -, -, hkept, -⟩ := modelsOf_represents hsizes
  have hkeeps {m k : Model} (hm : m ∈ sizes.flatMap (·.models))
      (hfirst : (sizes.flatMap (·.models)).find? (·.same m) = some k) :
      (modelsOf sizes).filter (·.same m) = [k] := by
    obtain ⟨k', hfirst', hk⟩ := hkept m hm
    cases hfirst.symm.trans hfirst'
    exact hk
  refine ⟨hsizes, hkeeps ?_ (by rfl), hkeeps ?_ (by rfl), by rfl⟩
  · simp [sizes, needing]
  · simp [sizes, needing]

end Assembly

end ClientForge
