-- SUMMARY: Lists that hold one entry for each place where something is related to a value.
import Mathlib.Data.List.Nodup
import Mathlib.Data.Prod.Basic

/-!
# Enumerations

A check goes through lists and reports what it finds. That it reports everything, once and
nothing else is said by `Enumerates R bs`: the entries of `bs` can be given places so that
each place has one entry at most, and an entry is at a place exactly if `R` relates the two.
An enumeration is put together like the list (`append`, `flatMap`, `filterMap`), the places
of its parts renamed apart (`reindex`).
-/

namespace ClientForge

variable {ι κ α β γ : Type}

/-- The list holds exactly one entry for each place and value that are related. -/
def Enumerates (R : ι → β → Prop) (bs : List β) : Prop :=
  ∃ located : List (ι × β), located.map Prod.snd = bs ∧ (located.map Prod.fst).Nodup ∧
    ∀ i b, (i, b) ∈ located ↔ R i b

namespace Enumerates

theorem eq_nil_iff {R : ι → β → Prop} {bs : List β} (h : Enumerates R bs) :
    bs = [] ↔ ∀ i b, ¬ R i b := by
  obtain ⟨located, rfl, -, hmem⟩ := h
  rw [List.map_eq_nil_iff, List.eq_nil_iff_forall_not_mem, Prod.forall]
  exact forall₂_congr fun i b => not_congr (hmem i b)

theorem mem_of_related {R : ι → β → Prop} {bs : List β} (h : Enumerates R bs) {i : ι} {b : β}
    (hR : R i b) : b ∈ bs := by
  obtain ⟨located, rfl, -, hmem⟩ := h
  exact List.mem_map_of_mem ((hmem i b).2 hR)

theorem exists_related {R : ι → β → Prop} {bs : List β} (h : Enumerates R bs) {b : β}
    (hb : b ∈ bs) : ∃ i, R i b := by
  obtain ⟨located, rfl, -, hmem⟩ := h
  obtain ⟨⟨i, b⟩, hib, rfl⟩ := List.mem_map.1 hb
  exact ⟨i, (hmem i b).1 hib⟩

theorem congr {R S : ι → β → Prop} {bs : List β} (h : Enumerates R bs)
    (hRS : ∀ i b, R i b ↔ S i b) : Enumerates S bs := by
  obtain ⟨located, hvalues, hnodup, hmem⟩ := h
  exact ⟨located, hvalues, hnodup, fun i b => (hmem i b).trans (hRS i b)⟩

theorem nil : Enumerates (fun (_ : ι) (_ : β) => False) [] :=
  ⟨[], rfl, List.nodup_nil, by simp⟩

/-- Places that are told apart may be named otherwise. -/
theorem reindex {R : ι → β → Prop} {bs : List β} (h : Enumerates R bs) {g : ι → κ}
    (hg : g.Injective) : Enumerates (fun k b => ∃ i, g i = k ∧ R i b) bs := by
  obtain ⟨located, hvalues, hnodup, hmem⟩ := h
  refine ⟨located.map (Prod.map g id), ?_, ?_, fun k b => ?_⟩
  · rw [List.map_map, ← hvalues]
    rfl
  · rw [List.map_map, show Prod.fst ∘ Prod.map g id = g ∘ (Prod.fst : ι × β → ι) from rfl,
      ← List.map_map]
    exact hnodup.map hg
  · simp only [List.mem_map, Prod.exists, Prod.map, id, Prod.mk.injEq]
    constructor
    · rintro ⟨i, b, hib, hi, rfl⟩
      exact ⟨i, hi, (hmem i b).1 hib⟩
    · rintro ⟨i, hi, hR⟩
      exact ⟨i, b, (hmem i b).2 hR, hi, rfl⟩

theorem map {R : ι → β → Prop} {bs : List β} (h : Enumerates R bs) (f : β → γ) :
    Enumerates (fun i c => ∃ b, R i b ∧ f b = c) (bs.map f) := by
  obtain ⟨located, rfl, hnodup, hmem⟩ := h
  refine ⟨located.map (Prod.map id f), ?_, ?_, fun i c => ?_⟩
  · simp [Function.comp_def]
  · simpa [Function.comp_def] using hnodup
  · simp [← hmem, Prod.ext_iff]

theorem append {R S : ι → β → Prop} {bs cs : List β} (hR : Enumerates R bs)
    (hS : Enumerates S cs) (hapart : ∀ i b c, R i b → ¬ S i c) :
    Enumerates (fun i b => R i b ∨ S i b) (bs ++ cs) := by
  obtain ⟨left, rfl, hleft, hmemLeft⟩ := hR
  obtain ⟨right, rfl, hright, hmemRight⟩ := hS
  refine ⟨left ++ right, List.map_append, ?_, fun i b => ?_⟩
  · rw [List.map_append, List.nodup_append]
    refine ⟨hleft, hright, ?_⟩
    rintro i hi j hj rfl
    obtain ⟨⟨i, b⟩, hb, rfl⟩ := List.mem_map.1 hi
    obtain ⟨⟨j, c⟩, hc, hj⟩ := List.mem_map.1 hj
    cases hj
    exact hapart i b c ((hmemLeft i b).1 hb) ((hmemRight i c).1 hc)
  · rw [List.mem_append, hmemLeft, hmemRight]

/-- The entries that come of each item of a list, at the place of the item. -/
theorem flatMap {S : α → ι → β → Prop} {f : α → List β} (as : List α)
    (h : ∀ a ∈ as, Enumerates (S a) (f a)) :
    Enumerates (fun (x : Nat × ι) b => ∃ a, as[x.1]? = some a ∧ S a x.2 b) (as.flatMap f) := by
  induction as with
  | nil => exact nil.congr fun x b => by simp
  | cons a as ih =>
    have hhead := (h a List.mem_cons_self).reindex (g := fun i => (0, i))
      fun i j hij => (Prod.mk.inj hij).2
    have htail := (ih fun a' ha' => h a' (List.mem_cons_of_mem _ ha')).reindex
      (g := Prod.map Nat.succ id)
      (Function.Injective.prodMap (fun _ _ => Nat.succ.inj) Function.injective_id)
    refine (hhead.append htail ?_).congr ?_
    · rintro x b c ⟨i, rfl, -⟩ ⟨y, hy, -⟩
      cases hy
    · rintro ⟨n, i⟩ b
      cases n with
      | zero => simp
      | succ n => simp

/-- The entry that may come of each item of a list. -/
theorem filterMap (f : α → Option β) (as : List α) :
    Enumerates (fun (i : Nat) b => ∃ a, as[i]? = some a ∧ f a = some b) (as.filterMap f) := by
  have hentry : ∀ a ∈ as, Enumerates (fun (_ : Unit) b => f a = some b) (f a).toList := by
    intro a _
    cases f a with
    | none => exact nil.congr fun _ _ => by simp
    | some b => exact ⟨[((), b)], rfl, List.nodup_singleton _, by simp [eq_comm]⟩
  have hplaced := (Enumerates.flatMap as hentry).reindex
    (g := Prod.fst) fun x y hxy => Prod.ext hxy rfl
  rw [← List.filterMap_eq_flatMap_toList] at hplaced
  exact hplaced.congr fun i b => by simp

/-- An entry for each item that passes a test. -/
theorem map_filter (test : α → Bool) (f : α → β) (as : List α) :
    Enumerates (fun (i : Nat) b => ∃ a, as[i]? = some a ∧ test a = true ∧ f a = b)
      ((as.filter test).map f) := by
  rw [← List.filterMap_eq_filter]
  refine ((filterMap (Option.guard test) as).map f).congr fun i b => ?_
  constructor
  · rintro ⟨a, ⟨a', ha', hguard⟩, rfl⟩
    obtain ⟨rfl, htest⟩ := Option.guard_eq_some_iff.1 hguard
    exact ⟨a', ha', htest, rfl⟩
  · rintro ⟨a, ha, htest, rfl⟩
    exact ⟨a, ⟨a, ha, Option.guard_eq_some_iff.2 ⟨rfl, htest⟩⟩, rfl⟩

/-- The entry that may come of each of some distinct items, at the item itself. -/
theorem filterMap_of_nodup (f : ι → Option β) {is : List ι} (his : is.Nodup) :
    Enumerates (fun i b => i ∈ is ∧ f i = some b) (is.filterMap f) := by
  induction is with
  | nil => exact nil.congr fun _ _ => by simp
  | cons i is ih =>
    obtain ⟨hi, his⟩ := List.nodup_cons.1 his
    rw [List.filterMap_cons]
    cases hfi : f i with
    | none =>
      refine (ih his).congr fun j b => ?_
      by_cases hji : j = i
      · simp [hji, hi, hfi]
      · simp [hji]
    | some b =>
      have hone : Enumerates (fun j c => j = i ∧ c = b) [b] :=
        ⟨[(i, b)], rfl, List.nodup_singleton _, by simp⟩
      refine (hone.append (ih his) ?_).congr fun j c => ?_
      · rintro _ _ c ⟨rfl, -⟩ ⟨hj, -⟩
        exact hi hj
      · by_cases hji : j = i
        · simp [hji, hi, hfi, eq_comm]
        · simp [hji]

end Enumerates

end ClientForge
