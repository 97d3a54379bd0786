-- SUMMARY: Sameness of values is an equivalence between values with distinct keys.
import Mathlib.Data.List.Perm.Subperm
import ClientForge.Json.Equality
import ClientForge.Proofs.Schema.Merge

/-!
# Equality of values

A value with distinct keys is the same as itself (`Json.same_self`). Objects are compared
from one side, each member with the value that the other one has under its key, but with
distinct keys and as many members on both sides nothing of the other one is left out
(`Json.same_obj_iff_get?`), so it makes no difference which side is asked (`Json.same_symm`).
What is the same as one value is the same as each other (`Json.same_trans`).
-/

namespace ClientForge

namespace Members

theorem get?_of_mem {ms : Members} (hnodup : (meanings ms).Nodup) {m : Key × Json}
    (hm : m ∈ ms) : get? ms m.1 = some m.2 := by
  induction ms with
  | nil => cases hm
  | cons first ms ih =>
    rw [meanings_cons, List.nodup_cons] at hnodup
    rcases List.mem_cons.1 hm with rfl | hm
    · simp [get?]
    · have hother : first.1.meaning ≠ m.1.meaning :=
        fun h => hnodup.1 (h ▸ List.mem_map_of_mem hm)
      simp only [get?, hother, if_false]
      exact ih hnodup.2 hm

end Members

namespace Json

open Members

/-- Every value has a property that a value has as soon as all that is directly in it has it. -/
@[elab_as_elim]
theorem inductionOn {motive : Json → Prop} (v : Json) (null : motive .null)
    (bool : ∀ b, motive (.bool b)) (int : ∀ n, motive (.int n)) (float : ∀ x, motive (.float x))
    (str : ∀ s, motive (.str s)) (arr : ∀ vs : List Json, (∀ v ∈ vs, motive v) → motive (.arr vs))
    (obj : ∀ ms : Members, (∀ m ∈ ms, motive m.2) → motive (.obj ms)) : motive v :=
  @Json.rec motive (fun vs => ∀ v ∈ vs, motive v) (fun ms => ∀ m ∈ ms, motive m.2)
    (fun m => motive m.2) null bool int float str arr obj
    (List.forall_mem_nil _) (fun _ _ hv hvs => List.forall_mem_cons.2 ⟨hv, hvs⟩)
    (List.forall_mem_nil _) (fun _ _ hm hms => List.forall_mem_cons.2 ⟨hm, hms⟩)
    (fun _ _ hv => hv) v

/-! ## What same values have in common -/

theorem same_of_number? {a b : Json} {x : Magnitude} (ha : a.number? = some x) :
    a.same b = true ↔ b.number? = some x := by
  cases a <;> cases ha <;> cases b <;> simp only [same, number?] <;> grind

theorem sameItems_iff {vs ws : List Json} : sameItems vs ws = true ↔ vs.length = ws.length ∧
    ∀ (i : Nat) (v w : Json), vs[i]? = some v → ws[i]? = some w → v.same w = true := by
  induction vs generalizing ws with
  | nil => cases ws <;> simp [sameItems]
  | cons v vs ih =>
    cases ws with
    | nil => simp [sameItems]
    | cons w ws =>
      rw [sameItems, Bool.and_eq_true, ih]
      constructor
      · rintro ⟨hfirst, hlength, hrest⟩
        refine ⟨congrArg (· + 1) hlength, fun i v' w' hv hw => ?_⟩
        cases i with
        | zero =>
          cases hv
          cases hw
          exact hfirst
        | succ i => exact hrest i v' w' hv hw
      · rintro ⟨hlength, hsame⟩
        exact ⟨hsame 0 v w rfl rfl, Nat.succ.inj hlength, fun i => hsame (i + 1)⟩

theorem sameMembers_iff {ms other : Members} : sameMembers ms other = true ↔
    ∀ m ∈ ms, ∃ w, get? other m.1 = some w ∧ m.2.same w = true := by
  induction ms with
  | nil => simp [sameMembers]
  | cons m ms ih =>
    rw [List.forall_mem_cons, ← ih, sameMembers, Bool.and_eq_true]
    refine and_congr_left fun _ => ?_
    cases get? other m.1 with
    | none => simp
    | some w => simp

theorem same_obj_iff {ms ns : Members} : (Json.obj ms).same (.obj ns) = true ↔
    ms.length = ns.length ∧ ∀ m ∈ ms, ∃ w, get? ns m.1 = some w ∧ m.2.same w = true := by
  rw [same, Bool.and_eq_true, beq_iff_eq, sameMembers_iff]

theorem exists_of_same_obj {ms : Members} {b : Json} (h : (Json.obj ms).same b = true) :
    ∃ ns, b = .obj ns := by
  cases b with
  | obj ns => exact ⟨ns, rfl⟩
  | _ => simp [same, number?] at h

theorem exists_of_same_arr {vs : List Json} {b : Json} (h : (Json.arr vs).same b = true) :
    ∃ ws, b = .arr ws ∧ sameItems vs ws = true := by
  cases b with
  | arr ws => exact ⟨ws, rfl, h⟩
  | _ => simp [same, number?] at h

theorem eq_of_same_str {s : String} {b : Json} (h : (Json.str s).same b = true) : b = .str s := by
  cases b <;> simp_all [same, number?]

theorem eq_of_same_null {b : Json} (h : Json.null.same b = true) : b = .null := by
  cases b <;> simp_all [same, number?]

/-! ## Objects, from either side -/

/-- Objects that are the same have the same keys. -/
theorem perm_meanings_of_same {ms ns : Members} (hms : (meanings ms).Nodup)
    (h : (Json.obj ms).same (.obj ns) = true) : (meanings ms).Perm (meanings ns) := by
  obtain ⟨hlength, hsame⟩ := same_obj_iff.1 h
  have hsubset : meanings ms ⊆ meanings ns := by
    intro x hx
    obtain ⟨m, hm, rfl⟩ := List.mem_map.1 hx
    obtain ⟨w, hw, -⟩ := hsame m hm
    exact isSome_get?_iff.1 (hw ▸ rfl)
  apply (List.subperm_of_subset hms hsubset).perm_of_length_le
  simp [meanings, hlength]

/-- With distinct keys, objects are the same exactly if they have the same keys and the same
values under them. -/
theorem same_obj_iff_get? {ms ns : Members} (hms : (meanings ms).Nodup)
    (hns : (meanings ns).Nodup) : (Json.obj ms).same (.obj ns) = true ↔
      (∀ x, x ∈ meanings ms ↔ x ∈ meanings ns) ∧
        ∀ k v w, get? ms k = some v → get? ns k = some w → v.same w = true := by
  constructor
  · intro h
    refine ⟨fun x => (perm_meanings_of_same hms h).mem_iff, fun k v w hv hw => ?_⟩
    obtain ⟨m, hm, hkey, rfl⟩ := mem_of_get? hv
    obtain ⟨w', hw', hsame⟩ := (same_obj_iff.1 h).2 m hm
    rw [get?_congr hkey, hw] at hw'
    cases hw'
    exact hsame
  · rintro ⟨hkeys, hvalues⟩
    have hperm : (meanings ms).Perm (meanings ns) := (List.perm_ext_iff_of_nodup hms hns).2 hkeys
    refine same_obj_iff.2 ⟨by simpa [meanings] using hperm.length_eq, fun m hm => ?_⟩
    have hkey : m.1.meaning ∈ meanings ns := (hkeys _).1 (List.mem_map_of_mem hm)
    obtain ⟨w, hw⟩ := Option.isSome_iff_exists.1 (isSome_get?_iff.2 hkey)
    exact ⟨w, hw, hvalues m.1 m.2 w (get?_of_mem hms hm) hw⟩

/-! ## An equivalence -/

theorem same_self (v : Json) (h : v.WellFormed) : v.same v = true := by
  induction v using inductionOn with
  | arr vs ih =>
    rw [wellFormed_arr] at h
    refine sameItems_iff.2 ⟨rfl, fun i v w hv hw => ?_⟩
    cases hv.symm.trans hw
    have hmem : v ∈ vs := List.mem_of_getElem? hv
    exact ih v hmem (h v hmem)
  | obj ms ih =>
    obtain ⟨hkeys, hvalues⟩ := wellFormed_obj.1 h
    exact same_obj_iff.2 ⟨rfl, fun m hm => ⟨m.2, get?_of_mem hkeys hm, ih m hm (hvalues m hm)⟩⟩
  | _ => simp [same, number?]

theorem same_symm (a : Json) (ha : a.WellFormed) (b : Json) (hb : b.WellFormed)
    (h : a.same b = true) : b.same a = true := by
  induction a using inductionOn generalizing b with
  | null => rw [eq_of_same_null h]; rfl
  | str s => rw [eq_of_same_str h]; exact same_self _ trivial
  | bool p => exact (same_of_number? ((same_of_number? rfl).1 h)).2 rfl
  | int i => exact (same_of_number? ((same_of_number? rfl).1 h)).2 rfl
  | float x => exact (same_of_number? ((same_of_number? rfl).1 h)).2 rfl
  | arr vs ih =>
    obtain ⟨ws, rfl, hitems⟩ := exists_of_same_arr h
    rw [wellFormed_arr] at ha hb
    obtain ⟨hlength, hsame⟩ := sameItems_iff.1 hitems
    refine sameItems_iff.2 ⟨hlength.symm, fun i w v hw hv => ?_⟩
    have hmem : v ∈ vs := List.mem_of_getElem? hv
    exact ih v hmem (ha v hmem) w (hb w (List.mem_of_getElem? hw)) (hsame i v w hv hw)
  | obj ms ih =>
    obtain ⟨ns, rfl⟩ := exists_of_same_obj h
    obtain ⟨hkeys, hvalues⟩ := (same_obj_iff_get? ha.1 hb.1).1 h
    refine (same_obj_iff_get? hb.1 ha.1).2 ⟨fun x => (hkeys x).symm, fun k w v hw hv => ?_⟩
    obtain ⟨m, hm, -, rfl⟩ := mem_of_get? hv
    exact ih m hm (get?_wellFormed ha hv) w (get?_wellFormed hb hw) (hvalues k m.2 w hv hw)

theorem same_trans (a b c : Json) (hab : a.same b = true) (hbc : b.same c = true) :
    a.same c = true := by
  induction a using inductionOn generalizing b c with
  | null => rwa [← eq_of_same_null hab]
  | str s => rwa [← eq_of_same_str hab]
  | bool p => exact (same_of_number? rfl).2 ((same_of_number? ((same_of_number? rfl).1 hab)).1 hbc)
  | int i => exact (same_of_number? rfl).2 ((same_of_number? ((same_of_number? rfl).1 hab)).1 hbc)
  | float x => exact (same_of_number? rfl).2 ((same_of_number? ((same_of_number? rfl).1 hab)).1 hbc)
  | arr us ih =>
    obtain ⟨vs, rfl, huv⟩ := exists_of_same_arr hab
    obtain ⟨ws, rfl, hvw⟩ := exists_of_same_arr hbc
    obtain ⟨hlength, huv⟩ := sameItems_iff.1 huv
    obtain ⟨hlength', hvw⟩ := sameItems_iff.1 hvw
    refine sameItems_iff.2 ⟨hlength.trans hlength', fun i u w hu hw => ?_⟩
    obtain ⟨hi, -⟩ := List.getElem?_eq_some_iff.1 hw
    have hv : vs[i]? = some vs[i] := List.getElem?_eq_getElem (hlength' ▸ hi)
    exact ih u (List.mem_of_getElem? hu) _ w (huv i u _ hu hv) (hvw i _ w hv hw)
  | obj ls ih =>
    obtain ⟨ms, rfl⟩ := exists_of_same_obj hab
    obtain ⟨ns, rfl⟩ := exists_of_same_obj hbc
    obtain ⟨hlength, hlm⟩ := same_obj_iff.1 hab
    obtain ⟨hlength', hmn⟩ := same_obj_iff.1 hbc
    refine same_obj_iff.2 ⟨hlength.trans hlength', fun l hl => ?_⟩
    obtain ⟨v, hv, hlv⟩ := hlm l hl
    obtain ⟨m, hm, hkey, rfl⟩ := mem_of_get? hv
    obtain ⟨w, hw, hvw⟩ := hmn m hm
    exact ⟨w, get?_congr hkey ns ▸ hw, ih l hl m.2 w hlv hvw⟩

end Json

end ClientForge
