-- SUMMARY: Equality with keys left out: an equivalence for each set of keys, the coarser the more keys.
import Mathlib.Data.List.Perm.Basic
import Mathlib.Data.Set.Insert
import ClientForge.Proofs.Json.Equality

/-!
# Leaving keys out

A key can be left out again without changing anything (`without_without`), and of two keys
either one first (`without_comm`), so what is left of a value when several keys are left out
depends on the set of what they mean (`withoutAll_congr`).

Equality with keys left out compares what is left of two values. `SameBut` says what that comes
to without leaving anything out, by recursion over both values (`sameIgnoring_iff`). It follows
that equality with keys left out is an equivalence for each set of keys, and that the equivalences
are ordered as the sets are (`sameIgnoring_graded`).
-/

namespace ClientForge

namespace Json

open Members

/-! ## One key -/

theorem number?_without (k : Key) (v : Json) : (v.without k).number? = v.number? := by
  cases v <;> rfl

theorem withoutItems_eq (k : Key) (vs : List Json) : withoutItems k vs = vs.map (without k) := by
  induction vs with
  | nil => rfl
  | cons v vs ih => rw [withoutItems, ih, List.map_cons]

theorem withoutMembers_eq (k : Key) (ms : Members) : withoutMembers k ms =
    (ms.filter (·.1.meaning ≠ k.meaning)).map fun m => (m.1, m.2.without k) := by
  induction ms with
  | nil => rfl
  | cons m ms ih => by_cases h : m.1.meaning = k.meaning <;> simp [withoutMembers, h, ih]

theorem meanings_withoutMembers (k : Key) (ms : Members) :
    meanings (withoutMembers k ms) = (meanings ms).filter (· ≠ k.meaning) := by
  simp only [meanings, withoutMembers_eq, List.map_map, List.filter_map, Function.comp_def]

theorem mem_meanings_withoutMembers {k : Key} {ms : Members} {x : Key.Meaning} :
    x ∈ meanings (withoutMembers k ms) ↔ x ∈ meanings ms ∧ x ≠ k.meaning := by
  rw [meanings_withoutMembers, List.mem_filter, decide_eq_true_iff]

theorem get?_withoutMembers (k k' : Key) (ms : Members) : get? (withoutMembers k ms) k' =
    if k'.meaning = k.meaning then none else (get? ms k').map (without k) := by
  induction ms with
  | nil => simp [withoutMembers, get?]
  | cons m ms ih =>
    by_cases hleft : m.1.meaning = k.meaning
    · rw [withoutMembers, if_pos hleft, ih, get?, hleft]
      split
      · rfl
      · rename_i hother
        rw [if_neg fun h => hother h.symm]
    · rw [withoutMembers, if_neg hleft, get?, get?, ih]
      by_cases hfound : m.1.meaning = k'.meaning
      · rw [if_pos hfound, if_pos hfound, if_neg fun h => hleft (hfound.trans h), Option.map_some]
      · rw [if_neg hfound, if_neg hfound]

theorem wellFormed_without (k : Key) {v : Json} (h : v.WellFormed) : (v.without k).WellFormed := by
  induction v using inductionOn with
  | arr vs ih =>
    rw [wellFormed_arr] at h
    rw [without, withoutItems_eq, wellFormed_arr, List.forall_mem_map]
    exact fun v hv => ih v hv (h v hv)
  | obj ms ih =>
    obtain ⟨hkeys, hvalues⟩ := wellFormed_obj.1 h
    rw [without, wellFormed_obj, meanings_withoutMembers, withoutMembers_eq, List.forall_mem_map]
    refine ⟨hkeys.filter _, fun m hm => ?_⟩
    have hm : m ∈ ms := (List.mem_filter.1 hm).1
    exact ih m hm (hvalues m hm)
  | _ => trivial

/-- A key that has been left out is not there to be left out again. -/
theorem without_without {k l : Key} (h : k.meaning = l.meaning) (v : Json) :
    (v.without k).without l = v.without k := by
  induction v using inductionOn with
  | arr vs ih =>
    simp only [without, withoutItems_eq, List.map_map, Function.comp_def]
    rw [List.map_congr_left ih]
  | obj ms ih =>
    simp only [without, withoutMembers_eq, List.filter_map, List.filter_filter, List.map_map,
      Function.comp_def, h, Bool.and_self]
    refine congrArg Json.obj (List.map_congr_left fun m hm => ?_)
    rw [ih m (List.mem_filter.1 hm).1]
  | _ => rfl

/-- It makes no difference which of two keys is left out first. -/
theorem without_comm (k l : Key) (v : Json) :
    (v.without k).without l = (v.without l).without k := by
  induction v using inductionOn with
  | arr vs ih =>
    simp only [without, withoutItems_eq, List.map_map, Function.comp_def]
    rw [List.map_congr_left ih]
  | obj ms ih =>
    simp only [without, withoutMembers_eq, List.filter_map, List.filter_filter, List.map_map,
      Function.comp_def, Bool.and_comm]
    refine congrArg Json.obj (List.map_congr_left fun m hm => ?_)
    rw [ih m (List.mem_filter.1 hm).1]
  | _ => rfl

/-! ## Several keys -/

/-- What some keys mean, in whatever order they stand and however often. -/
def meaningsOf (ks : List Key) : Set Key.Meaning := {x | ∃ k ∈ ks, k.meaning = x}

theorem meaningsOf_nil : meaningsOf [] = ∅ := by simp [meaningsOf]

theorem meaningsOf_cons (k : Key) (ks : List Key) :
    meaningsOf (k :: ks) = insert k.meaning (meaningsOf ks) := by
  ext x
  simp [meaningsOf, eq_comm]

theorem meaningsOf_subset_append (ks ls : List Key) : meaningsOf ks ⊆ meaningsOf (ks ++ ls) :=
  fun _ ⟨k, hk, hx⟩ => ⟨k, List.mem_append_left ls hk, hx⟩

theorem withoutAll_append (ks ls : List Key) (v : Json) :
    v.withoutAll (ks ++ ls) = (v.withoutAll ks).withoutAll ls :=
  List.foldl_append

theorem wellFormed_withoutAll (ks : List Key) {v : Json} (h : v.WellFormed) :
    (v.withoutAll ks).WellFormed := by
  induction ks generalizing v with
  | nil => exact h
  | cons k ks ih => exact ih (wellFormed_without k h)

instance : RightCommutative fun (v : Json) (k : Key) => v.without k :=
  ⟨fun v k l => without_comm k l v⟩

theorem withoutAll_perm {ks ls : List Key} (h : ks.Perm ls) (v : Json) :
    v.withoutAll ks = v.withoutAll ls :=
  h.foldl_eq v

theorem without_withoutAll {k : Key} {ks : List Key} (h : k.meaning ∈ meaningsOf ks) (v : Json) :
    (v.withoutAll ks).without k = v.withoutAll ks := by
  obtain ⟨l, hl, hmeaning⟩ := h
  obtain ⟨before, after, rfl⟩ := List.append_of_mem hl
  -- the key that means the same might as well be left out last
  have hlast : (before ++ l :: after).Perm (before ++ after ++ [l]) :=
    List.perm_middle.trans (List.perm_append_singleton l _).symm
  rw [withoutAll_perm hlast, withoutAll_append]
  exact without_without hmeaning _

theorem withoutAll_withoutAll {ks ls : List Key} (h : meaningsOf ls ⊆ meaningsOf ks) (v : Json) :
    (v.withoutAll ks).withoutAll ls = v.withoutAll ks := by
  induction ls with
  | nil => rfl
  | cons l ls ih =>
    rw [meaningsOf_cons, Set.insert_subset_iff] at h
    exact (congrArg (withoutAll ls) (without_withoutAll h.1 v)).trans (ih h.2)

/-- What is left of a value depends on nothing but the set of the keys that are left out. -/
theorem withoutAll_congr {ks ls : List Key} (h : meaningsOf ks = meaningsOf ls) (v : Json) :
    v.withoutAll ks = v.withoutAll ls := by
  calc v.withoutAll ks = (v.withoutAll ks).withoutAll ls := (withoutAll_withoutAll h.superset v).symm
    _ = v.withoutAll (ks ++ ls) := (withoutAll_append ks ls v).symm
    _ = v.withoutAll (ls ++ ks) := withoutAll_perm List.perm_append_comm v
    _ = (v.withoutAll ls).withoutAll ks := withoutAll_append ls ks v
    _ = v.withoutAll ls := withoutAll_withoutAll h.subset v

/-! ## The same but for some keys -/

/-- Values are the same but for the omitted keys if they are numbers or truth values of one numeric
value, lists that are so place by place, or objects that have the same keys and under each key values
that are so, whatever there is under the omitted ones. -/
inductive SameBut (omitted : Set Key.Meaning) : Json → Json → Prop
  | null : SameBut omitted .null .null
  | str (s : String) : SameBut omitted (.str s) (.str s)
  | number {a b : Json} {x : Magnitude} (left : a.number? = some x) (right : b.number? = some x) :
      SameBut omitted a b
  | arr {vs ws : List Json} (length : vs.length = ws.length)
      (items : ∀ (i : Nat) (v w : Json), vs[i]? = some v → ws[i]? = some w → SameBut omitted v w) :
      SameBut omitted (.arr vs) (.arr ws)
  | obj {ms ns : Members} (keys : ∀ x ∉ omitted, x ∈ meanings ms ↔ x ∈ meanings ns)
      (values : ∀ (k : Key) (v w : Json), k.meaning ∉ omitted →
        get? ms k = some v → get? ns k = some w → SameBut omitted v w) :
      SameBut omitted (.obj ms) (.obj ns)

theorem SameBut.mono {omitted more : Set Key.Meaning} (hmore : omitted ⊆ more) {a b : Json}
    (h : SameBut omitted a b) : SameBut more a b := by
  induction h with
  | null => exact .null
  | str s => exact .str s
  | number left right => exact .number left right
  | arr length _ ih => exact .arr length ih
  | obj keys _ ih =>
    exact .obj (fun x hx => keys x fun h => hx (hmore h))
      fun k v w hk => ih k v w fun h => hk (hmore h)

theorem same_of_sameBut {a b : Json} (ha : a.WellFormed) (hb : b.WellFormed)
    (h : SameBut ∅ a b) : a.same b = true := by
  induction h with
  | null => rfl
  | str s => exact same_self _ trivial
  | number left right => exact (same_of_number? left).2 right
  | arr length _ ih =>
    rw [wellFormed_arr] at ha hb
    refine sameItems_iff.2 ⟨length, fun i v w hv hw => ?_⟩
    exact ih i v w hv hw (ha v (List.mem_of_getElem? hv)) (hb w (List.mem_of_getElem? hw))
  | obj keys _ ih =>
    refine (same_obj_iff_get? ha.1 hb.1).2 ⟨fun x => keys x id, fun k v w hv hw => ?_⟩
    exact ih k v w id hv hw (get?_wellFormed ha hv) (get?_wellFormed hb hw)

theorem sameBut_of_same {a b : Json} (ha : a.WellFormed) (hb : b.WellFormed)
    (h : a.same b = true) : SameBut ∅ a b := by
  induction a using inductionOn generalizing b with
  | null =>
    rw [eq_of_same_null h]
    exact .null
  | str s =>
    rw [eq_of_same_str h]
    exact .str s
  | bool p => exact .number rfl ((same_of_number? rfl).1 h)
  | int i => exact .number rfl ((same_of_number? rfl).1 h)
  | float x => exact .number rfl ((same_of_number? rfl).1 h)
  | arr vs ih =>
    obtain ⟨ws, rfl, hitems⟩ := exists_of_same_arr h
    rw [wellFormed_arr] at ha hb
    obtain ⟨hlength, hsame⟩ := sameItems_iff.1 hitems
    refine .arr hlength fun i v w hv hw => ?_
    have hmem : v ∈ vs := List.mem_of_getElem? hv
    exact ih v hmem (ha v hmem) (hb w (List.mem_of_getElem? hw)) (hsame i v w hv hw)
  | obj ms ih =>
    obtain ⟨ns, rfl⟩ := exists_of_same_obj h
    obtain ⟨hkeys, hvalues⟩ := (same_obj_iff_get? ha.1 hb.1).1 h
    refine .obj (fun x _ => hkeys x) fun k v w _ hv hw => ?_
    obtain ⟨m, hm, -, rfl⟩ := mem_of_get? hv
    exact ih m hm (get?_wellFormed ha hv) (get?_wellFormed hb hw) (hvalues k m.2 w hv hw)

/-! ### Leaving out one of the keys -/

theorem SameBut.without {omitted : Set Key.Meaning} {k : Key} {a b : Json}
    (h : SameBut (insert k.meaning omitted) a b) : SameBut omitted (a.without k) (b.without k) := by
  induction h with
  | null => exact .null
  | str s => exact .str s
  | number left right =>
    exact .number ((number?_without k _).trans left) ((number?_without k _).trans right)
  | arr length _ ih =>
    simp only [Json.without, withoutItems_eq]
    refine .arr (by simpa using length) fun i v w hv hw => ?_
    rw [List.getElem?_map, Option.map_eq_some_iff] at hv hw
    obtain ⟨v, hv, rfl⟩ := hv
    obtain ⟨w, hw, rfl⟩ := hw
    exact ih i v w hv hw
  | obj keys _ ih =>
    refine .obj (fun x hx => ?_) fun k' v w hk' hv hw => ?_
    · rw [mem_meanings_withoutMembers, mem_meanings_withoutMembers]
      exact and_congr_left fun hother => keys x fun h => h.elim hother hx
    · rw [get?_withoutMembers] at hv hw
      by_cases hkey : k'.meaning = k.meaning
      · rw [if_pos hkey] at hv
        cases hv
      · rw [if_neg hkey, Option.map_eq_some_iff] at hv hw
        obtain ⟨v, hv, rfl⟩ := hv
        obtain ⟨w, hw, rfl⟩ := hw
        exact ih k' v w (fun h => h.elim hkey hk') hv hw

theorem exists_of_without_eq_arr {k : Key} {a : Json} {vs' : List Json}
    (h : a.without k = .arr vs') : ∃ vs, a = .arr vs ∧ vs.map (without k) = vs' := by
  cases a <;> cases h
  exact ⟨_, rfl, (withoutItems_eq k _).symm⟩

theorem exists_of_without_eq_obj {k : Key} {a : Json} {ms' : Members}
    (h : a.without k = .obj ms') : ∃ ms, a = .obj ms ∧ withoutMembers k ms = ms' := by
  cases a <;> cases h
  exact ⟨_, rfl, rfl⟩

theorem SameBut.of_without {omitted : Set Key.Meaning} {k : Key} {a b : Json}
    (h : SameBut omitted (a.without k) (b.without k)) : SameBut (insert k.meaning omitted) a b := by
  generalize ha : a.without k = a', hb : b.without k = b' at h
  induction h generalizing a b with
  | null => cases a <;> cases ha; cases b <;> cases hb; exact .null
  | str s => cases a <;> cases ha; cases b <;> cases hb; exact .str s
  | number left right =>
    subst ha hb
    exact .number ((number?_without k a).symm.trans left) ((number?_without k b).symm.trans right)
  | arr length _ ih =>
    obtain ⟨vs, rfl, rfl⟩ := exists_of_without_eq_arr ha
    obtain ⟨ws, rfl, rfl⟩ := exists_of_without_eq_arr hb
    refine .arr (by simpa using length) fun i v w hv hw => ih i _ _ ?_ ?_ rfl rfl
    · rw [List.getElem?_map, hv, Option.map_some]
    · rw [List.getElem?_map, hw, Option.map_some]
  | obj keys _ ih =>
    obtain ⟨ms, rfl, rfl⟩ := exists_of_without_eq_obj ha
    obtain ⟨ns, rfl, rfl⟩ := exists_of_without_eq_obj hb
    refine .obj (fun x hx => ?_) fun k' v w hk' hv hw => ?_
    · obtain ⟨hother, hx⟩ := not_or.1 hx
      have hkeys := keys x hx
      rwa [mem_meanings_withoutMembers, mem_meanings_withoutMembers, and_iff_left hother,
        and_iff_left hother] at hkeys
    · obtain ⟨hother, hk'⟩ := not_or.1 hk'
      refine ih k' _ _ hk' ?_ ?_ rfl rfl
      · rw [get?_withoutMembers, if_neg hother, hv, Option.map_some]
      · rw [get?_withoutMembers, if_neg hother, hw, Option.map_some]

/-! ## Equality with keys left out -/

/-- Values are equal with some keys left out exactly if they are the same but for those keys. -/
theorem sameIgnoring_iff (ks : List Key) {a b : Json} (ha : a.WellFormed) (hb : b.WellFormed) :
    sameIgnoring ks a b = true ↔ SameBut (meaningsOf ks) a b := by
  induction ks generalizing a b with
  | nil =>
    rw [meaningsOf_nil]
    exact ⟨sameBut_of_same ha hb, same_of_sameBut ha hb⟩
  | cons k ks ih =>
    rw [meaningsOf_cons]
    exact (ih (wellFormed_without k ha) (wellFormed_without k hb)).trans
      ⟨SameBut.of_without, SameBut.without⟩

theorem sameIgnoring_equivalence (ks : List Key) :
    Equivalence fun a b : { v : Json // v.WellFormed } => sameIgnoring ks a.1 b.1 = true where
  refl a := same_self _ (wellFormed_withoutAll ks a.2)
  symm {a b} := same_symm _ (wellFormed_withoutAll ks a.2) _ (wellFormed_withoutAll ks b.2)
  trans {a b c} := same_trans (a.1.withoutAll ks) (b.1.withoutAll ks) (c.1.withoutAll ks)

/-- Equality with keys left out is sameness but for those keys, an equivalence between values with
distinct keys. A key can be left out twice, and two keys in either order, without making a
difference, so it depends on the set of the keys only. What is equal is still equal when more
keys are left out. -/
theorem sameIgnoring_graded (ks : List Key) :
    (Equivalence fun a b : { v : Json // v.WellFormed } => sameIgnoring ks a.1 b.1 = true) ∧
      (∀ a b : { v : Json // v.WellFormed },
        sameIgnoring ks a.1 b.1 = true ↔ SameBut (meaningsOf ks) a.1 b.1) ∧
      (∀ (k l : Key) (v : Json), (v.without k).without k = v.without k ∧
        (v.without k).without l = (v.without l).without k) ∧
      (∀ ls, meaningsOf ks = meaningsOf ls → (∀ v : Json, v.withoutAll ks = v.withoutAll ls) ∧
        ∀ a b : Json, sameIgnoring ks a b = sameIgnoring ls a b) ∧
      ∀ (ls : List Key) (a b : { v : Json // v.WellFormed }),
        sameIgnoring ks a.1 b.1 = true → sameIgnoring (ks ++ ls) a.1 b.1 = true := by
  refine ⟨sameIgnoring_equivalence ks, fun a b => sameIgnoring_iff ks a.2 b.2,
    fun k l v => ⟨without_without rfl v, without_comm k l v⟩, fun ls h => ?_, fun ls a b h => ?_⟩
  · have hleft : ∀ v : Json, v.withoutAll ks = v.withoutAll ls := withoutAll_congr h
    exact ⟨hleft, fun a b => by rw [sameIgnoring, sameIgnoring, hleft a, hleft b]⟩
  · have hsame : SameBut (meaningsOf ks) a.1 b.1 := (sameIgnoring_iff ks a.2 b.2).1 h
    exact (sameIgnoring_iff (ks ++ ls) a.2 b.2).2 (hsame.mono (meaningsOf_subset_append ks ls))

/-! ### One schema, written three times -/

/-- Sizes as whole numbers. -/
def wholeSizes : Json :=
  .obj [("type", .str "number"),
    ("enum", .arr [.int 1, .obj [("description", .str "none"), ("size", .int 0)]]),
    ("description", .str "whole")]

/-- The same sizes as numbers with a fraction. -/
def exactSizes : Json :=
  .obj [("description", .str "exact"), ("type", .str "number"),
    ("enum", .arr [.float (.finite ⟨false, 1, 0⟩), .obj [("size", .float (.finite ⟨true, 0, 0⟩))]])]

/-- The same sizes as truth values. -/
def truthSizes : Json :=
  .obj [("enum", .arr [.bool true, .obj [("size", .bool false), ("description", .str "no")]]),
    ("type", .str "number")]

theorem wellFormed_sizes :
    wholeSizes.WellFormed ∧ exactSizes.WellFormed ∧ truthSizes.WellFormed := by
  simp [wholeSizes, exactSizes, truthSizes, WellFormed, wellFormedItems, wellFormedMembers,
    meanings, Key.meaning]

theorem sameIgnoring_graded_sizes :
    (sameIgnoring ["title"] wholeSizes truthSizes = false ∧
      sameIgnoring ["title", "description"] wholeSizes truthSizes = true) ∧
    (meaningsOf ["title", "description"] = meaningsOf ["description", "title", "description"] ∧
      sameIgnoring ["description", "title", "description"] wholeSizes truthSizes = true) ∧
    sameIgnoring ["title", "description", "type"] wholeSizes truthSizes = true := by
  obtain ⟨hwhole, hexact, htruth⟩ := wellFormed_sizes
  obtain ⟨hequivalence, -, -, hset, hmore⟩ := sameIgnoring_graded ["title", "description"]
  have hfirst : sameIgnoring ["title", "description"] wholeSizes exactSizes = true := by
    decide +kernel
  have hsecond : sameIgnoring ["title", "description"] exactSizes truthSizes = true := by
    decide +kernel
  have hsame : sameIgnoring ["title", "description"] wholeSizes truthSizes = true :=
    hequivalence.trans (x := ⟨_, hwhole⟩) (y := ⟨_, hexact⟩) (z := ⟨_, htruth⟩) hfirst hsecond
  have hkeys : meaningsOf ["title", "description"] =
      meaningsOf ["description", "title", "description"] := by
    simp only [meaningsOf_cons]
    rw [Set.insert_comm, Set.insert_idem]
  refine ⟨⟨by decide +kernel, hsame⟩, ⟨hkeys, ?_⟩, hmore ["type"] ⟨_, hwhole⟩ ⟨_, htruth⟩ hsame⟩
  rw [← (hset _ hkeys).2]
  exact hsame

end Json

end ClientForge
