-- SUMMARY: What merging objects keeps: keys, the values under them, distinctness, references and weight.
import ClientForge.Json.WellFormed
import ClientForge.Schema.Resolve

/-!
# Laws of merging

A merge has the keys of both objects (`mem_meanings_merge`) and under each key the
value of the second combined with that of the first (`get?_merge`). What is said of every
object and of every member under its key holds of a merge if it holds of both objects
(`Memberwise.merge`), such as that keys are distinct at every depth (`memberwise_wellFormed`)
and that no other than some known references are written (`memberwise_known`). A merge weighs
no more than both objects together (`weight_merge`).
Members that resolving takes away can be taken away before or after (`own_merge`).
-/

namespace ClientForge

/-! ## Members of well-formed objects -/

namespace Members

theorem meanings_cons (m : Key × Json) (ms : Members) :
    meanings (m :: ms) = m.1.meaning :: meanings ms := rfl

theorem mem_of_get? {ms : Members} {k : Key} {v : Json} (h : get? ms k = some v) :
    ∃ m ∈ ms, m.1.meaning = k.meaning ∧ m.2 = v := by
  induction ms with
  | nil => simp [get?] at h
  | cons m ms ih =>
    simp only [get?] at h
    split at h
    · rename_i same
      exact ⟨m, List.mem_cons_self, same, by simpa using h⟩
    · obtain ⟨m', hm', hk, hv⟩ := ih h
      exact ⟨m', List.mem_cons_of_mem _ hm', hk, hv⟩

theorem get?_of_get {ms : Members} {k : Key} {v : Json} (h : get ms k = v) (hv : v ≠ .null) :
    get? ms k = some v := by
  unfold get at h
  cases hget : get? ms k with
  | none =>
    rw [hget] at h
    exact absurd h.symm hv
  | some w =>
    rw [hget] at h
    exact congrArg some h

theorem get?_of_get_obj {ms members : Members} {k : Key} (h : get ms k = .obj members) :
    get? ms k = some (.obj members) :=
  get?_of_get h nofun

theorem get?_wellFormed {ms : Members} (h : (Json.obj ms).WellFormed) {k : Key} {v : Json}
    (hv : get? ms k = some v) : v.WellFormed := by
  obtain ⟨m, hm, _, rfl⟩ := mem_of_get? hv
  exact (Json.wellFormed_obj.1 h).2 m hm

theorem get?_eq_none_iff {ms : Members} {k : Key} :
    get? ms k = none ↔ k.meaning ∉ meanings ms := by
  rw [← isSome_get?_iff, Bool.not_eq_true, Option.isSome_eq_false_iff, Option.isNone_iff_eq_none]

theorem has_iff {ms : Members} {k : Key} : has ms k = true ↔ k.meaning ∈ meanings ms :=
  isSome_get?_iff

/-! ## Keys and values -/

theorem mem_meanings_put {ms : Members} {k : Key} {v : Json} {x : Key.Meaning} :
    x ∈ meanings (put ms k v) ↔ x ∈ meanings ms ∨ x = k.meaning := by
  rw [meanings_put]
  split
  · rename_i held
    exact ⟨.inl, fun h => h.elim id fun e => e ▸ held⟩
  · simp

theorem mem_meanings_merge {a b : Members} {x : Key.Meaning} :
    x ∈ meanings (merge a b) ↔ x ∈ meanings a ∨ x ∈ meanings b := by
  induction b generalizing a with
  | nil => simp [merge, meanings]
  | cons m b ih =>
    obtain ⟨k, v⟩ := m
    rw [merge, ih, mem_meanings_put, meanings_cons, List.mem_cons, or_assoc]

theorem nodup_meanings_merge {a b : Members} (ha : (meanings a).Nodup) :
    (meanings (merge a b)).Nodup := by
  induction b generalizing a with
  | nil => exact ha
  | cons m b ih =>
    obtain ⟨k, v⟩ := m
    rw [merge]
    exact ih (nodup_meanings_put ha _ _)

/-- Under a key a merge holds what the second object brings to it, if it brings anything. -/
theorem get?_merge {a b : Members} (hb : (meanings b).Nodup) (k : Key) :
    get? (merge a b) k =
      match get? b k with
      | none => get? a k
      | some v => some (combine (get? a k) v) := by
  induction b generalizing a with
  | nil => simp [merge, get?]
  | cons m b ih =>
    obtain ⟨k', v'⟩ := m
    rw [meanings_cons, List.nodup_cons] at hb
    rw [merge, ih hb.2, get?_put]
    by_cases same : k'.meaning = k.meaning
    · have hnone : get? b k = none := get?_eq_none_iff.2 (same ▸ hb.1)
      simp [get?, same, hnone, get?_congr same]
    · simp [get?, same]

/-- False values merge to a false one. -/
theorem truthy_combine {held : Option Json} {v : Json}
    (hheld : ∀ w, held = some w → w.truthy = false) (hv : v.truthy = false) :
    (combine held v).truthy = false := by
  cases v with
  | arr items =>
    unfold combine
    split
    · rename_i earlier
      have hearlier := hheld _ rfl
      simp_all [Json.truthy]
    · exact hv
  | obj members =>
    unfold combine
    split
    · rename_i earlier
      have hearlier := hheld _ rfl
      cases members with
      | nil => exact hearlier
      | cons => cases hv
    · exact hv
  | _ => exact hv

theorem truthy_get?_merge {k : Key} {a b : Members}
    (ha : ∀ v, get? a k = some v → v.truthy = false)
    (hb : ∀ m ∈ b, m.1.meaning = k.meaning → m.2.truthy = false) :
    ∀ v, get? (merge a b) k = some v → v.truthy = false := by
  induction b generalizing a with
  | nil => exact ha
  | cons m b ih =>
    obtain ⟨k', v'⟩ := m
    rw [merge]
    refine ih ?_ fun m hm => hb m (List.mem_cons_of_mem _ hm)
    intro v hv
    rw [get?_put] at hv
    split at hv
    · rename_i hsame
      cases hv
      rw [get?_congr hsame]
      exact truthy_combine ha (hb _ List.mem_cons_self hsame)
    · exact ha v hv

/-! ## What is said of every member -/

/-- A property that says something of every object in a value, and of every member something
that depends on its key. -/
structure Memberwise (P : Json → Prop) (Own : Members → Prop) (Fits : Key → Json → Prop) : Prop where
  atom : ∀ {v}, v.isKey = true → P v
  arr : ∀ {vs}, P (.arr vs) ↔ ∀ v ∈ vs, P v
  obj : ∀ {ms}, P (.obj ms) ↔ Own ms ∧ ∀ m ∈ ms, Fits m.1 m.2 ∧ P m.2
  own_nil : Own []
  own_filter : ∀ (keep : Key → Bool) {ms}, Own ms → Own (ms.filter fun m => keep m.1)
  own_put : ∀ {ms} k v, Own ms → Own (put ms k v)
  fits_congr : ∀ {k k' v}, k.meaning = k'.meaning → Fits k v → Fits k' v
  fits_combine : ∀ {k v} held, Fits k v → Fits k (combine held v)

section
variable {P : Json → Prop} {Own : Members → Prop} {Fits : Key → Json → Prop}

theorem Memberwise.put (h : Memberwise P Own Fits) {ms : Members} {k : Key} {v : Json}
    (hms : P (.obj ms)) (hfits : Fits k v) (hv : P v) : P (.obj (Members.put ms k v)) := by
  rw [h.obj] at hms ⊢
  refine ⟨h.own_put k v hms.1, fun m hm => ?_⟩
  rcases mem_put hm with hm | ⟨hmeaning, rfl⟩
  · exact hms.2 m hm
  · exact ⟨h.fits_congr hmeaning.symm hfits, hv⟩

mutual

theorem Memberwise.mergeMembers (h : Memberwise P Own Fits) {a : Members} (ha : P (.obj a))
    (b : List (Key × Json)) (hb : ∀ m ∈ b, Fits m.1 m.2 ∧ P m.2) : P (.obj (merge a b)) := by
  match b with
  | [] => exact ha
  | (k, v) :: rest =>
    obtain ⟨⟨hfits, hv⟩, hrest⟩ := List.forall_mem_cons.1 hb
    have hheld : ∀ w, get? a k = some w → P w := by
      intro w hw
      obtain ⟨m, hm, -, rfl⟩ := mem_of_get? hw
      exact ((h.obj.1 ha).2 m hm).2
    rw [merge]
    exact h.mergeMembers (h.put ha (h.fits_combine _ hfits) (h.combine hheld v hv)) rest hrest

theorem Memberwise.combine (h : Memberwise P Own Fits) {held : Option Json}
    (hheld : ∀ w, held = some w → P w) (v : Json) (hv : P v) : P (Members.combine held v) := by
  match v with
  | .arr items =>
    simp only [Members.combine]
    split
    · rename_i earlier
      have hearlier := h.arr.1 (hheld _ rfl)
      rw [h.arr] at hv ⊢
      intro w hw
      exact (List.mem_append.1 hw).elim (hearlier w) (hv w)
    · exact hv
  | .obj members =>
    simp only [Members.combine]
    split
    · exact h.mergeMembers (hheld _ rfl) members (h.obj.1 hv).2
    · exact hv
  | .null => exact hv
  | .bool _ => exact hv
  | .int _ => exact hv
  | .float _ => exact hv
  | .str _ => exact hv

end

theorem Memberwise.merge (h : Memberwise P Own Fits) {a b : Members} (ha : P (.obj a))
    (hb : P (.obj b)) : P (.obj (merge a b)) :=
  h.mergeMembers ha b (h.obj.1 hb).2

end

theorem memberwise_wellFormed :
    Memberwise Json.WellFormed (fun ms => (meanings ms).Nodup) fun _ _ => True where
  atom {v} hv := by cases v <;> trivial
  arr := Json.wellFormed_arr
  obj := by simp [Json.wellFormed_obj]
  own_nil := List.nodup_nil
  own_filter keep _ h := h.sublist (List.filter_sublist.map _)
  own_put k v h := nodup_meanings_put h k v
  fits_congr _ _ := trivial
  fits_combine _ _ := trivial

end Members

/-! ## References -/

namespace Schema

open Members

theorem writtenRef_congr {k k' : Key} (h : k.meaning = k'.meaning) (v : Json) :
    writtenRef k v = writtenRef k' v := by
  have same : k = refKey ↔ k' = refKey := by
    rw [refKey, ← Key.meaning_eq_text_iff, h, Key.meaning_eq_text_iff]
  cases v <;> simp [writtenRef, same]

theorem writtenRef_combine {k : Key} {held : Option Json} {v : Json} {x : String}
    (hx : x ∈ writtenRef k (combine held v)) : x ∈ writtenRef k v := by
  cases v with
  | arr items =>
    simp only [combine] at hx
    split at hx <;> simp [writtenRef] at hx
  | obj members =>
    simp only [combine] at hx
    split at hx <;> simp [writtenRef] at hx
  | null | bool | int | float | str => exact hx

theorem mem_referencesOfItems {vs : List Json} {x : String} :
    x ∈ referencesOfItems vs ↔ ∃ v ∈ vs, x ∈ references v := by
  induction vs with
  | nil => simp [referencesOfItems]
  | cons v vs ih => simp [referencesOfItems, ih]

theorem mem_references_obj {ms : Members} {x : String} :
    x ∈ references (.obj ms) ↔ ∃ m ∈ ms, x ∈ writtenRef m.1 m.2 ∨ x ∈ references m.2 := by
  rw [references]
  induction ms with
  | nil => simp [referencesOfMembers]
  | cons m ms ih => simp [referencesOfMembers, ih, or_assoc]

theorem mem_references_of_get? {ms : Members} {k : Key} {v : Json} {x : String}
    (hv : get? ms k = some v) (hx : x ∈ references v) : x ∈ references (.obj ms) := by
  obtain ⟨m, hm, _, rfl⟩ := mem_of_get? hv
  exact mem_references_obj.2 ⟨m, hm, .inr hx⟩

/-- Nothing but known references is written. -/
theorem memberwise_known (Known : String → Prop) :
    Memberwise (fun v => ∀ ref ∈ references v, Known ref) (fun _ => True) fun k v =>
      ∀ ref ∈ writtenRef k v, Known ref where
  atom {v} hv := by
    cases v with
    | arr | obj => cases hv
    | _ => simp [references]
  arr := by
    intro vs
    simp only [references, mem_referencesOfItems]
    constructor
    · exact fun h v hv ref href => h ref ⟨v, hv, href⟩
    · rintro h ref ⟨v, hv, href⟩
      exact h v hv ref href
  obj := by
    intro ms
    simp only [mem_references_obj, true_and]
    constructor
    · exact fun h m hm => ⟨fun ref href => h ref ⟨m, hm, .inl href⟩,
        fun ref href => h ref ⟨m, hm, .inr href⟩⟩
    · rintro h ref ⟨m, hm, href | href⟩
      · exact (h m hm).1 ref href
      · exact (h m hm).2 ref href
  own_nil := trivial
  own_filter _ _ _ := trivial
  own_put _ _ _ := trivial
  fits_congr hmeaning h := writtenRef_congr hmeaning _ ▸ h
  fits_combine _ h ref href := h ref (writtenRef_combine href)

/-! ## Members that are resolved away -/

/-- Whether a member stays when a schema is resolved. -/
def Mode.keeps (m : Mode) (k : Key) : Bool := !(m.refs && k == refKey) && !(m.allOf && k == allOfKey)

theorem Mode.own_eq (m : Mode) (ms : Members) : m.own ms = ms.filter fun kv => m.keeps kv.1 := rfl

theorem Mode.keeps_congr (m : Mode) {k k' : Key} (h : k.meaning = k'.meaning) :
    m.keeps k = m.keeps k' := by
  have same (s : String) : (k == .text s) = (k' == .text s) := by
    rw [Bool.eq_iff_iff, beq_iff_eq, beq_iff_eq, ← Key.meaning_eq_text_iff, h,
      Key.meaning_eq_text_iff]
  simp only [keeps, refKey, allOfKey, same]

theorem Mode.get?_own (m : Mode) {k : Key} (hk : m.keeps k = true) (ms : Members) :
    get? (m.own ms) k = get? ms k := by
  rw [own_eq]
  induction ms with
  | nil => rfl
  | cons kv ms ih =>
    by_cases same : kv.1.meaning = k.meaning
    · have hkv : m.keeps kv.1 = true := by rw [m.keeps_congr same, hk]
      simp [hkv, get?, same]
    · by_cases hkv : m.keeps kv.1 = true
      · simp [hkv, get?, same, ih]
      · simp [hkv, get?, same, ih]

theorem Mode.own_put (m : Mode) (ms : Members) (k : Key) (v : Json) :
    m.own (put ms k v) = if m.keeps k then put (m.own ms) k v else m.own ms := by
  simp only [own_eq]
  induction ms with
  | nil => by_cases hk : m.keeps k = true <;> simp [put, hk]
  | cons kv ms ih =>
    by_cases same : kv.1.meaning = k.meaning
    · have hkv := m.keeps_congr same
      by_cases hk : m.keeps k = true <;> simp [put, same, hkv, hk]
    · by_cases hkv : m.keeps kv.1 = true <;> by_cases hk : m.keeps k = true <;>
        simp [put, same, hkv, hk, ih]

/-- It makes no difference whether members are taken away before a merge or after it. -/
theorem Mode.own_merge (m : Mode) (a b : Members) :
    m.own (merge a b) = merge (m.own a) (m.own b) := by
  induction b generalizing a with
  | nil => rfl
  | cons kv b ih =>
    obtain ⟨k, v⟩ := kv
    rw [merge, ih, m.own_put]
    by_cases hk : m.keeps k = true
    · rw [if_pos hk, own_eq m ((k, v) :: b), List.filter_cons, if_pos hk, merge, ← own_eq,
        m.get?_own hk]
    · rw [if_neg hk, own_eq m ((k, v) :: b), List.filter_cons, if_neg hk, ← own_eq]

theorem Mode.own_own (m : Mode) (ms : Members) : m.own (m.own ms) = m.own ms := by
  simp [own_eq]

end Schema

/-! ## Weight -/

namespace Json

mutual

/-- How many values a value holds, itself included. -/
def weight : Json → Nat
  | .arr items => 1 + weightOfItems items
  | .obj members => 1 + weightOfMembers members
  | _ => 1

def weightOfItems : List Json → Nat
  | [] => 0
  | v :: vs => weight v + weightOfItems vs

def weightOfMembers : List (Key × Json) → Nat
  | [] => 0
  | (_, v) :: ms => weight v + weightOfMembers ms

end

theorem weightOfItems_append (vs ws : List Json) :
    weightOfItems (vs ++ ws) = weightOfItems vs + weightOfItems ws := by
  induction vs with
  | nil => simp [weightOfItems]
  | cons v vs ih => simp [weightOfItems, ih, Nat.add_assoc]

theorem one_le_weight (v : Json) : 1 ≤ v.weight := by
  cases v <;> simp [weight]

theorem index_add_weight_le {items : List Json} {index : Nat} {v : Json}
    (h : items[index]? = some v) : index + v.weight ≤ weightOfItems items := by
  induction items generalizing index with
  | nil => cases h
  | cons w items ih =>
    rw [weightOfItems]
    cases index with
    | zero =>
      cases h
      omega
    | succ index =>
      have hrest := ih (List.getElem?_cons_succ ▸ h)
      have hw := one_le_weight w
      omega

theorem weightOfMembers_filter (p : Key × Json → Bool) (ms : Members) :
    weightOfMembers (ms.filter p) ≤ weightOfMembers ms := by
  induction ms with
  | nil => simp
  | cons m ms ih =>
    rw [List.filter_cons]
    split <;> simp only [weightOfMembers] <;> omega

end Json

namespace Members

open Json

/-- What the value of a key weighs, if it has one. -/
def heldWeight (held : Option Json) : Nat := (held.map weight).getD 0

theorem weight_le_of_mem {ms : Members} {m : Key × Json} (h : m ∈ ms) :
    m.2.weight ≤ weightOfMembers ms := by
  induction ms with
  | nil => cases h
  | cons m' ms ih =>
    simp only [weightOfMembers]
    rcases List.mem_cons.1 h with rfl | h
    · exact Nat.le_add_right _ _
    · exact Nat.le_trans (ih h) (Nat.le_add_left _ _)

theorem weight_put (ms : Members) (k : Key) (v : Json) :
    weightOfMembers (put ms k v) + heldWeight (get? ms k) = weightOfMembers ms + v.weight := by
  induction ms with
  | nil => simp [put, get?, heldWeight, weightOfMembers]
  | cons m ms ih =>
    simp only [put, get?]
    split <;> simp only [weightOfMembers, heldWeight, Option.map_some, Option.getD_some] at ih ⊢ <;>
      omega

mutual

theorem weight_merge (a b : Members) :
    weightOfMembers (merge a b) ≤ weightOfMembers a + weightOfMembers b := by
  match b with
  | [] => simp [merge, weightOfMembers]
  | (k, v) :: rest =>
    have hrest := weight_merge (put a k (combine (get? a k) v)) rest
    have hput := weight_put a k (combine (get? a k) v)
    have hv := weight_combine (get? a k) v
    simp only [merge, weightOfMembers]
    omega

theorem weight_combine (held : Option Json) (v : Json) :
    (combine held v).weight ≤ heldWeight held + v.weight := by
  match v with
  | .arr items =>
    simp only [combine]
    split
    · simp only [heldWeight, Option.map_some, Option.getD_some, weight, weightOfItems_append]
      omega
    · omega
  | .obj members =>
    simp only [combine]
    split
    · rename_i earlier
      have hm := weight_merge earlier members
      simp only [heldWeight, Option.map_some, Option.getD_some, weight]
      omega
    · omega
  | .null => simp [combine]
  | .bool _ => simp [combine]
  | .int _ => simp [combine]
  | .float _ => simp [combine]
  | .str _ => simp [combine]

end

end Members

end ClientForge
