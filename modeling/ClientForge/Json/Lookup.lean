-- SUMMARY: Looking up a key after another has been set, and keys that stay distinct.
import ClientForge.Json.Basic

/-!
# Looking up and setting members

Setting a key changes what keys of its meaning give and nothing else (`get?_put`).
The key keeps its place, and the way it is written there, if it has one and comes
last otherwise (`keys_put`), so keys that are distinct stay so (`nodup_meanings_put`).
-/

namespace ClientForge

namespace Key

/-- Only a text means a text, so no number is looked up by mistake for one. -/
theorem meaning_eq_text_iff {k : Key} {s : String} : k.meaning = .text s ↔ k = .text s := by
  cases k <;> simp [meaning]

end Key

namespace Members

/-! ## Looking up -/

theorem get?_put_self (ms : Members) (k : Key) (v : Json) : get? (put ms k v) k = some v := by
  induction ms with
  | nil => simp [put, get?]
  | cons m ms ih =>
    simp only [put]
    split
    · rename_i same
      simp [get?, same]
    · rename_i other
      simp [get?, other, ih]

theorem get?_congr {k k' : Key} (h : k.meaning = k'.meaning) (ms : Members) :
    get? ms k = get? ms k' := by
  induction ms with
  | nil => rfl
  | cons m ms ih => simp only [get?, h, ih]

theorem get?_put_of_ne {k k' : Key} (h : k.meaning ≠ k'.meaning) (ms : Members) (v : Json) :
    get? (put ms k v) k' = get? ms k' := by
  induction ms with
  | nil => simp [put, get?, h]
  | cons m ms ih =>
    simp only [put]
    split
    · rename_i same
      simp [get?, same, h]
    · simp [get?, ih]

theorem get?_put (ms : Members) (k k' : Key) (v : Json) :
    get? (put ms k v) k' = if k.meaning = k'.meaning then some v else get? ms k' := by
  by_cases h : k.meaning = k'.meaning
  · rw [← get?_congr h, get?_put_self, if_pos h]
  · rw [get?_put_of_ne h, if_neg h]

theorem isSome_get?_iff {ms : Members} {k : Key} :
    (get? ms k).isSome ↔ k.meaning ∈ meanings ms := by
  induction ms with
  | nil => simp [get?, meanings]
  | cons m ms ih =>
    by_cases h : m.1.meaning = k.meaning
    · simp [get?, meanings, h]
    · have h' : k.meaning ≠ m.1.meaning := fun e => h e.symm
      simp only [get?, h, if_false, ih, meanings, List.map_cons, List.mem_cons, h', false_or]

/-! ## Keys -/

theorem keys_put (ms : Members) (k : Key) (v : Json) :
    keys (put ms k v) = if k.meaning ∈ meanings ms then keys ms else keys ms ++ [k] := by
  induction ms with
  | nil => simp [put, keys, meanings]
  | cons m ms ih =>
    by_cases h : m.1.meaning = k.meaning
    · simp [put, keys, meanings, h]
    · have h' : k.meaning ≠ m.1.meaning := fun e => h e.symm
      simp only [put, h, if_false]
      simp only [keys, meanings, List.map_cons, List.mem_cons, h', false_or] at ih ⊢
      rw [ih]
      by_cases mem : k.meaning ∈ ms.map (·.1.meaning) <;> simp [mem]

theorem map_meaning_keys (ms : Members) : (keys ms).map Key.meaning = meanings ms := by
  simp [keys, meanings]

theorem meanings_put (ms : Members) (k : Key) (v : Json) :
    meanings (put ms k v) =
      if k.meaning ∈ meanings ms then meanings ms else meanings ms ++ [k.meaning] := by
  rw [← map_meaning_keys, keys_put]
  split <;> simp [map_meaning_keys]

theorem nodup_meanings_put {ms : Members} (h : (meanings ms).Nodup) (k : Key) (v : Json) :
    (meanings (put ms k v)).Nodup := by
  rw [meanings_put]
  split
  · exact h
  · rename_i new
    refine List.nodup_append.2 ⟨h, by simp, ?_⟩
    intro a ha b hb
    rw [List.mem_singleton.1 hb]
    exact fun e => new (e ▸ ha)

end Members

end ClientForge
