-- SUMMARY: No class name has a dot in it, so that the names joined by a dot can be told apart.
import ClientForge.Inference
import ClientForge.Proofs.Name.Empty

/-!
# Names without dots

The words of a text are made of word characters (`isWordChar_of_mem_split`). Whatever becomes of
their case, none of them turns into a dot, and what a name adds to its words is no dot either, so
there is none in a class name (`Name.undotted_ofClass`).
-/

namespace ClientForge

namespace Words

/-! ## The characters of words -/

theorem isWordChar_of_step {p : Phase} {c : Char} (humped : Bool) (h : p.step c humped ≠ .separate) :
    isWordChar c = true := by
  rw [Ne, step_eq_separate_iff, Bool.not_eq_false] at h
  exact h

theorem isWordChar_of_mem_close {word w : List Char} (hword : ∀ c ∈ word, isWordChar c = true)
    (hw : w ∈ close word) : ∀ c ∈ w, isWordChar c = true := by
  unfold close at hw
  split at hw
  · cases hw
  · rw [List.mem_singleton.1 hw]
    exact hword

theorem isWordChar_of_mem_scan {p : Phase} {word cs w : List Char}
    (hword : ∀ c ∈ word, isWordChar c = true) (hw : w ∈ scan p word cs) :
    ∀ c ∈ w, isWordChar c = true := by
  induction cs generalizing p word with
  | nil => exact isWordChar_of_mem_close hword hw
  | cons c cs ih =>
    rw [scan] at hw
    split at hw
    · rcases List.mem_append.1 hw with hw | hw
      · exact isWordChar_of_mem_close hword hw
      · exact ih (List.forall_mem_nil _) hw
    · rename_i q hstep
      have hkept : p.step c (startsSmall cs) ≠ .separate := by simp [hstep]
      have hc := isWordChar_of_step _ hkept
      rcases List.mem_append.1 hw with hw | hw
      · exact isWordChar_of_mem_close hword hw
      · exact ih (List.forall_mem_singleton.2 hc) hw
    · rename_i q hstep
      have hkept : p.step c (startsSmall cs) ≠ .separate := by simp [hstep]
      have hc := isWordChar_of_step _ hkept
      exact ih (List.forall_mem_append.2 ⟨hword, List.forall_mem_singleton.2 hc⟩) hw

/-- The words of a text are made of word characters. -/
theorem isWordChar_of_mem_split {cs w : List Char} (h : w ∈ split cs) :
    ∀ c ∈ w, isWordChar c = true :=
  isWordChar_of_mem_scan (List.forall_mem_nil _) h

theorem ne_dot_of_mem_split {cs w : List Char} (h : w ∈ split cs) : '.' ∉ w := by
  intro hdot
  have hword := isWordChar_of_mem_split h '.' hdot
  revert hword
  decide

end Words

/-! ## Case -/

namespace Text

theorem toLower_eq_dot {c : Char} (h : c.toLower = '.') : c = '.' := by
  unfold Char.toLower at h
  split at h
  · rename_i hupper
    have hval : (c.val + 32).toNat = 46 := congrArg (fun d : Char => d.val.toNat) h
    have hlow : 65 ≤ c.val.toNat := UInt32.le_iff_toNat_le.1 hupper.1
    have hhigh : c.val.toNat ≤ 90 := UInt32.le_iff_toNat_le.1 hupper.2
    rw [UInt32.toNat_add] at hval
    simp only [UInt32.reduceToNat] at hval
    omega
  · exact h

theorem toUpper_eq_dot {c : Char} (h : c.toUpper = '.') : c = '.' := by
  unfold Char.toUpper at h
  split at h
  · rename_i hlower
    have hval := congrArg Char.val h
    have hlow : 97 ≤ c.val.toNat := UInt32.le_iff_toNat_le.1 hlower.1
    have hhigh : c.val.toNat ≤ 122 := UInt32.le_iff_toNat_le.1 hlower.2
    have hstep : ('A'.val - 'a'.val).toNat = 4294967264 := by decide
    have hdot : '.'.val.toNat = 46 := by decide
    rw [← UInt32.toNat_inj, UInt32.toNat_add, hstep, hdot] at hval
    omega
  · exact h

theorem eq_of_ofNat_eq_dot {n : Nat} (h : Char.ofNat n = '.') : n = 46 := by
  by_cases hvalid : n.isValidChar
  · rw [Char.ofNat, dif_pos hvalid] at h
    exact congrArg Char.toNat h
  · rw [Char.ofNat, dif_neg hvalid] at h
    exact absurd h (by decide)

/-- The images in the table of upper case all lie above the dot. -/
theorem upperRuns_above_dot : upperRuns.all (fun r => decide (46 < r.image)) = true := by
  cbv

theorem eq_dot_of_mem_upperChar {c : Char} (h : '.' ∈ upperChar c) : c = '.' := by
  have hspecial : ∀ special ∈ upperSpecial, '.' ∉ special.2.map Char.ofNat := by decide
  simp only [upperChar] at h
  split at h
  · exact toUpper_eq_dot (List.mem_singleton.1 h).symm
  · split at h
    · rename_i image hlookup
      obtain ⟨before, after, hsplit, -⟩ := List.lookup_eq_some_iff.1 hlookup
      exact absurd h (hspecial (c.toNat, image) (by simp [hsplit]))
    · split at h
      · rename_i r hfind
        have habove : 46 < r.image :=
          of_decide_eq_true (List.all_eq_true.1 upperRuns_above_dot r (List.mem_of_find?_eq_some hfind))
        have hdot := eq_of_ofNat_eq_dot (List.mem_singleton.1 h).symm
        omega
      · exact (List.mem_singleton.1 h).symm

end Text

/-! ## Names -/

/-- A name without dots. -/
def Undotted (name : String) : Prop := '.' ∉ name.toList

namespace Name

open Words

theorem undotted_lower {w : List Char} (h : '.' ∉ w) : '.' ∉ lower w := by
  intro hdot
  obtain ⟨c, hc, hlower⟩ := List.mem_map.1 hdot
  exact h (Text.toLower_eq_dot hlower ▸ hc)

theorem undotted_capitalized {w : List Char} (h : '.' ∉ w) : '.' ∉ capitalized w := by
  have hlower := undotted_lower h
  unfold capitalized
  split
  · exact List.not_mem_nil
  · rename_i c cs hcons
    rw [hcons, List.mem_cons, not_or] at hlower
    rw [List.mem_cons, not_or]
    exact ⟨fun hc => hlower.1 (Text.toUpper_eq_dot hc.symm).symm, hlower.2⟩

theorem undotted_camelChars (cs : List Char) : '.' ∉ camelChars cs := by
  unfold camelChars
  split
  · exact List.not_mem_nil
  · rename_i w ws hsplit
    have hwords : ∀ v ∈ w :: ws, '.' ∉ v := fun v hv => ne_dot_of_mem_split (hsplit ▸ hv)
    obtain ⟨hw, hws⟩ := List.forall_mem_cons.1 hwords
    rw [List.mem_append, not_or]
    refine ⟨undotted_lower hw, fun hdot => ?_⟩
    obtain ⟨v, hv, hdot⟩ := List.mem_flatMap.1 hdot
    exact undotted_capitalized (hws v hv) hdot

theorem undotted_joined (parts : List String) : '.' ∉ joined parts := by
  have hcamel := undotted_camelChars (slashed parts)
  unfold joined
  split
  · exact List.not_mem_nil
  · rename_i c cs hcons
    rw [hcons] at hcamel
    split
    · rw [List.mem_cons, not_or]
      exact ⟨by decide, hcamel⟩
    · exact hcamel

/-- There is no dot in a class name. -/
theorem undotted_ofClass (parts : List String) : Undotted (ofClass parts) := by
  have hjoined := undotted_joined parts
  rw [Undotted, ofClass, String.toList_ofList]
  cases hcases : joined parts with
  | nil => exact List.not_mem_nil
  | cons c cs =>
    rw [hcases, List.mem_cons, not_or] at hjoined
    rw [Text.upperFirst, List.mem_append, not_or]
    exact ⟨fun hdot => hjoined.1 (Text.eq_dot_of_mem_upperChar hdot).symm, hjoined.2⟩

theorem undotted_ofClassFrom (skip : Int) (parts : List String) : Undotted (ofClassFrom skip parts) := by
  unfold ofClassFrom
  dsimp only
  split
  · exact undotted_ofClass parts
  · exact undotted_ofClass _

end Name

end ClientForge
