-- SUMMARY: Which texts have words, and that a name is empty only if what it is made from has none.
import ClientForge.Inference

/-!
# Empty names

A text is split into words at everything that is no word character, so it has a word exactly
if it has a word character (`split_eq_nil_iff`). Names are put together from words, and
nothing but a missing word makes them empty: this holds of names in camel case
(`camel_ne_empty_iff`) and of the class names of the objects that are written in place as
properties (`propertyModelName_ne_empty_iff`).
-/

namespace ClientForge

namespace Words

/-! ## Texts with words -/

/-- A text in which there is something to make a name from. -/
def HasWord (s : String) : Prop := ∃ c ∈ s.toList, isWordChar c = true

instance (s : String) : Decidable (HasWord s) :=
  decidable_of_iff (s.toList.any isWordChar = true) List.any_eq_true

theorem isDecimal_of_isDigit {c : Char} (h : c.isDigit = true) : Text.isDecimal c = true := by
  rw [Text.isDecimal, Text.digitValue?_of_isDigit h, Option.isSome_some]

/-- A character ends a word exactly if it is no word character. -/
theorem step_eq_separate_iff {p : Phase} {c : Char} {humped : Bool} :
    p.step c humped = .separate ↔ isWordChar c = false := by
  unfold Phase.step isWordChar
  by_cases hupper : c.isUpper = true
  · cases p <;> cases humped <;> simp [hupper, Phase.atCapital]
  · by_cases hlower : c.isLower = true
    · cases p <;> simp [hupper, hlower, Phase.atSmall]
    · by_cases hdigit : c.isDigit = true
      · cases p <;> simp [hupper, hlower, hdigit, isDecimal_of_isDigit hdigit, Phase.atDigit]
      · by_cases hdecimal : Text.isDecimal c = true
        · cases p <;> simp [hupper, hlower, hdigit, hdecimal, Phase.atOtherDigit]
        · simp [hupper, hlower, hdigit, hdecimal]

theorem close_eq_nil_iff {word : List Char} : close word = [] ↔ word = [] := by
  cases word <;> simp [close]

/-- A scan comes to a word if one is in progress or a word character is to come. -/
theorem scan_eq_nil_iff {p : Phase} {word cs : List Char} :
    scan p word cs = [] ↔ word = [] ∧ ∀ c ∈ cs, isWordChar c = false := by
  induction cs generalizing p word with
  | nil => simp [scan, close_eq_nil_iff]
  | cons c cs ih =>
    have hword : p.step c (startsSmall cs) ≠ .separate → isWordChar c = true := fun h =>
      Bool.not_eq_false _ ▸ h ∘ step_eq_separate_iff.2
    rw [scan]
    cases hstep : p.step c (startsSmall cs) with
    | separate => simp [close_eq_nil_iff, ih, step_eq_separate_iff.1 hstep]
    | start q => simp [ih, hword (by simp [hstep])]
    | extend q => simp [ih, hword (by simp [hstep])]

theorem split_eq_nil_iff {cs : List Char} : split cs = [] ↔ ∀ c ∈ cs, isWordChar c = false := by
  simp [split, scan_eq_nil_iff]

theorem ne_nil_of_mem_close {word w : List Char} (h : w ∈ close word) : w ≠ [] := by
  unfold close at h
  split at h
  · cases h
  · rename_i hword
    rw [List.mem_singleton.1 h]
    exact fun hnil => hword (hnil ▸ rfl)

theorem ne_nil_of_mem_scan {p : Phase} {word cs w : List Char} (h : w ∈ scan p word cs) : w ≠ [] := by
  induction cs generalizing p word with
  | nil => exact ne_nil_of_mem_close h
  | cons c cs ih =>
    rw [scan] at h
    split at h
    · exact (List.mem_append.1 h).elim ne_nil_of_mem_close ih
    · exact (List.mem_append.1 h).elim ne_nil_of_mem_close ih
    · exact ih h

end Words

namespace Name

open Words

theorem camelChars_eq_nil_iff {cs : List Char} : camelChars cs = [] ↔ split cs = [] := by
  unfold camelChars
  split
  · rename_i hnone
    simp [hnone]
  · rename_i w ws hsplit
    have hw : w ≠ [] := ne_nil_of_mem_scan (hsplit ▸ List.mem_cons_self : w ∈ split cs)
    simp [hsplit, lower, hw]

/-- A name in camel case is empty only if it is made from a text without words. -/
theorem camel_ne_empty_iff {s : String} : camel s ≠ "" ↔ HasWord s := by
  have hempty : camel s = "" ↔ camelChars s.toList = [] := by simp [camel]
  simp [hempty, camelChars_eq_nil_iff, split_eq_nil_iff, HasWord]

theorem upperChar_ne_nil (c : Char) : Text.upperChar c ≠ [] := by
  have hspecial : ∀ special ∈ Text.upperSpecial, special.2 ≠ [] := by decide
  simp only [Text.upperChar]
  split
  · simp
  · split
    · rename_i image hlookup
      obtain ⟨before, after, hsplit, -⟩ := List.lookup_eq_some_iff.1 hlookup
      simpa using hspecial (c.toNat, image) (by simp [hsplit])
    · split <;> simp

theorem upperFirst_eq_nil_iff {cs : List Char} : Text.upperFirst cs = [] ↔ cs = [] := by
  cases cs <;> simp [Text.upperFirst, upperChar_ne_nil]

theorem joined_eq_nil_iff {parts : List String} : joined parts = [] ↔ split (slashed parts) = [] := by
  unfold joined
  rw [← camelChars_eq_nil_iff]
  split
  · rename_i hnil
    simp [hnil]
  · rename_i c cs hcons
    rw [hcons]
    split <;> simp

theorem ofClass_ne_empty_iff {parts : List String} :
    ofClass parts ≠ "" ↔ ∃ c ∈ slashed parts, isWordChar c = true := by
  have hempty : ofClass parts = "" ↔ Text.upperFirst (joined parts) = [] := by simp [ofClass]
  simp [hempty, upperFirst_eq_nil_iff, joined_eq_nil_iff, split_eq_nil_iff]

end Name

namespace Inference

open Words

/-- The class of an object that is written in place as a property has an empty name only if
the key of the property has no words. -/
theorem propertyModelName_ne_empty_iff {owner key : String} :
    propertyModelName owner key true ≠ "" ↔ HasWord key := by
  have halone : Name.ofClass [key] ≠ "" ↔ HasWord key := by
    simp [Name.ofClass_ne_empty_iff, Name.slashed, HasWord]
  have hname : propertyModelName owner key true =
      if Name.ofClass [key] ∈ Name.reservedClasses then Name.ofClass [owner, key]
      else Name.ofClass [key] := by
    simp [propertyModelName, Name.ofClassFrom, Name.partsFrom]
  rw [hname]
  split
  · -- A reserved name has words, and they stay when the owner comes before it.
    rename_i hreserved
    have hkey : HasWord key := by
      rw [← halone]
      rintro hempty
      rw [hempty] at hreserved
      revert hreserved
      decide
    obtain ⟨c, hc, hword⟩ := hkey
    refine iff_of_true (Name.ofClass_ne_empty_iff.2 ⟨c, ?_, hword⟩) ⟨c, hc, hword⟩
    simp [Name.slashed, hc]
  · exact halone

end Inference

end ClientForge
