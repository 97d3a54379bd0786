-- SUMMARY: How names are spelled: each is an identifier, with the word characters of what it is made from.
import Mathlib
import ClientForge.Proofs.Name.Dots

/-!
# The spelling of names

The words of a text hold its word characters, all of them and in order (`flatten_split`), and
camel case changes nothing but the case of letters (`map_toLower_camelChars`). So a name is
empty only for want of words, else it starts with a letter of its kind or an underscore, and
word characters follow. A class name that leaves the first part out gives way to the full one
where it would be reserved, and the full one is too long to be reserved itself
(`names_spelled`).
-/

namespace ClientForge

namespace Words

/-! ## Word characters -/

theorem isWordChar_iff {c : Char} :
    isWordChar c = true ↔ c.isAlpha = true ∨ Text.isDecimal c = true := by
  simp [isWordChar, Char.isAlpha]

theorem isWordChar_toLower (c : Char) : isWordChar c.toLower = isWordChar c := by
  by_cases halpha : c.isAlpha = true
  · have hlower : isWordChar c.toLower = true := isWordChar_iff.2 (.inl (by simpa using halpha))
    rw [hlower, isWordChar_iff.2 (.inl halpha)]
  · have hupper : ¬ c.isUpper = true := fun h => halpha (by simp [Char.isAlpha, h])
    rw [Char.toLower_eq_of_not_isUpper hupper]

/-! ## The characters of the words -/

theorem flatten_close (word : List Char) : (close word).flatten = word := by
  cases word <;> simp [close]

/-- A scan keeps the word in progress and every word character to come. -/
theorem flatten_scan (p : Phase) (word cs : List Char) :
    (scan p word cs).flatten = word ++ cs.filter isWordChar := by
  induction cs generalizing p word with
  | nil => simp [scan, flatten_close]
  | cons c cs ih =>
    have hword : p.step c (startsSmall cs) ≠ .separate → isWordChar c = true :=
      isWordChar_of_step _
    rw [scan]
    cases hstep : p.step c (startsSmall cs) with
    | separate => simp [flatten_close, ih, step_eq_separate_iff.1 hstep]
    | start q => simp [flatten_close, ih, hword (by simp [hstep])]
    | extend q => simp [ih, hword (by simp [hstep])]

/-- The words of a text, run together, are its word characters. -/
theorem flatten_split (cs : List Char) : (split cs).flatten = cs.filter isWordChar :=
  flatten_scan .gap [] cs

end Words

namespace Name

open Words

/-! ## Camel case -/

theorem map_toLower_lower (w : List Char) : (lower w).map Char.toLower = w.map Char.toLower := by
  simp [lower]

theorem map_toLower_capitalized (w : List Char) :
    (capitalized w).map Char.toLower = w.map Char.toLower := by
  cases w <;> simp [capitalized, lower]

/-- Camel case keeps the word characters, but for the case of letters. -/
theorem map_toLower_camelChars (cs : List Char) :
    (camelChars cs).map Char.toLower = (cs.filter isWordChar).map Char.toLower := by
  rw [← flatten_split]
  unfold camelChars
  cases split cs with
  | nil => rfl
  | cons w ws =>
    have hrest : (ws.flatMap capitalized).map Char.toLower = ws.flatten.map Char.toLower := by
      simp [List.flatMap_def, List.map_flatten, Function.comp_def, map_toLower_capitalized]
    rw [List.map_append, map_toLower_lower, hrest, List.flatten_cons, List.map_append]

theorem isWordChar_of_mem_camelChars {cs : List Char} {c : Char} (h : c ∈ camelChars cs) :
    isWordChar c = true := by
  have hmem : c.toLower ∈ (cs.filter isWordChar).map Char.toLower :=
    map_toLower_camelChars cs ▸ List.mem_map_of_mem h
  obtain ⟨d, hd, heq⟩ := List.mem_map.1 hmem
  rw [← isWordChar_toLower, ← heq, isWordChar_toLower]
  exact (List.mem_filter.1 hd).2

/-- A text in camel case starts with no capital. -/
theorem isUpper_head_camelChars {cs rest : List Char} {c : Char} (h : camelChars cs = c :: rest) :
    c.isUpper = false := by
  unfold camelChars at h
  split at h
  · cases h
  · rename_i w ws hsplit
    have hw : w ≠ [] := ne_nil_of_mem_scan (hsplit ▸ List.mem_cons_self : w ∈ split cs)
    obtain ⟨d, ds, rfl⟩ := List.exists_cons_of_ne_nil hw
    cases h
    exact Char.isUpper_toLower_eq_false d

/-! ## Identifiers -/

/-- A text that starts with a character of some kind or an underscore, before word characters. -/
def Spelled (first : Char → Bool) (cs : List Char) : Prop :=
  ∃ c rest, cs = c :: rest ∧ (first c = true ∨ c = '_') ∧ ∀ d ∈ rest, isWordChar d = true

theorem joined_eq (parts : List String) :
    joined parts = camelChars (slashed parts) ∨ joined parts = '_' :: camelChars (slashed parts) := by
  unfold joined
  split
  · rename_i hnil
    exact .inl hnil.symm
  · rename_i c cs hcons
    rw [hcons]
    split
    · exact .inr rfl
    · exact .inl rfl

/-- What goes in front of a name is no word character. -/
theorem filter_joined (parts : List String) :
    (joined parts).filter isWordChar = camelChars (slashed parts) := by
  have hcamel : (camelChars (slashed parts)).filter isWordChar = camelChars (slashed parts) :=
    List.filter_eq_self.2 fun _ => isWordChar_of_mem_camelChars
  rcases joined_eq parts with h | h
  · rw [h, hcamel]
  · rw [h, List.filter_cons_of_neg (by decide), hcamel]

theorem spelled_joined {parts : List String} (h : joined parts ≠ []) :
    Spelled Char.isLower (joined parts) := by
  unfold joined at h ⊢
  split at h
  · exact absurd rfl h
  · rename_i c cs hcons
    have hword : ∀ d ∈ c :: cs, isWordChar d = true := fun d hd =>
      isWordChar_of_mem_camelChars (hcons ▸ hd)
    split
    · exact ⟨'_', c :: cs, rfl, .inr rfl, hword⟩
    · rename_i hdigit
      obtain ⟨hc, hcs⟩ := List.forall_mem_cons.1 hword
      have hupper := isUpper_head_camelChars hcons
      have hdecimal : Text.isDecimal c = false := by
        simp only [Text.isDigitLike, Bool.or_eq_true, not_or, Bool.not_eq_true] at hdigit
        exact hdigit.1
      refine ⟨c, cs, rfl, .inl ?_, hcs⟩
      simpa [isWordChar, hupper, hdecimal] using hc

/-- A capital in front makes a class name. -/
theorem upperFirst_of_spelled {cs : List Char} (h : Spelled Char.isLower cs) :
    Spelled Char.isUpper (Text.upperFirst cs) ∧
      (Text.upperFirst cs).map Char.toLower = cs.map Char.toLower := by
  obtain ⟨c, rest, rfl, hc, hrest⟩ := h
  have hlow : c.toNat < 0x80 := by
    rcases hc with hc | rfl
    · have hle : c ≤ 'z' := by
        simp only [Char.isLower, Bool.and_eq_true, decide_eq_true_eq] at hc
        exact hc.2
      exact Nat.lt_of_le_of_lt (UInt32.le_iff_toNat_le.1 hle) (by decide)
    · decide
  have heq : Text.upperFirst (c :: rest) = c.toUpper :: rest := by
    simp [Text.upperFirst, Text.upperChar, hlow]
  rw [heq]
  refine ⟨⟨c.toUpper, rest, rfl, ?_, hrest⟩, by simp⟩
  rcases hc with hc | rfl
  · exact .inl (by simp [Char.isAlpha, hc])
  · exact .inr (by decide)

theorem spelled_ofClass {parts : List String} (h : joined parts ≠ []) :
    Spelled Char.isUpper (ofClass parts).toList := by
  rw [ofClass, String.toList_ofList]
  exact (upperFirst_of_spelled (spelled_joined h)).1

/-- A name of a member: a reserved word in backticks, or an identifier that is not reserved. -/
def IsMemberName (name : String) : Prop :=
  name = "`default`" ∨ name = "`as`" ∨
    (name ≠ "default" ∧ name ≠ "as" ∧ Spelled Char.isLower name.toList)

theorem isMemberName_ofMember {parts : List String} (h : joined parts ≠ []) :
    IsMemberName (ofMember parts) := by
  unfold ofMember
  dsimp only
  split
  · rename_i hreserved
    simp only [reservedMembers, List.mem_cons, List.not_mem_nil, or_false] at hreserved
    rcases hreserved with hname | hname
    · exact .inl (by rw [hname]; decide)
    · exact .inr (.inl (by rw [hname]; decide))
  · rename_i hreserved
    simp only [reservedMembers, List.mem_cons, List.not_mem_nil, or_false, not_or] at hreserved
    refine .inr (.inr ⟨hreserved.1, hreserved.2, ?_⟩)
    rw [String.toList_ofList]
    exact spelled_joined h

/-! ## The word characters of a name -/

/-- The word characters of the parts with slashes between them are those of the parts. -/
theorem filter_slashed (parts : List String) :
    (slashed parts).filter isWordChar = parts.flatMap fun p => p.toList.filter isWordChar := by
  have hslash : isWordChar '/' = false := by decide
  unfold slashed
  induction parts with
  | nil => rfl
  | cons p parts ih =>
    cases parts with
    | nil => simp
    | cons q parts =>
      simp only [List.map_cons, List.intercalate_cons_cons, List.filter_append, List.flatMap_cons] at ih ⊢
      rw [ih]
      simp [hslash]

theorem joined_ne_nil_iff {parts : List String} : joined parts ≠ [] ↔ ∃ p ∈ parts, HasWord p := by
  have hwords : split (slashed parts) = [] ↔ (slashed parts).filter isWordChar = [] := by
    rw [split_eq_nil_iff]
    simp
  rw [Ne, joined_eq_nil_iff, hwords, filter_slashed]
  simp [HasWord]

theorem ofMember_eq_empty_iff {parts : List String} : ofMember parts = "" ↔ joined parts = [] := by
  unfold ofMember
  dsimp only
  split
  · rename_i hreserved
    refine iff_of_false (by simp [String.join]) ?_
    rintro hnil
    rw [hnil] at hreserved
    revert hreserved
    decide
  · simp

theorem ofClass_eq_empty_iff {parts : List String} : ofClass parts = "" ↔ joined parts = [] := by
  rw [ofClass, String.ofList_eq_empty_iff, upperFirst_eq_nil_iff]

theorem countP_of_map_toLower {cs ds : List Char} (h : cs.map Char.toLower = ds.map Char.toLower) :
    cs.countP isWordChar = ds.countP isWordChar := by
  have hcase : ∀ cs : List Char, (cs.map Char.toLower).countP isWordChar = cs.countP isWordChar := by
    intro cs
    simp [List.countP_map, Function.comp_def, isWordChar_toLower]
  rw [← hcase, h, hcase]

/-- A class name has as many word characters as its parts together. -/
theorem countP_ofClass (parts : List String) :
    (ofClass parts).toList.countP isWordChar =
      (parts.map fun p => p.toList.countP isWordChar).sum := by
  have hupper : (Text.upperFirst (joined parts)).map Char.toLower = (joined parts).map Char.toLower := by
    by_cases hnil : joined parts = []
    · rw [hnil]
      rfl
    · exact (upperFirst_of_spelled (spelled_joined hnil)).2
  calc (ofClass parts).toList.countP isWordChar
      = (joined parts).countP isWordChar := by
        rw [ofClass, String.toList_ofList, countP_of_map_toLower hupper]
    _ = (camelChars (slashed parts)).countP isWordChar := by
        rw [← filter_joined, List.countP_filter]
        simp
    _ = ((slashed parts).filter isWordChar).countP isWordChar :=
        countP_of_map_toLower (map_toLower_camelChars _)
    _ = (parts.map fun p => p.toList.countP isWordChar).sum := by
        rw [filter_slashed, List.countP_flatMap]
        simp [Function.comp_def, List.countP_filter]

/-- The full name is longer than the name without its first part, if that has a word. -/
theorem ofClass_cons_ne {first : String} (hfirst : HasWord first) (rest : List String) :
    ofClass (first :: rest) ≠ ofClass rest := by
  intro heq
  have hcount := congrArg (fun name : String => name.toList.countP isWordChar) heq
  simp only [countP_ofClass, List.map_cons, List.sum_cons] at hcount
  have hpos : 0 < first.toList.countP isWordChar := List.countP_pos_iff.2 hfirst
  omega

/-! ## Names -/

/-- A name is empty exactly if nothing that it is made from has a word. Else the name of a member
is a reserved word in backticks or an identifier with a small letter, and the name of a class is
an identifier with a capital; one that leaves its first part out, of which there are words, is
never reserved. -/
theorem names_spelled (parts : List String) :
    (ofMember parts = "" ↔ ¬ ∃ p ∈ parts, HasWord p) ∧
    (ofMember parts ≠ "" → IsMemberName (ofMember parts)) ∧
    (ofClassFrom 0 parts = "" ↔ ¬ ∃ p ∈ parts, HasWord p) ∧
    (ofClassFrom 0 parts ≠ "" → Spelled Char.isUpper (ofClassFrom 0 parts).toList) ∧
    ∀ first rest, parts = first :: rest → HasWord first → ofClassFrom 1 parts ≠ "Type" := by
  have hfull : ofClassFrom 0 parts = ofClass parts := by
    simp [ofClassFrom, partsFrom]
  rw [hfull, ofMember_eq_empty_iff, ofClass_eq_empty_iff, ← joined_ne_nil_iff, not_not]
  refine ⟨Iff.rfl, ?_, Iff.rfl, ?_, ?_⟩
  · rw [Ne, ofMember_eq_empty_iff]
    exact isMemberName_ofMember
  · rw [Ne, ofClass_eq_empty_iff]
    exact spelled_ofClass
  · rintro first rest rfl hfirst
    have hskip : ofClassFrom 1 (first :: rest) =
        if ofClass rest = "Type" then ofClass (first :: rest) else ofClass rest := by
      simp [ofClassFrom, partsFrom, reservedClasses]
    rw [hskip]
    split
    · rename_i hreserved
      exact hreserved ▸ ofClass_cons_ne hfirst rest
    · assumption

example : ofMember ["2", "as"] = "_2As" ∧ ofMember ["AS"] = "`as`" ∧
    ofClassFrom 1 ["Vehicle", "type"] = "VehicleType" := by decide

end Name

end ClientForge
