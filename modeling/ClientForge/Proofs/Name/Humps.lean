-- SUMMARY: When two texts give one name: camel case keeps the words but for their capitals and for cuts before digits.
import ClientForge.Proofs.Name.Spelling

/-!
# Humps

Camel case tells where a word starts by its capital, which a word that starts with a digit does
not have. What it keeps of a text are its humps: the words in small letters, each that starts
with a digit joined to the one before. Two texts give the same text in camel case, and the same
name of a member, exactly if they have the same humps (`ofMember_eq_iff`).
-/

namespace ClientForge

namespace Name

open Words

/-! ## Words run together -/

/-- A text with a capital for its first letter. -/
def capitalFirst : List Char → List Char
  | [] => []
  | c :: cs => c.toUpper :: cs

/-- Words run together, each but the first with a capital. -/
def runTogether : List (List Char) → List Char
  | [] => []
  | w :: ws => w ++ capitalFirst (runTogether ws)

theorem capitalFirst_append {w : List Char} (h : w ≠ []) (cs : List Char) :
    capitalFirst (w ++ cs) = capitalFirst w ++ cs := by
  obtain ⟨c, w, rfl⟩ := List.exists_cons_of_ne_nil h
  rfl

theorem capitalFirst_of_not_startsSmall {cs : List Char} (h : startsSmall cs = false) :
    capitalFirst cs = cs := by
  cases cs with
  | nil => rfl
  | cons c cs =>
    have hc : ¬ c.isLower = true := by simpa [startsSmall] using h
    rw [capitalFirst, Char.toUpper_eq_of_not_isLower hc]

theorem capitalFirst_runTogether {ws : List (List Char)} (h : ∀ w ∈ ws, w ≠ []) :
    capitalFirst (runTogether ws) = ws.flatMap capitalFirst := by
  induction ws with
  | nil => rfl
  | cons w ws ih =>
    obtain ⟨hw, hws⟩ := List.forall_mem_cons.1 h
    rw [runTogether, capitalFirst_append hw, ih hws, List.flatMap_cons]

/-- The words of a text in small letters. -/
def smallWords (cs : List Char) : List (List Char) := (split cs).map lower

theorem ne_nil_of_mem_smallWords {cs w : List Char} (h : w ∈ smallWords cs) : w ≠ [] := by
  obtain ⟨v, hv, rfl⟩ := List.mem_map.1 h
  simpa [lower] using ne_nil_of_mem_scan hv

theorem isUpper_of_mem_smallWords {cs w : List Char} (h : w ∈ smallWords cs) :
    ∀ c ∈ w, c.isUpper = false := by
  obtain ⟨v, -, rfl⟩ := List.mem_map.1 h
  simp [lower]

theorem camelChars_eq_runTogether (cs : List Char) : camelChars cs = runTogether (smallWords cs) := by
  have hne : ∀ w ∈ smallWords cs, w ≠ [] := fun w => ne_nil_of_mem_smallWords
  have hcapital : capitalized = fun w => capitalFirst (lower w) := by
    funext w
    cases w <;> rfl
  unfold camelChars smallWords at *
  split
  · rename_i hnil
    rw [hnil]
    rfl
  · rename_i w ws hcons
    rw [hcons, List.map_cons] at hne ⊢
    rw [runTogether, capitalFirst_runTogether (List.forall_mem_cons.1 hne).2, List.flatMap_map, hcapital]

/-! ## Words joined at digits -/

/-- The words with each that starts with no small letter joined to the one before. -/
def joinDigits : List (List Char) → List (List Char)
  | [] => []
  | w :: ws =>
    match joinDigits ws with
    | [] => [w]
    | h :: hs => if startsSmall h then w :: h :: hs else (w ++ h) :: hs

/-- What holds of words, and of words put together, holds of the words joined at digits. -/
theorem forall_mem_joinDigits {P : List Char → Prop} (happend : ∀ v w, P v → P w → P (v ++ w))
    {ws : List (List Char)} (h : ∀ w ∈ ws, P w) : ∀ w ∈ joinDigits ws, P w := by
  induction ws with
  | nil => exact List.forall_mem_nil _
  | cons w ws ih =>
    obtain ⟨hw, hws⟩ := List.forall_mem_cons.1 h
    have ih := ih hws
    rw [joinDigits]
    split
    · exact List.forall_mem_singleton.2 hw
    · rename_i v vs hcons
      rw [hcons] at ih
      obtain ⟨hv, hvs⟩ := List.forall_mem_cons.1 ih
      split
      · exact List.forall_mem_cons.2 ⟨hw, ih⟩
      · exact List.forall_mem_cons.2 ⟨happend w v hw hv, hvs⟩

/-- All but the first of the words joined at digits start with a small letter. -/
theorem startsSmall_of_mem_tail {ws : List (List Char)} :
    ∀ w ∈ (joinDigits ws).tail, startsSmall w = true := by
  induction ws with
  | nil => exact List.forall_mem_nil _
  | cons w ws ih =>
    rw [joinDigits]
    split
    · exact List.forall_mem_nil _
    · rename_i v vs hcons
      rw [hcons] at ih
      split
      · rename_i hsmall
        exact List.forall_mem_cons.2 ⟨hsmall, ih⟩
      · exact ih

/-- Where a digit starts a word, there is nothing to tell it from the word before. -/
theorem runTogether_joinDigits {ws : List (List Char)} (h : ∀ w ∈ ws, w ≠ []) :
    runTogether (joinDigits ws) = runTogether ws := by
  induction ws with
  | nil => rfl
  | cons w ws ih =>
    have hws := (List.forall_mem_cons.1 h).2
    have hjoined : ∀ v ∈ joinDigits ws, v ≠ [] :=
      forall_mem_joinDigits (P := (· ≠ [])) (by simp +contextual) hws
    rw [joinDigits, runTogether, ← ih hws]
    split
    · rename_i hnil
      rw [hnil]
      rfl
    · rename_i v vs hcons
      rw [hcons] at hjoined ⊢
      split
      · rfl
      · rename_i hdigit
        have hv := hjoined v List.mem_cons_self
        have hkept : capitalFirst v = v :=
          capitalFirst_of_not_startsSmall (Bool.not_eq_true _ ▸ hdigit)
        rw [runTogether, runTogether, capitalFirst_append hv, hkept, List.append_assoc]

/-! ## Telling words apart -/

/-- Words that can be told apart when they are run together: all but the first start with a
small letter, and there are no capitals. -/
structure Humped (ws : List (List Char)) : Prop where
  small : ∀ w ∈ ws, startsSmall w = true
  plain : ∀ w ∈ ws, ∀ c ∈ w, c.isUpper = false

/-- What is run together after a first word: nothing, or a capital and the rest of the next word. -/
theorem Humped.exists_capital {w : List Char} {ws : List (List Char)} (h : Humped (w :: ws)) :
    ∃ c cs, w = c :: cs ∧ c.isLower = true ∧ (∀ d ∈ cs, d.isUpper = false) ∧ Humped ws ∧
      capitalFirst (runTogether (w :: ws)) = c.toUpper :: (cs ++ capitalFirst (runTogether ws)) := by
  obtain ⟨hsmall, hsmalls⟩ := List.forall_mem_cons.1 h.small
  obtain ⟨hplain, hplains⟩ := List.forall_mem_cons.1 h.plain
  cases w with
  | nil => cases hsmall
  | cons c cs => exact ⟨c, cs, rfl, hsmall, (List.forall_mem_cons.1 hplain).2, ⟨hsmalls, hplains⟩, rfl⟩

/-- A word without capitals ends where the first capital is. -/
theorem Humped.takeWhile_eq {w : List Char} {ws : List (List Char)} (hws : Humped ws)
    (hw : ∀ c ∈ w, c.isUpper = false) :
    (w ++ capitalFirst (runTogether ws)).takeWhile (fun c => !c.isUpper) = w := by
  have hrest : (capitalFirst (runTogether ws)).takeWhile (fun c => !c.isUpper) = [] := by
    cases ws with
    | nil => rfl
    | cons v vs =>
      obtain ⟨c, cs, -, hc, -, -, heq⟩ := hws.exists_capital
      rw [heq]
      exact List.takeWhile_cons_of_neg (by simp [Char.isAlpha, hc])
  rw [List.takeWhile_append_of_pos (by simpa using hw), hrest, List.append_nil]

/-- Words run together are told apart by their capitals. The induction is on the words after the
first one, which is any text without capitals. -/
theorem Humped.eq_of_runTogether {ws vs : List (List Char)} (hws : Humped ws) (hvs : Humped vs)
    {w v : List Char} (hw : ∀ c ∈ w, c.isUpper = false) (hv : ∀ c ∈ v, c.isUpper = false)
    (h : runTogether (w :: ws) = runTogether (v :: vs)) : w = v ∧ ws = vs := by
  induction ws generalizing vs w v with
  | nil =>
    obtain rfl : w = v := by
      rw [← hws.takeWhile_eq hw, ← hvs.takeWhile_eq hv]
      exact congrArg _ h
    have hrest := List.append_cancel_left h
    cases vs with
    | nil => exact ⟨rfl, rfl⟩
    | cons v' vs =>
      obtain ⟨c, cs, -, -, -, -, heq⟩ := hvs.exists_capital
      cases hrest.trans heq
  | cons w' ws ih =>
    obtain rfl : w = v := by
      rw [← hws.takeWhile_eq hw, ← hvs.takeWhile_eq hv]
      exact congrArg _ h
    have hrest := List.append_cancel_left h
    obtain ⟨c, cs, rfl, hc, hcs, hws', heq⟩ := hws.exists_capital
    cases vs with
    | nil => cases heq.symm.trans hrest
    | cons v' vs =>
      obtain ⟨d, ds, rfl, hd, hds, hvs', heq'⟩ := hvs.exists_capital
      obtain ⟨hcapital, hrest⟩ := List.cons.inj (heq.symm.trans (hrest.trans heq'))
      obtain ⟨rfl, rfl⟩ := ih hws' hvs' hcs hds hrest
      have hcase := congrArg Char.toLower hcapital
      rw [Char.toLower_toUpper_eq_toLower, Char.toLower_toUpper_eq_toLower,
        Char.toLower_eq_of_not_isUpper (Char.not_isUpper_of_isLower hc),
        Char.toLower_eq_of_not_isUpper (Char.not_isUpper_of_isLower hd)] at hcase
      exact ⟨rfl, by rw [hcase]⟩

/-! ## Humps -/

/-- What camel case keeps of a text: its words in small letters, each that starts with a digit
joined to the one before. -/
def humps (cs : List Char) : List (List Char) := joinDigits (smallWords cs)

theorem runTogether_humps (cs : List Char) : runTogether (humps cs) = camelChars cs := by
  rw [camelChars_eq_runTogether, humps, runTogether_joinDigits fun w => ne_nil_of_mem_smallWords]

theorem ne_nil_of_mem_humps {cs : List Char} : ∀ w ∈ humps cs, w ≠ [] :=
  forall_mem_joinDigits (P := (· ≠ [])) (by simp +contextual) fun _ => ne_nil_of_mem_smallWords

theorem isUpper_of_mem_humps {cs : List Char} : ∀ w ∈ humps cs, ∀ c ∈ w, c.isUpper = false :=
  forall_mem_joinDigits (P := fun w => ∀ c ∈ w, c.isUpper = false)
    (fun _ _ hv hw => List.forall_mem_append.2 ⟨hv, hw⟩) fun _ => isUpper_of_mem_smallWords

theorem humped_of_cons {cs : List Char} {w : List Char} {ws : List (List Char)}
    (h : humps cs = w :: ws) : w ≠ [] ∧ (∀ c ∈ w, c.isUpper = false) ∧ Humped ws := by
  have hne : ∀ w ∈ humps cs, w ≠ [] := ne_nil_of_mem_humps
  have hplain : ∀ w ∈ humps cs, ∀ c ∈ w, c.isUpper = false := isUpper_of_mem_humps
  have hsmall : ∀ w ∈ (humps cs).tail, startsSmall w = true := startsSmall_of_mem_tail
  rw [h] at hne hplain hsmall
  obtain ⟨hw, hws⟩ := List.forall_mem_cons.1 hplain
  exact ⟨hne w List.mem_cons_self, hw, hsmall, hws⟩

/-- Camel case tells two texts apart exactly by their humps. -/
theorem camelChars_eq_iff {cs ds : List Char} : camelChars cs = camelChars ds ↔ humps cs = humps ds := by
  rw [← runTogether_humps, ← runTogether_humps]
  refine ⟨fun h => ?_, congrArg runTogether⟩
  cases hcs : humps cs with
  | nil =>
    cases hds : humps ds with
    | nil => rfl
    | cons v vs =>
      rw [hcs, hds] at h
      exact absurd (List.append_eq_nil_iff.1 h.symm).1 (humped_of_cons hds).1
  | cons w ws =>
    obtain ⟨hne, hw, hws⟩ := humped_of_cons hcs
    cases hds : humps ds with
    | nil =>
      rw [hcs, hds] at h
      exact absurd (List.append_eq_nil_iff.1 h).1 hne
    | cons v vs =>
      obtain ⟨-, hv, hvs⟩ := humped_of_cons hds
      rw [hcs, hds] at h
      obtain ⟨rfl, rfl⟩ := hws.eq_of_runTogether hvs hw hv h
      rfl

/-! ## Names of members -/

/-- The backticks around a reserved word are no word characters either. -/
theorem filter_ofMember (parts : List String) :
    (ofMember parts).toList.filter isWordChar = camelChars (slashed parts) := by
  rw [← filter_joined]
  unfold ofMember
  dsimp only
  split
  · have hquote : isWordChar '`' = false := by decide
    simp [String.join, String.toList_append, hquote]
  · rw [String.toList_ofList]

/-- Two names of members are the same exactly if what they are made from has the same humps. -/
theorem ofMember_eq_iff {ps qs : List String} :
    ofMember ps = ofMember qs ↔ humps (slashed ps) = humps (slashed qs) := by
  rw [← camelChars_eq_iff]
  constructor
  · intro h
    rw [← filter_ofMember, h, filter_ofMember]
  · intro h
    have hjoined : joined ps = joined qs := by
      unfold joined
      rw [h]
    rw [ofMember, ofMember, hjoined]

end Name

end ClientForge
