-- SUMMARY: The parts of a text between the occurrences of a mark.

/-!
# Parts

`Text.parts` cuts a text at every occurrence of a character. There is always one
part more than there are marks; no part holds the mark, and the parts, with the
mark between each two, give the text back (`intercalate_parts`).
-/

namespace ClientForge

namespace Text

/-- The parts of a text between the occurrences of a mark. -/
def parts (mark : Char) : List Char → List (List Char)
  | [] => [[]]
  | c :: cs =>
    if c = mark then [] :: parts mark cs
    else
      match parts mark cs with
      | [] => [[c]]
      | p :: ps => (c :: p) :: ps

theorem parts_ne_nil (mark : Char) (cs : List Char) : parts mark cs ≠ [] := by
  cases cs with
  | nil => simp [parts]
  | cons c cs =>
    simp only [parts]
    split
    · simp
    · split <;> simp

theorem parts_eq_splitOn (mark : Char) (cs : List Char) :
    parts mark cs = cs.splitOn mark := by
  induction cs with
  | nil => rfl
  | cons c cs ih =>
    rw [List.splitOn, List.splitOnP_cons_eq_if_modifyHead, ← List.splitOn, ← ih, parts]
    by_cases hc : c = mark
    · simp [hc]
    · cases hparts : parts mark cs with
      | nil => exact absurd hparts (parts_ne_nil mark cs)
      | cons p ps => simp [hc]

/-- The parts with the mark between each two are the text. -/
theorem intercalate_parts (mark : Char) (cs : List Char) :
    [mark].intercalate (parts mark cs) = cs := by
  induction cs with
  | nil => rfl
  | cons c cs ih =>
    simp only [parts]
    split
    · rename_i same
      cases h : parts mark cs with
      | nil => exact absurd h (parts_ne_nil mark cs)
      | cons p ps =>
        rw [h] at ih
        simp [List.intercalate_cons_cons, ih, same]
    · cases h : parts mark cs with
      | nil => exact absurd h (parts_ne_nil mark cs)
      | cons p ps =>
        rw [h] at ih
        cases ps <;> simp_all [List.intercalate]

end Text

end ClientForge
