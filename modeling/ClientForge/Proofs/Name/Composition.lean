-- SUMMARY: The words of joined texts are those of the texts, and names depend on the words of their parts only.
import ClientForge.Proofs.Name.Matches

/-!
# Words of joined texts

Nothing of a word reaches over a separator: where there is one, a scan goes on as if it began
there (`scan_append_cons`). So the words of texts with slashes between them are those of the texts
one after another (`split_slashed`), and a name, which is made from such a text, depends on the
words of its parts and on nothing else (`words_compose`).
-/

namespace ClientForge

namespace Words

/-! ## Texts side by side -/

theorem startsSmall_append_cons {c : Char} (hc : isWordChar c = false) (cs ds : List Char) :
    startsSmall (cs ++ c :: ds) = startsSmall cs := by
  cases cs with
  | nil =>
    simp only [isWordChar, Bool.or_eq_false_iff] at hc
    exact hc.1.2
  | cons d cs => rfl

/-- A separator ends the word in progress, and what follows it is split as on its own. -/
theorem scan_append_cons {c : Char} (hc : isWordChar c = false) (p : Phase) (word cs ds : List Char) :
    scan p word (cs ++ c :: ds) = scan p word cs ++ split ds := by
  induction cs generalizing p word with
  | nil => simp only [List.nil_append, scan, step_eq_separate_iff.2 hc, split]
  | cons d cs ih =>
    rw [List.cons_append, scan, scan, startsSmall_append_cons hc]
    cases p.step d (startsSmall cs) with
    | separate => simp only [ih, List.append_assoc]
    | start q => simp only [ih, List.append_assoc]
    | extend q => simp only [ih]

theorem split_append_cons {c : Char} (hc : isWordChar c = false) (cs ds : List Char) :
    split (cs ++ c :: ds) = split cs ++ split ds :=
  scan_append_cons hc .gap [] cs ds

/-- The words of a text. -/
def wordsOf (s : String) : List (List Char) := split s.toList

theorem split_slashed (parts : List String) : split (Name.slashed parts) = parts.flatMap wordsOf := by
  induction parts with
  | nil => rfl
  | cons p parts ih =>
    cases parts with
    | nil => simp [Name.slashed, wordsOf]
    | cons q parts =>
      have hslashed : Name.slashed (p :: q :: parts) = p.toList ++ '/' :: Name.slashed (q :: parts) := by
        simp [Name.slashed, List.intercalate_cons_cons]
      rw [hslashed, split_append_cons (by decide), ih]
      rfl

end Words

namespace Name

open Words

/-! ## Names from the words of their parts -/

theorem joined_congr {ps qs : List String} (h : ps.flatMap wordsOf = qs.flatMap wordsOf) :
    joined ps = joined qs := by
  rw [← split_slashed, ← split_slashed] at h
  simp only [joined, camelChars, h]

theorem ofMember_congr {ps qs : List String} (h : ps.flatMap wordsOf = qs.flatMap wordsOf) :
    ofMember ps = ofMember qs := by
  rw [ofMember, ofMember, joined_congr h]

theorem ofClass_congr {ps qs : List String} (h : ps.flatMap wordsOf = qs.flatMap wordsOf) :
    ofClass ps = ofClass qs := by
  rw [ofClass, ofClass, joined_congr h]

/-- Also where parts are left out, a name is made from the words of the parts. -/
theorem ofClassFrom_congr {ps qs : List String} (skip : Int)
    (h : List.Forall₂ (fun p q => wordsOf p = wordsOf q) ps qs) :
    ofClassFrom skip ps = ofClassFrom skip qs := by
  have hflat : ∀ {ps qs : List String}, List.Forall₂ (fun p q => wordsOf p = wordsOf q) ps qs →
      ps.flatMap wordsOf = qs.flatMap wordsOf := by
    intro ps qs h
    induction h with
    | nil => rfl
    | cons hp _ ih => rw [List.flatMap_cons, List.flatMap_cons, hp, ih]
  have hfrom : List.Forall₂ (fun p q => wordsOf p = wordsOf q) (partsFrom skip ps) (partsFrom skip qs) := by
    unfold partsFrom
    rw [h.length_eq]
    split
    · exact List.forall₂_drop _ h
    · exact List.forall₂_drop _ h
  rw [ofClassFrom, ofClassFrom, ofClass_congr (hflat h), ofClass_congr (hflat hfrom)]

/-- The words of a text are the matches of the pattern in it; none is empty, and together they are
its word characters. Those of two texts with a slash between them are those of the one and then
those of the other. So a name that is made from some parts depends on their words only. -/
theorem words_compose :
    (∀ s : String, Pattern.Finds Pattern.word s.toList (wordsOf s) ∧
      (wordsOf s).flatten = s.toList.filter isWordChar ∧ ∀ w ∈ wordsOf s, w ≠ []) ∧
    (∀ a b : String, wordsOf (String.join [a, "/", b]) = wordsOf a ++ wordsOf b) ∧
    (∀ ps qs : List String, ps.flatMap wordsOf = qs.flatMap wordsOf →
      ofMember ps = ofMember qs ∧ ofClass ps = ofClass qs) ∧
    ∀ (skip : Int) (ps qs : List String),
      List.Forall₂ (fun p q => wordsOf p = wordsOf q) ps qs → ofClassFrom skip ps = ofClassFrom skip qs := by
  refine ⟨fun s => ⟨finds_split _, flatten_split _, fun w => ne_nil_of_mem_scan⟩, fun a b => ?_,
    fun ps qs h => ⟨ofMember_congr h, ofClass_congr h⟩, fun skip ps qs => ofClassFrom_congr skip⟩
  have hjoined : (String.join [a, "/", b]).toList = a.toList ++ '/' :: b.toList := by
    simp
  rw [wordsOf, hjoined, split_append_cons (by decide)]
  rfl

example : wordsOf "XMLFile2ab/v1" = ["XML", "File2ab", "v1"].map String.toList := by decide

end Name

end ClientForge
