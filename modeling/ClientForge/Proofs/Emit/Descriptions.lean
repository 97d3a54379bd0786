-- SUMMARY: Descriptions and other texts in comments, and when they leave the end of one where it is.
import ClientForge.Emit.Text
import ClientForge.Proofs.Emit.Comments

/-!
# Descriptions in comments

A description is brought onto one line before it is written. This takes all line breaks out of it
(`isLineBreak_of_mem_written`) and leaves it the marks of comments that it has
(`depthAfter_written`). So a line comment always ends with its line. A block comment, in which
texts stand between fixed pieces, ends where its template ends it exactly if the texts close as
many comments as they open, one after another (`afterComment_iff`).
-/

namespace ClientForge

namespace Emit

open CommentRules

/-! ## Texts brought onto one line -/

section
variable {c d : Char} {cs : List Char}

theorem isBlank_of_isLineBreak (h : Text.isLineBreak c = true) : Text.isBlank c = true := by
  rw [Text.isLineBreak, Text.lineBreaks, List.contains_iff_mem] at h
  simp only [List.mem_cons, List.not_mem_nil, or_false] at h
  simp only [Text.isBlank, Text.inRanges, Text.blanks, List.any_cons, List.any_nil, Bool.or_eq_true,
    decide_eq_true_eq]
  omega

theorem halfOf_of_isBlank (h : Text.isBlank c = true) : halfOf c = .none := by
  rw [halfOf, if_neg, if_neg]
  · rintro rfl
    revert h
    decide
  · rintro rfl
    revert h
    decide

theorem oneLine_of_isBlank (h : Text.isBlank c = true) : Text.oneLine (c :: cs) = Text.oneLine cs := by
  rw [Text.oneLine, Text.fields.eq_def]
  simp only [h, if_true, Text.oneLine]

theorem oneLine_singleton (h : Text.isBlank c = false) : Text.oneLine [c] = [c] := by
  simp [Text.oneLine, Text.fields, h, List.intercalate]

theorem oneLine_close (hc : Text.isBlank c = false) (hd : Text.isBlank d = true) :
    Text.oneLine (c :: d :: cs) =
      c :: if Text.fields (d :: cs) = [] then [] else ' ' :: Text.oneLine (d :: cs) := by
  rw [Text.oneLine, Text.fields, hc, if_neg Bool.false_ne_true]
  simp only [hd, if_true]
  cases hfields : Text.fields (d :: cs) with
  | nil => simp [List.intercalate]
  | cons w ws => simp [Text.oneLine, hfields, List.intercalate]

theorem oneLine_more (hc : Text.isBlank c = false) (hd : Text.isBlank d = false) :
    Text.oneLine (c :: d :: cs) = c :: Text.oneLine (d :: cs) := by
  rw [Text.oneLine, Text.fields, hc, if_neg Bool.false_ne_true]
  simp only [hd]
  cases hfields : Text.fields (d :: cs) with
  | nil => simp [Text.oneLine, hfields, List.intercalate]
  | cons w ws =>
    cases ws <;> simp [Text.oneLine, hfields, List.intercalate]

theorem eq_or_of_mem_oneLine (h : c ∈ Text.oneLine cs) : c = ' ' ∨ Text.isBlank c = false := by
  induction cs with
  | nil => cases h
  | cons a cs ih =>
    cases ha : Text.isBlank a with
    | true => exact ih (oneLine_of_isBlank ha ▸ h)
    | false =>
      cases cs with
      | nil =>
        rw [oneLine_singleton ha, List.mem_singleton] at h
        exact .inr (h ▸ ha)
      | cons b cs =>
        cases hb : Text.isBlank b with
        | true =>
          rw [oneLine_close ha hb, List.mem_cons] at h
          rcases h with rfl | h
          · exact .inr ha
          · split at h
            · cases h
            · exact (List.mem_cons.1 h).elim .inl ih
        | false =>
          rw [oneLine_more ha hb, List.mem_cons] at h
          exact h.elim (fun h => .inr (h ▸ ha)) ih

/-- A text brought onto one line opens and closes the comments that it does as it is: no mark is
lost with the blanks that are taken out, and since one is left between fields, none is made. -/
theorem depth_oneLine (r : CommentRules) (s : Inside)
    (h : s.half = .none ∨ ∀ c ∈ cs.head?, Text.isBlank c = false) :
    (r.scan s (Text.oneLine cs)).map (·.depth) = (r.scan s cs).map (·.depth) := by
  induction cs generalizing s with
  | nil => rfl
  | cons c cs ih =>
    cases hc : Text.isBlank c with
    | true =>
      obtain ⟨depth, half⟩ := s
      obtain rfl : half = .none := h.resolve_right (by simp [hc])
      rw [oneLine_of_isBlank hc, scan_cons_of_none (halfOf_of_isBlank hc)]
      exact ih _ (.inl rfl)
    | false =>
      cases cs with
      | nil => rw [oneLine_singleton hc]
      | cons d cs =>
        cases hd : Text.isBlank d with
        | true =>
          rw [oneLine_close hc hd, scan_cons, scan_cons]
          cases r.step s c with
          | none => rfl
          | some s' =>
            have hrest := ih ⟨s'.depth, .none⟩ (.inl rfl)
            have hd' := halfOf_of_isBlank hd
            change (r.scan s' _).map _ = (r.scan s' (d :: cs)).map _
            rw [scan_cons_of_none hd'] at hrest ⊢
            rw [← hrest]
            split
            · rename_i hnone
              rw [Text.oneLine, hnone]
              rfl
            · rw [scan_cons_of_none (by decide)]
        | false =>
          rw [oneLine_more hc hd, scan_cons, scan_cons]
          cases r.step s c with
          | none => rfl
          | some s' => exact ih s' (.inr (by simpa using hd))

theorem halfOf_dollar : halfOf '$' = .none := rfl

theorem halfOf_backslash : halfOf '\\' = .none := rfl

theorem scan_escapeDollars (r : CommentRules) (s : Inside) (cs : List Char) :
    r.scan s (escapeDollars cs) = r.scan s cs := by
  induction cs generalizing s with
  | nil => rfl
  | cons c cs ih =>
    rw [escapeDollars, List.flatMap_cons, ← escapeDollars]
    split
    · rename_i hc
      rw [hc, List.cons_append, List.singleton_append, scan_cons_of_none halfOf_backslash,
        scan_cons_of_none halfOf_dollar, scan_cons_of_none halfOf_dollar]
      exact ih _
    · rw [List.singleton_append, scan_cons, scan_cons]
      cases r.step s c with
      | none => rfl
      | some s' => exact ih s'

end

/-! ## Texts in comments -/

/-- A text that a document has a say in, where it stands in a comment. -/
inductive Said
  | description (v : Json)
  | escaped (v : Json)
  | name (s : String)

namespace Said

/-- The text as the document has it. -/
def source : Said → List Char
  | .description v | .escaped v => if v.truthy then v.asText.toList else []
  | .name s => s.toList

def written : Said → List Char
  | .description v => (described v).toList
  | .escaped v => (kotlinText (described v)).toList
  | .name s => s.toList

def isDescription : Said → Bool
  | .name _ => false
  | _ => true

end Said

theorem depthAfter_described (r : CommentRules) (depth : Nat) (v : Json) :
    r.depthAfter depth (described v).toList = r.depthAfter depth (Said.description v).source := by
  rw [described, Said.source]
  split
  · rw [String.toList_ofList]
    exact depth_oneLine r ⟨depth, .none⟩ (.inl rfl)
  · rfl

/-- What is written in a comment has the marks that its text has in the document. -/
theorem depthAfter_written (r : CommentRules) (depth : Nat) (t : Said) :
    r.depthAfter depth t.written = r.depthAfter depth t.source := by
  cases t with
  | name s => rfl
  | description v => exact depthAfter_described r depth v
  | escaped v =>
    rw [Said.written, kotlinText, String.toList_ofList, depthAfter, scan_escapeDollars]
    exact depthAfter_described r depth v

theorem closingMark_infix_written_iff (t : Said) :
    closingMark <:+: t.written ↔ closingMark <:+: t.source := by
  rw [← depthAfter_eq_none_iff (r := javaScript) rfl, depthAfter_written,
    depthAfter_eq_none_iff rfl]

theorem isLineBreak_of_mem_described {v : Json} {c : Char} (h : c ∈ (described v).toList) :
    Text.isLineBreak c = false := by
  rw [described] at h
  split at h
  · rw [String.toList_ofList] at h
    rcases eq_or_of_mem_oneLine h with rfl | hc
    · decide
    · refine Bool.eq_false_iff.2 fun hbreak => ?_
      rw [isBlank_of_isLineBreak hbreak] at hc
      cases hc
  · cases h

/-- A description has no line break in a comment, whatever it is. -/
theorem isLineBreak_of_mem_written {t : Said} (ht : t.isDescription = true) {c : Char}
    (h : c ∈ t.written) : Text.isLineBreak c = false := by
  cases t with
  | name s => cases ht
  | description v => exact isLineBreak_of_mem_described h
  | escaped v =>
    rw [Said.written, kotlinText, String.toList_ofList, escapeDollars, List.mem_flatMap] at h
    obtain ⟨d, hd, hc⟩ := h
    split at hc
    · rcases List.mem_cons.1 hc with rfl | hc
      · decide
      · rw [List.mem_singleton.1 hc]
        decide
    · rw [List.mem_singleton.1 hc]
      exact isLineBreak_of_mem_described hd

/-! ## Comments -/

/-- A piece of a block comment. -/
inductive Part
  | fixed (s : String)
  | said (t : Said)

def Part.written : Part → List Char
  | .fixed s => s.toList
  | .said t => t.written

def saidIn (ps : List Part) : List Said :=
  ps.filterMap fun
    | .fixed _ => none
    | .said t => some t

/-- Behind every text stands a fixed piece, and none of these has to do with marks. -/
inductive Framed : List Part → Prop
  | nil : Framed []
  | fixed {s : String} {ps : List Part} (calm : isCalm s.toList = true) (h : Framed ps) :
      Framed (.fixed s :: ps)
  | said {t : Said} {s : String} {ps : List Part} (calm : isCalm s.toList = true) (h : Framed ps) :
      Framed (.said t :: .fixed s :: ps)

theorem Framed.append {ps qs : List Part} (h : Framed ps) (h' : Framed qs) : Framed (ps ++ qs) := by
  induction h with
  | nil => exact h'
  | fixed calm _ ih => exact .fixed calm ih
  | said calm _ ih => exact .said calm ih

theorem Framed.flatMap {α : Type} {as : List α} {parts : α → List Part}
    (h : ∀ a ∈ as, Framed (parts a)) : Framed (as.flatMap parts) := by
  induction as with
  | nil => exact .nil
  | cons a as ih =>
    obtain ⟨ha, has⟩ := List.forall_mem_cons.1 h
    exact ha.append (ih has)

/-- A comment as a template has it: a description behind two slashes, or texts between fixed
pieces. -/
inductive Comment
  | line (v : Json)
  | block (opening : String) (parts : List Part)

namespace Comment

def body : Comment → List Char
  | .line v => "// ".toList ++ (described v).toList
  | .block opening parts =>
    "/**".toList ++ opening.toList ++ parts.flatMap Part.written ++ "*/".toList

/-- The comment with the line end that the template has behind it. -/
def written (c : Comment) : List Char := c.body ++ ['\n']

/-- The texts in a comment. -/
def said : Comment → List Said
  | .line v => [.description v]
  | .block _ parts => saidIn parts

def WellFormed : Comment → Prop
  | .line _ => True
  | .block opening parts => isCalm opening.toList = true ∧ Framed parts

/-- The texts in a comment, as the document has them, leave its end where it is: a line comment's
always, and a block comment's if, one after another, they close what they open and no more. -/
def Keeps (r : CommentRules) : Comment → Prop
  | .line _ => True
  | .block _ parts => ((saidIn parts).map Said.source).foldlM r.depthAfter 0 = some 0

end Comment

instance (r : CommentRules) : (c : Comment) → Decidable (c.Keeps r)
  | .line _ => .isTrue trivial
  | .block _ parts =>
    inferInstanceAs (Decidable (((saidIn parts).map Said.source).foldlM r.depthAfter 0 = some 0))

theorem scan_parts {r : CommentRules} {ps : List Part} (h : Framed ps) (depth : Nat) :
    r.scan ⟨depth, .none⟩ (ps.flatMap Part.written) =
      (((saidIn ps).map Said.source).foldlM r.depthAfter depth).map (⟨·, .none⟩) := by
  induction h generalizing depth with
  | nil => rfl
  | fixed calm _ ih =>
    rw [List.flatMap_cons, scan_append, Part.written, scan_of_isCalm calm]
    exact ih depth
  | @said t s ps calm _ ih =>
    rw [List.flatMap_cons, List.flatMap_cons, scan_append, Part.written, Part.written]
    change _ = Option.map _ ((r.depthAfter depth t.source).bind _)
    rw [← depthAfter_written, depthAfter]
    cases r.scan ⟨depth, .none⟩ t.written with
    | none => rfl
    | some s' =>
      change r.scan s' _ = _
      rw [scan_append, scan_of_isCalm calm]
      exact ih s'.depth

theorem scan_block {r : CommentRules} {opening : String} {parts : List Part}
    (hopening : isCalm opening.toList = true) (hparts : Framed parts) :
    r.scan ⟨0, .none⟩ ('*' :: opening.toList ++ parts.flatMap Part.written) =
      (((saidIn parts).map Said.source).foldlM r.depthAfter 0).map (⟨·, .none⟩) := by
  have hstar : r.step ⟨0, .none⟩ '*' = some ⟨0, .star⟩ := by simp [step, halfOf]
  rw [List.cons_append, scan_cons, hstar]
  change r.scan ⟨0, .star⟩ _ = _
  rw [scan_append, scan_of_isCalm hopening]
  exact scan_parts hparts 0

theorem afterComment_line (r : CommentRules) (v : Json) (after : List Char) :
    r.afterComment ((Comment.line v).written ++ after) = some ('\n' :: after) := by
  have hkept : ∀ c ∈ ' ' :: (described v).toList, (!r.terminators.contains c) = true := by
    intro c hc
    rw [Bool.not_eq_true', List.contains_eq_mem, decide_eq_false_iff_not]
    intro hmem
    have hbreak := r.breaks c hmem
    rcases List.mem_cons.1 hc with rfl | hc
    · revert hbreak
      decide
    · rw [isLineBreak_of_mem_described hc] at hbreak
      cases hbreak
  have hwritten : (Comment.line v).written ++ after =
      '/' :: '/' :: (' ' :: (described v).toList ++ '\n' :: after) := by
    simp [Comment.written, Comment.body]
  rw [hwritten, afterComment, List.dropWhile_append_of_pos hkept, List.dropWhile_cons_of_neg]
  simpa using r.feed

/-- A comment ends where the template ends it exactly if its texts leave its end where it is. -/
theorem afterComment_iff {c : Comment} (hc : c.WellFormed) (r : CommentRules) (after : List Char) :
    r.afterComment (c.written ++ after) = some ('\n' :: after) ↔ c.Keeps r := by
  cases c with
  | line v => exact iff_of_true (afterComment_line r v after) trivial
  | block opening parts =>
    obtain ⟨hopening, hparts⟩ := hc
    have hwritten : (Comment.block opening parts).written ++ after = '/' :: '*' ::
        ('*' :: opening.toList ++ parts.flatMap Part.written ++ '*' :: '/' :: '\n' :: after) := by
      simp [Comment.written, Comment.body]
    have hscan := scan_block (r := r) hopening hparts
    rw [hwritten, afterComment, leave_iff, hscan, Option.map_map, Comment.Keeps]
    · change Option.map id _ = _ ↔ _
      rw [Option.map_id]
      rfl
    · intro s' hs'
      rw [hscan] at hs'
      obtain ⟨depth, -, rfl⟩ := Option.map_eq_some_iff.1 hs'
      rfl

theorem Comment.keeps_of_unmarked {c : Comment} (r : CommentRules)
    (h : ∀ t ∈ c.said, ¬ closingMark <:+: t.source ∧ ¬ openingMark <:+: t.source) : c.Keeps r := by
  cases c with
  | line v => trivial
  | block opening parts => exact foldlM_depthAfter_of_unmarked 0 (List.forall_mem_map.2 h)

theorem Comment.keeps_block_iff {r : CommentRules} (hr : r.nests = false) (opening : String)
    (parts : List Part) :
    (Comment.block opening parts).Keeps r ↔ ∀ t ∈ saidIn parts, ¬ closingMark <:+: t.source := by
  rw [Comment.Keeps, foldlM_depthAfter_iff hr, List.forall_mem_map]

end Emit

end ClientForge
