-- SUMMARY: Texts that stand in a generated text one after another, and what is left of them where the text is set in.
import ClientForge.Emit.Kotlin

/-!
# Places in generated text

Generated text is put together from pieces, and what stands in the pieces stands in the whole,
in the same order (`StandIn`). Where a block is set in, its lines are written anew, with another
line end than they may have had: a text in it is kept if it has no line break, and is cut off
behind its first one if it has (`standIn_setIn`). Classes that are nested in others are set in
once for each class around them, and what is left of their texts after the first time is left of
them in the file (`StandsInClasses.dataClass`).
-/

namespace ClientForge

namespace Emit

open Text

/-- Some texts stand in a text, one after another. -/
inductive StandIn : List (List Char) → List Char → Prop
  | nothing (text : List Char) : StandIn [] text
  | next {ws : List (List Char)} {rest : List Char} (gap w : List Char) (h : StandIn ws rest) :
      StandIn (w :: ws) (gap ++ w ++ rest)

section
variable {ws vs : List (List Char)} {t u : List Char}

theorem StandIn.after (gap : List Char) (h : StandIn ws t) : StandIn ws (gap ++ t) := by
  cases h with
  | nothing => exact .nothing _
  | next gap' w h =>
    rw [← List.append_assoc, ← List.append_assoc]
    exact .next (gap ++ gap') w h

theorem StandIn.append (h : StandIn ws t) (h' : StandIn vs u) : StandIn (ws ++ vs) (t ++ u) := by
  induction h with
  | nothing t => exact h'.after t
  | next gap w _ ih =>
    rw [List.append_assoc]
    exact .next gap w ih

theorem StandIn.before (h : StandIn ws t) (after : List Char) : StandIn ws (t ++ after) :=
  List.append_nil ws ▸ h.append (.nothing after)

theorem StandIn.single (before w after : List Char) : StandIn [w] (before ++ w ++ after) :=
  .next before w (.nothing after)

/-- What stands in a text stands in it still when every character is written in another way. -/
theorem StandIn.flatMap (f : Char → List Char) (h : StandIn ws t) :
    StandIn (ws.map (·.flatMap f)) (t.flatMap f) := by
  induction h with
  | nothing t => exact .nothing _
  | next gap w _ ih =>
    rw [List.flatMap_append, List.flatMap_append]
    exact .next _ _ ih

/-! ## Pieces -/

theorem standIn_cons {p : String} {ps : List String} (hp : StandIn ws p.toList)
    (hps : StandIn vs (pieces ps).toList) : StandIn (ws ++ vs) (pieces (p :: ps)).toList := by
  rw [pieces, String.join_cons, String.toList_append]
  exact hp.append hps

theorem standIn_head {p : String} {ps : List String} (hp : StandIn ws p.toList) :
    StandIn ws (pieces (p :: ps)).toList :=
  List.append_nil ws ▸ standIn_cons hp (.nothing _)

/-- The first `n` pieces passed over. -/
theorem standIn_drop {ps : List String} (n : Nat) (h : StandIn ws (pieces (ps.drop n)).toList) :
    StandIn ws (pieces ps).toList := by
  rw [← List.take_append_drop n ps, pieces, String.join_append, String.toList_append]
  exact h.after _

/-- The first `n` pieces by themselves. -/
theorem standIn_take {ps : List String} (n : Nat) (h : StandIn ws (pieces (ps.take n)).toList) :
    StandIn ws (pieces ps).toList := by
  rw [← List.take_append_drop n ps, pieces, String.join_append, String.toList_append]
  exact h.before _

variable {α β : Type} {entries : List α} {held : α → List β} {w : β → List Char}

theorem standIn_forEach {write : α → String}
    (h : ∀ a ∈ entries, StandIn ((held a).map w) (write a).toList) :
    StandIn ((entries.flatMap held).map w) (forEach entries write).toList := by
  induction entries with
  | nil => exact .nothing _
  | cons a as ih =>
    obtain ⟨ha, has⟩ := List.forall_mem_cons.1 h
    rw [List.flatMap_cons, List.map_append]
    exact standIn_cons ha (ih has)

theorem standIn_each {write : Bool → α → String}
    (h : ∀ a ∈ entries, ∀ last, StandIn ((held a).map w) (write last a).toList) :
    StandIn ((entries.flatMap held).map w) (each write entries).toList := by
  induction entries with
  | nil => exact .nothing _
  | cons a as ih =>
    obtain ⟨ha, has⟩ := List.forall_mem_cons.1 h
    rw [List.flatMap_cons, List.map_append]
    cases as with
    | nil => simpa [each] using ha true
    | cons b bs => exact standIn_cons (ha false) (standIn_head (ih has))

end

/-! ## Blocks that are set in -/

theorem forall_eq_false_of_all {p : Char → Bool} {cs : List Char} (h : cs.all (!p ·) = true) :
    ∀ c ∈ cs, p c = false := by
  simpa using h

/-- A text up to its first line break, which becomes an ordinary one. -/
def cutAtBreak : List Char → List Char
  | [] => []
  | c :: cs => if isLineBreak c then ['\n'] else c :: cutAtBreak cs

theorem cutAtBreak_eq_self {cs : List Char} (h : ∀ c ∈ cs, isLineBreak c = false) :
    cutAtBreak cs = cs := by
  induction cs with
  | nil => rfl
  | cons c cs ih =>
    obtain ⟨hc, hcs⟩ := List.forall_mem_cons.1 h
    rw [cutAtBreak, hc, if_neg Bool.false_ne_true, ih hcs]

/-- A line with its end is kept. -/
theorem cutAtBreak_concat {cs : List Char} (h : ∀ c ∈ cs, isLineBreak c = false) :
    cutAtBreak (cs ++ ['\n']) = cs ++ ['\n'] := by
  induction cs with
  | nil => rfl
  | cons c cs ih =>
    obtain ⟨hc, hcs⟩ := List.forall_mem_cons.1 h
    rw [List.cons_append, cutAtBreak, hc, if_neg Bool.false_ne_true, ih hcs]

theorem cutAtBreak_cutAtBreak (cs : List Char) : cutAtBreak (cutAtBreak cs) = cutAtBreak cs := by
  induction cs with
  | nil => rfl
  | cons c cs ih =>
    rw [cutAtBreak]
    split
    · rfl
    · rename_i hc
      rw [cutAtBreak, if_neg hc, ih]

/-- A text that starts in a line and is not cut in the middle of a line break. -/
structure Placed (w : List Char) : Prop where
  starts : ∃ c, w.head? = some c ∧ isLineBreak c = false
  ends : w.getLast? ≠ some '\r'

section
variable (margin : List Char)

/-- Lines written anew, all but the first behind a margin unless they are empty. -/
def rewritten : List Line → List Char
  | [] => []
  | first :: rest =>
    first.content ++
      rest.flatMap fun l => '\n' :: (if l.content.isEmpty then [] else margin ++ l.content)

/-- What comes between a line and those behind it. -/
def lineStart : List Line → List Char
  | [] => []
  | l :: _ => '\n' :: (if l.content.isEmpty then [] else margin)

theorem rewritten_cons (l : Line) (ls : List Line) :
    rewritten margin (l :: ls) = l.content ++ lineStart margin ls ++ rewritten margin ls := by
  cases ls with
  | nil => simp [rewritten, lineStart]
  | cons first rest =>
    simp only [rewritten, lineStart, List.flatMap_cons]
    split <;> simp_all

theorem setIn_eq (width : Nat) (block : List Char) :
    Text.setIn width block = List.replicate width ' ' ++
      rewritten (List.replicate width ' ') (Text.lines (block ++ ['\n'])) := by
  unfold Text.setIn
  cases Text.lines (block ++ ['\n']) with
  | nil => simp [rewritten]
  | cons first rest => simp [rewritten]

variable {c : Char} {cs rest : List Char}

theorem ne_of_not_isLineBreak (hc : isLineBreak c = false) : c ≠ '\r' ∧ c ≠ '\n' := by
  constructor
  · rintro rfl
    revert hc
    decide
  · rintro rfl
    revert hc
    decide

theorem lines_of_break (hc : isLineBreak c = true) (h : c = '\r' → cs.head? ≠ some '\n') :
    Text.lines (c :: cs) = ⟨[], [c]⟩ :: Text.lines cs := by
  rw [Text.lines, if_pos hc]
  rintro rest rfl rfl
  exact h rfl rfl

theorem lines_of_plain (hc : isLineBreak c = false) :
    Text.lines (c :: cs) = pushChar c (Text.lines cs) := by
  rw [Text.lines, hc, if_neg Bool.false_ne_true]
  intro rest hr _
  exact (ne_of_not_isLineBreak hc).1 hr

theorem rewritten_plain (hc : isLineBreak c = false) :
    rewritten margin (Text.lines (c :: cs)) = c :: rewritten margin (Text.lines cs) := by
  rw [lines_of_plain hc]
  cases Text.lines cs <;> rfl

theorem rewritten_break (hc : isLineBreak c = true) (h : c = '\r' → cs.head? ≠ some '\n') :
    rewritten margin (Text.lines (c :: cs)) =
      lineStart margin (Text.lines cs) ++ rewritten margin (Text.lines cs) := by
  rw [lines_of_break hc h, rewritten_cons, List.nil_append]

theorem lines_ne_nil (h : cs ≠ []) : Text.lines cs ≠ [] := by
  cases cs with
  | nil => exact absurd rfl h
  | cons c cs =>
    rw [Text.lines.eq_def]
    split
    · contradiction
    · simp
    · rename_i d ds _ hcons
      obtain ⟨rfl, rfl⟩ := List.cons.inj hcons
      split
      · simp
      · cases Text.lines cs <;> simp [pushChar]

theorem lineStart_eq {ls : List Line} (h : ls ≠ []) :
    ∃ after, lineStart margin ls = '\n' :: after := by
  cases ls with
  | nil => exact absurd rfl h
  | cons l ls => exact ⟨_, rfl⟩

/-- Whatever comes in front of a text, its lines are written as they are without. -/
theorem rewritten_append (gap : List Char) (h : rest.head? ≠ some '\n') :
    ∃ g, rewritten margin (Text.lines (gap ++ rest)) = g ++ rewritten margin (Text.lines rest) := by
  induction gap using Text.lines.induct with
  | case1 => exact ⟨[], rfl⟩
  | case2 gap ih =>
    obtain ⟨g, hg⟩ := ih
    rw [List.cons_append, List.cons_append, Text.lines, rewritten_cons, hg, ← List.append_assoc]
    exact ⟨_, rfl⟩
  | case3 c gap hpair hc ih =>
    obtain ⟨g, hg⟩ := ih
    have hnext : c = '\r' → (gap ++ rest).head? ≠ some '\n' := by
      rintro rfl
      cases gap with
      | nil => exact h
      | cons d gap =>
        intro hd
        exact hpair gap rfl (by simpa using hd)
    rw [List.cons_append, rewritten_break margin hc hnext, hg, ← List.append_assoc]
    exact ⟨_, rfl⟩
  | case4 c gap _ hc ih =>
    obtain ⟨g, hg⟩ := ih
    rw [List.cons_append, rewritten_plain margin (by simpa using hc), hg, ← List.cons_append]
    exact ⟨_, rfl⟩

/-- Up to its first line break a text is kept, and from there on the text goes on in some way. -/
theorem rewritten_cutAtBreak {w v : List Char} (hends : w.getLast? ≠ some '\r') (hv : v ≠ []) :
    ∃ gap left, rewritten margin (Text.lines (w ++ v)) =
      cutAtBreak w ++ gap ++ rewritten margin (Text.lines (left ++ v)) := by
  have hstart (left : List Char) :
      ∃ after, lineStart margin (Text.lines (left ++ v)) = '\n' :: after :=
    lineStart_eq margin (lines_ne_nil (List.append_ne_nil_of_right_ne_nil left hv))
  induction w using Text.lines.induct with
  | case1 => exact ⟨[], [], rfl⟩
  | case2 w _ =>
    obtain ⟨after, hafter⟩ := hstart w
    refine ⟨after, w, ?_⟩
    rw [List.cons_append, List.cons_append, Text.lines, rewritten_cons, hafter, cutAtBreak,
      if_pos (by decide)]
    rfl
  | case3 c w hpair hc _ =>
    obtain ⟨after, hafter⟩ := hstart w
    have hnext : c = '\r' → (w ++ v).head? ≠ some '\n' := by
      rintro rfl
      cases w with
      | nil => exact absurd rfl hends
      | cons d w =>
        intro hd
        exact hpair w rfl (by simpa using hd)
    refine ⟨after, w, ?_⟩
    rw [List.cons_append, rewritten_break margin hc hnext, hafter, cutAtBreak, if_pos hc]
    rfl
  | case4 c w _ hc ih =>
    have hends' : w.getLast? ≠ some '\r' := by
      cases w with
      | nil => simp
      | cons d w => rwa [List.getLast?_cons_cons] at hends
    obtain ⟨gap, left, h⟩ := ih hends'
    refine ⟨gap, left, ?_⟩
    rw [List.cons_append, rewritten_plain margin (by simpa using hc), h, cutAtBreak, if_neg hc]
    rfl

theorem standIn_rewritten {ws : List (List Char)} {t : List Char} (h : StandIn ws t)
    (hws : ∀ w ∈ ws, Placed w) (before : List Char) :
    StandIn (ws.map cutAtBreak) (rewritten margin (Text.lines (before ++ t ++ ['\n']))) := by
  induction h generalizing before with
  | nothing => exact .nothing _
  | @next ws t gap w _ ih =>
    obtain ⟨hw, hws⟩ := List.forall_mem_cons.1 hws
    obtain ⟨c, hc, hplain⟩ := hw.starts
    have hhead : (w ++ (t ++ ['\n'])).head? ≠ some '\n' := by
      rw [List.head?_append, hc, Option.some_or]
      exact fun h => (ne_of_not_isLineBreak hplain).2 (Option.some.inj h)
    obtain ⟨g, hg⟩ := rewritten_append margin (before ++ gap) hhead
    obtain ⟨g', left, hg'⟩ := rewritten_cutAtBreak margin hw.ends (v := t ++ ['\n']) (by simp)
    have hsplit : before ++ (gap ++ w ++ t) ++ ['\n'] = before ++ gap ++ (w ++ (t ++ ['\n'])) := by
      simp only [List.append_assoc]
    have hrest := (ih hws left).after g'
    rw [List.append_assoc left] at hrest
    rw [hsplit, hg, hg', List.map_cons, List.append_assoc (cutAtBreak w), ← List.append_assoc g]
    exact .next g (cutAtBreak w) hrest

end

/-- Where a block is set in, the texts in it stand up to their line breaks. -/
theorem standIn_setIn {ws : List (List Char)} {block : String} (h : StandIn ws block.toList)
    (hws : ∀ w ∈ ws, Placed w) : StandIn (ws.map cutAtBreak) (setIn block).toList := by
  rw [setIn, String.toList_ofList, setIn_eq]
  exact (standIn_rewritten _ h hws []).after _

theorem head?_cutAtBreak {c : Char} {w : List Char} (hw : w.head? = some c)
    (hc : isLineBreak c = false) : (cutAtBreak w).head? = some c := by
  cases w with
  | nil => cases hw
  | cons d w =>
    cases hw
    rw [cutAtBreak, hc, if_neg Bool.false_ne_true, List.head?_cons]

theorem getLast?_cutAtBreak {w : List Char} (h : w.getLast? ≠ some '\r') :
    (cutAtBreak w).getLast? ≠ some '\r' := by
  induction w with
  | nil => simp [cutAtBreak]
  | cons c w ih =>
    rw [cutAtBreak]
    split
    · decide
    · rename_i hc
      cases w with
      | nil => exact h
      | cons d w =>
        have hw := ih (by rwa [List.getLast?_cons_cons] at h)
        cases hcut : cutAtBreak (d :: w) with
        | nil =>
          rw [cutAtBreak] at hcut
          split at hcut <;> cases hcut
        | cons e es => rwa [hcut, ← List.getLast?_cons_cons (a := c)] at hw

theorem Placed.cutAtBreak {w : List Char} (h : Placed w) : Placed (cutAtBreak w) := by
  obtain ⟨⟨c, hc, hplain⟩, hends⟩ := h
  exact ⟨⟨c, head?_cutAtBreak hc hplain, hplain⟩, getLast?_cutAtBreak hends⟩

/-! ## Classes in classes -/

namespace Kotlin

/-- The text of classes nested in one. -/
def nestedText (nested : List String) : String :=
  forEach nested fun text => pieces [setIn text, "\n"]

theorem standIn_classBody {ws : List (List Char)} {nested : List String}
    (h : StandIn ws (nestedText nested).toList) : StandIn ws (classBody nested).toList := by
  cases nested with
  | nil => exact h
  | cons text nested => exact standIn_drop 1 (standIn_head h)

variable {β : Type}

mutual

/-- What a class has by its head and those nested in it by theirs, in the order of the file. -/
def ofClass (of : ClassHead → List β) : Model → List β
  | .object head nested => of head ++ ofNested of nested
  | .enumeration e => of (classHead (.enumeration e))
  | .property p => of (classHead (.property p))

def ofNested (of : ClassHead → List β) : List Model → List β
  | [] => []
  | m :: ms => ofClass of m ++ ofNested of ms

end

variable {of : ClassHead → List β}

mutual

theorem exists_head_of_mem_ofClass {b : β} (m : Model) (h : b ∈ ofClass of m) :
    ∃ head, b ∈ of head := by
  cases m with
  | enumeration | property => exact ⟨_, h⟩
  | object head nested =>
    rw [ofClass, List.mem_append] at h
    exact h.elim (fun h => ⟨head, h⟩) (exists_head_of_mem_ofNested nested)

theorem exists_head_of_mem_ofNested {b : β} (ms : List Model) (h : b ∈ ofNested of ms) :
    ∃ head, b ∈ of head := by
  cases ms with
  | nil => cases h
  | cons m ms =>
    rw [ofNested, List.mem_append] at h
    exact h.elim (exists_head_of_mem_ofClass m) (exists_head_of_mem_ofNested ms)

end

/-- What stands in the text of a class, first by its head and then by the classes nested in it,
and how it comes out where the class is set in. -/
structure StandsInClasses (of : ClassHead → List β) (laid written : β → List Char) : Prop where
  placed : ∀ head, ∀ b ∈ of head, Placed (laid b)
  cut : ∀ head, ∀ b ∈ of head, cutAtBreak (laid b) = written b
  standIn : ∀ head nested ws, StandIn ws (nestedText nested).toList →
    StandIn ((of head).map laid ++ ws) (classText head nested).toList

variable {laid written : β → List Char}

theorem StandsInClasses.standIn_setIn (h : StandsInClasses of laid written) {head : ClassHead}
    {nested : List String} {bs : List β} (hbs : ∀ b ∈ bs, ∃ head, b ∈ of head)
    (hnested : StandIn (bs.map written) (nestedText nested).toList) :
    StandIn ((of head ++ bs).map written) (setIn (classText head nested)).toList := by
  have hplaced : ∀ w ∈ (of head).map laid ++ bs.map written, Placed w := by
    intro w hw
    rw [List.mem_append, List.mem_map, List.mem_map] at hw
    rcases hw with ⟨b, hb, rfl⟩ | ⟨b, hb, rfl⟩
    · exact h.placed head b hb
    · obtain ⟨head', hb⟩ := hbs b hb
      exact h.cut head' b hb ▸ (h.placed head' b hb).cutAtBreak
  have hcut : ((of head).map laid ++ bs.map written).map cutAtBreak = (of head ++ bs).map written := by
    rw [List.map_append, List.map_append, List.map_map, List.map_map]
    congr 1
    · exact List.map_congr_left (h.cut head)
    · refine List.map_congr_left fun b hb => ?_
      obtain ⟨head', hb⟩ := hbs b hb
      rw [Function.comp, ← h.cut head' b hb, cutAtBreak_cutAtBreak]
  exact hcut ▸ Emit.standIn_setIn (h.standIn head nested _ hnested) hplaced

mutual

theorem StandsInClasses.dataClass (h : StandsInClasses of laid written) (m : Model) :
    StandIn ((ofClass of m).map written) (pieces [setIn (dataClass m), "\n"]).toList := by
  have hbare (head : ClassHead) : StandIn ((of head).map written) (setIn (classText head [])).toList := by
    rw [← List.append_nil (of head)]
    exact h.standIn_setIn (List.forall_mem_nil _) (.nothing _)
  cases m with
  | object head nested =>
    exact standIn_head (h.standIn_setIn (fun b hb => exists_head_of_mem_ofNested nested hb)
      (StandsInClasses.nestedClasses h nested))
  | enumeration | property => exact standIn_head (hbare _)

theorem StandsInClasses.nestedClasses (h : StandsInClasses of laid written) (ms : List Model) :
    StandIn ((ofNested of ms).map written) (nestedText (nestedClasses ms)).toList := by
  cases ms with
  | nil => exact .nothing _
  | cons m ms =>
    rw [ofNested, List.map_append]
    exact standIn_cons (StandsInClasses.dataClass h m) (StandsInClasses.nestedClasses h ms)

end

end Kotlin

end Emit

end ClientForge
