-- SUMMARY: Where a comment ends, and how far a text in it moves that.
import ClientForge.Text.Lines

/-!
# Comments

A line comment ends before the next line terminator. A block comment ends at the next closing
mark, or, where comments nest, at the one that closes as many as have been opened (`afterComment`).
So a text leaves the end of a block comment where it is if as many comments are open behind it as
in front of it (`leave_iff`). Where comments do not nest this is to say that it holds no closing
mark (`foldlM_depthAfter_iff`).
-/

namespace ClientForge

namespace Emit

/-! ## Scanning -/

/-- What a language has to say about comments: whether they nest, and which characters end a line
comment, line feeds and only line breaks. -/
structure CommentRules where
  nests : Bool
  terminators : List Char
  feed : '\n' ∈ terminators
  breaks : ∀ c ∈ terminators, Text.isLineBreak c = true

namespace CommentRules

def nesting : CommentRules where
  nests := true
  terminators := ['\n', '\r']
  feed := by decide
  breaks := List.all_eq_true.1 (by decide)

def javaScript : CommentRules where
  nests := false
  terminators := ['\n', '\r', '\u2028', '\u2029']
  feed := by decide
  breaks := List.all_eq_true.1 (by decide)

end CommentRules

/-- A character that may be the first half of a mark. -/
inductive Half
  | none
  | star
  | slash
deriving DecidableEq, Repr

def halfOf (c : Char) : Half := if c = '*' then .star else if c = '/' then .slash else .none

/-- Inside a block comment: how many comments are open in it, and the character before. -/
structure Inside where
  depth : Nat
  half : Half
deriving DecidableEq, Repr

theorem halfOf_eq_star_iff {c : Char} : halfOf c = .star ↔ c = '*' := by
  rw [halfOf]
  split
  · simpa
  · rename_i hc
    split <;> simpa

theorem halfOf_eq_slash_iff {c : Char} : halfOf c = .slash ↔ c = '/' := by
  rw [halfOf]
  split
  · rename_i hc
    simp [hc]
  · split <;> simpa

def closingMark : List Char := ['*', '/']

def openingMark : List Char := ['/', '*']

theorem mark_infix_cons {a b c : Char} {cs : List Char} :
    [a, b] <:+: c :: cs ↔ (c = a ∧ cs.head? = some b) ∨ [a, b] <:+: cs := by
  rw [List.infix_cons_iff, List.cons_prefix_cons, eq_comm (a := a)]
  cases cs with
  | nil => simp
  | cons d cs => simp [List.cons_prefix_cons, eq_comm (a := b)]

theorem closingMark_infix_cons {c : Char} {cs : List Char} : closingMark <:+: c :: cs ↔
    (halfOf c = .star ∧ cs.head? = some '/') ∨ closingMark <:+: cs := by
  rw [halfOf_eq_star_iff]
  exact mark_infix_cons

theorem openingMark_infix_cons {c : Char} {cs : List Char} : openingMark <:+: c :: cs ↔
    (halfOf c = .slash ∧ cs.head? = some '*') ∨ openingMark <:+: cs := by
  rw [halfOf_eq_slash_iff]
  exact mark_infix_cons

namespace CommentRules

/-- One character further, unless it closes the comment. -/
def step (r : CommentRules) (s : Inside) (c : Char) : Option Inside :=
  if s.half = .star ∧ c = '/' then
    match s.depth with
    | 0 => none
    | d + 1 => some ⟨d, .none⟩
  else if r.nests ∧ s.half = .slash ∧ c = '*' then some ⟨s.depth + 1, .none⟩
  else some ⟨s.depth, halfOf c⟩

def scan (r : CommentRules) (s : Inside) (cs : List Char) : Option Inside := cs.foldlM r.step s

/-- What follows a block comment. -/
def leave (r : CommentRules) : Inside → List Char → Option (List Char)
  | _, [] => none
  | s, c :: cs =>
    match r.step s c with
    | none => some cs
    | some s' => leave r s' cs

/-- What follows the comment that a text starts with. -/
def afterComment (r : CommentRules) : List Char → Option (List Char)
  | '/' :: '*' :: cs => r.leave ⟨0, .none⟩ cs
  | '/' :: '/' :: cs => some (cs.dropWhile fun c => !r.terminators.contains c)
  | _ => none

/-- How many comments are open behind a text that starts with `depth` open ones; nothing if it
closes the comment that it is in. -/
def depthAfter (r : CommentRules) (depth : Nat) (cs : List Char) : Option Nat :=
  (r.scan ⟨depth, .none⟩ cs).map (·.depth)

variable {r : CommentRules} {s s' : Inside} {c : Char} {cs : List Char}

theorem scan_cons : r.scan s (c :: cs) = (r.step s c).bind fun s' => r.scan s' cs :=
  List.foldlM_cons

theorem scan_append (as bs : List Char) :
    r.scan s (as ++ bs) = (r.scan s as).bind fun s' => r.scan s' bs :=
  List.foldlM_append

theorem step_of_none (h : halfOf c = .none) : r.step s c = some ⟨s.depth, .none⟩ := by
  have hc : c ≠ '*' ∧ c ≠ '/' := by
    constructor <;> rintro rfl <;> cases h
  simp [step, hc.1, hc.2, h]

theorem scan_cons_of_none (h : halfOf c = .none) : r.scan s (c :: cs) = r.scan ⟨s.depth, .none⟩ cs := by
  rw [scan_cons, step_of_none h]
  rfl

/-! ## The end of a comment -/

theorem leave_append (as bs : List Char) : r.leave s (as ++ bs) =
    match r.scan s as with
    | none => (r.leave s as).map (· ++ bs)
    | some s' => r.leave s' bs := by
  induction as generalizing s with
  | nil => rfl
  | cons c as ih =>
    rw [List.cons_append, leave, leave, scan_cons]
    cases hstep : r.step s c with
    | none => rfl
    | some s' => exact ih

theorem length_lt_of_leave {rest : List Char} (h : r.leave s cs = some rest) :
    rest.length < cs.length := by
  induction cs generalizing s with
  | nil => cases h
  | cons c cs ih =>
    rw [leave] at h
    split at h
    · cases h
      exact Nat.lt_succ_self _
    · exact Nat.lt_trans (ih h) (Nat.lt_succ_self _)

theorem leave_close (d : Nat) (rest : List Char) : r.leave ⟨d, .none⟩ ('*' :: '/' :: rest) =
    match d with
    | 0 => some rest
    | d + 1 => r.leave ⟨d, .none⟩ rest := by
  have hstar : r.step ⟨d, .none⟩ '*' = some ⟨d, .star⟩ := by simp [step, halfOf]
  rw [leave.eq_def]
  simp only [hstar]
  cases d <;> rfl

/-- A comment is left at the closing mark behind a text exactly if as many comments are open
behind the text as in front of it, none but the comment itself. -/
theorem leave_iff {rest : List Char} (h : ∀ s', r.scan s cs = some s' → s'.half = .none) :
    r.leave s (cs ++ '*' :: '/' :: rest) = some rest ↔ (r.scan s cs).map (·.depth) = some 0 := by
  rw [leave_append]
  cases hscan : r.scan s cs with
  | none =>
    refine ⟨fun hleave => ?_, nofun⟩
    obtain ⟨before, -, hbefore⟩ := Option.map_eq_some_iff.1 hleave
    have := congrArg List.length hbefore
    simp at this
    omega
  | some s' =>
    obtain ⟨d, half⟩ := s'
    obtain rfl : half = .none := h _ hscan
    change r.leave ⟨d, .none⟩ _ = _ ↔ some d = some 0
    rw [leave_close]
    cases d with
    | zero => simp
    | succ d =>
      refine ⟨fun hleave => ?_, nofun⟩
      exact absurd (length_lt_of_leave hleave) (Nat.lt_irrefl _)

example : nesting.afterComment "/* a /* b */ c */ d".toList = some " d".toList := rfl

example : javaScript.afterComment "/* a /* b */ c */ d".toList = some " c */ d".toList := rfl

/-! ## Texts without marks -/

/-- No character of a text completes a mark. -/
def isUnmarked : Half → List Char → Bool
  | _, [] => true
  | h, c :: cs =>
    !(h == .star && c == '/') && !(h == .slash && c == '*') && isUnmarked (halfOf c) cs

def lastHalf (h : Half) (cs : List Char) : Half := cs.foldl (fun _ c => halfOf c) h

theorem scan_of_isUnmarked {d : Nat} {h : Half} (hcs : isUnmarked h cs = true) :
    r.scan ⟨d, h⟩ cs = some ⟨d, lastHalf h cs⟩ := by
  induction cs generalizing h with
  | nil => rfl
  | cons c cs ih =>
    simp only [isUnmarked, Bool.and_eq_true, Bool.not_eq_true', Bool.and_eq_false_iff,
      beq_eq_false_iff_ne] at hcs
    obtain ⟨⟨hclose, hopen⟩, hcs⟩ := hcs
    have hstep : r.step ⟨d, h⟩ c = some ⟨d, halfOf c⟩ := by
      rw [step, if_neg fun hc => hclose.elim (· hc.1) (· hc.2),
        if_neg fun hc => hopen.elim (· hc.2.1) (· hc.2.2)]
    rw [scan_cons, hstep]
    exact ih hcs

theorem isUnmarked_of_markless {h : Half} (hclose : ¬ (h = .star ∧ cs.head? = some '/'))
    (hopen : ¬ (h = .slash ∧ cs.head? = some '*')) (hcs : ¬ closingMark <:+: cs)
    (hcs' : ¬ openingMark <:+: cs) : isUnmarked h cs = true := by
  induction cs generalizing h with
  | nil => rfl
  | cons c cs ih =>
    rw [closingMark_infix_cons, not_or] at hcs
    rw [openingMark_infix_cons, not_or] at hcs'
    have hrest : isUnmarked (halfOf c) cs = true := ih hcs.1 hcs'.1 hcs.2 hcs'.2
    rw [List.head?_cons, Option.some.injEq] at hclose hopen
    simp only [isUnmarked, hrest, Bool.and_true, Bool.and_eq_true, Bool.not_eq_true',
      Bool.and_eq_false_iff, beq_eq_false_iff_ne]
    exact ⟨Decidable.not_and_iff_or_not.1 hclose, Decidable.not_and_iff_or_not.1 hopen⟩

/-- A text that completes no mark and starts none, whatever stands around it. -/
def isCalm (cs : List Char) : Bool :=
  [Half.none, Half.star, Half.slash].all fun h => isUnmarked h cs && lastHalf h cs == .none

theorem scan_of_isCalm (h : isCalm cs = true) : r.scan s cs = some ⟨s.depth, .none⟩ := by
  obtain ⟨d, half⟩ := s
  have hhalf := List.all_eq_true.1 h half (by cases half <;> simp)
  obtain ⟨hunmarked, hlast⟩ := Bool.and_eq_true_iff.1 hhalf
  rw [scan_of_isUnmarked hunmarked, beq_iff_eq.1 hlast]

/-- Texts without marks leave the end of a comment where it is. -/
theorem foldlM_depthAfter_of_unmarked {texts : List (List Char)} (depth : Nat)
    (h : ∀ t ∈ texts, ¬ closingMark <:+: t ∧ ¬ openingMark <:+: t) :
    texts.foldlM r.depthAfter depth = some depth := by
  induction texts with
  | nil => rfl
  | cons t ts ih =>
    obtain ⟨ht, hts⟩ := List.forall_mem_cons.1 h
    have hunmarked : isUnmarked .none t = true :=
      isUnmarked_of_markless (by simp) (by simp) ht.1 ht.2
    rw [List.foldlM_cons, depthAfter, scan_of_isUnmarked hunmarked]
    exact ih hts

/-! ## Where comments do not nest -/

theorem step_of_not_nests (hr : r.nests = false) :
    r.step ⟨0, s.half⟩ c = if s.half = .star ∧ c = '/' then none else some ⟨0, halfOf c⟩ := by
  rw [step]
  split
  · rfl
  · simp [hr]

theorem scan_eq_none_iff (hr : r.nests = false) {h : Half} :
    r.scan ⟨0, h⟩ cs = none ↔ (h = .star ∧ cs.head? = some '/') ∨ closingMark <:+: cs := by
  induction cs generalizing h with
  | nil => simp [scan, closingMark]
  | cons c cs ih =>
    rw [scan_cons, step_of_not_nests (s := ⟨0, h⟩) hr, closingMark_infix_cons, List.head?_cons,
      Option.some.injEq, ← ih]
    split
    · rename_i hclosed
      exact iff_of_true rfl (.inl hclosed)
    · rename_i hopen
      exact ⟨.inr, fun h => h.resolve_left hopen⟩

theorem depth_of_not_nests (hr : r.nests = false) {h : Half} (hscan : r.scan ⟨0, h⟩ cs = some s) :
    s.depth = 0 := by
  induction cs generalizing h with
  | nil =>
    cases hscan
    rfl
  | cons c cs ih =>
    rw [scan_cons, step_of_not_nests (s := ⟨0, h⟩) hr] at hscan
    split at hscan
    · cases hscan
    · exact ih hscan

theorem depthAfter_eq_none_iff (hr : r.nests = false) :
    r.depthAfter 0 cs = none ↔ closingMark <:+: cs := by
  rw [depthAfter, Option.map_eq_none_iff, scan_eq_none_iff hr]
  simp

theorem depthAfter_of_unclosed (hr : r.nests = false) (hcs : ¬ closingMark <:+: cs) :
    r.depthAfter 0 cs = some 0 := by
  cases hscan : r.scan ⟨0, .none⟩ cs with
  | none =>
    refine absurd ((depthAfter_eq_none_iff hr).1 ?_) hcs
    rw [depthAfter, hscan, Option.map_none]
  | some s => rw [depthAfter, hscan, Option.map_some, depth_of_not_nests hr hscan]

/-- Where comments do not nest, some texts leave the end of a comment where it is if none of them
holds a closing mark. -/
theorem foldlM_depthAfter_iff (hr : r.nests = false) {texts : List (List Char)} :
    texts.foldlM r.depthAfter 0 = some 0 ↔ ∀ t ∈ texts, ¬ closingMark <:+: t := by
  induction texts with
  | nil => simp
  | cons t ts ih =>
    rw [List.foldlM_cons, List.forall_mem_cons]
    by_cases ht : closingMark <:+: t
    · rw [(depthAfter_eq_none_iff hr).2 ht]
      exact iff_of_false nofun fun h => h.1 ht
    · rw [depthAfter_of_unclosed hr ht, ← ih]
      exact (and_iff_right ht).symm

end CommentRules

end Emit

end ClientForge
