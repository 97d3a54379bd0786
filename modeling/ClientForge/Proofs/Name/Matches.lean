-- SUMMARY: The words that the scan of a text cuts out are the matches of a pattern of four alternatives.
import ClientForge.Proofs.Name.Spelling

/-!
# Words as matches

A word is a match of a pattern of four alternatives: capitals up to the last, if that starts a
hump; small letters and ASCII digits, with a capital in front or none; capitals and the digits
after them; digits. Alternatives are tried in this order, and each takes all that it can, or as
much as lets the rest of it follow. The scan of a text goes through it once and looks one
character ahead, and yet the words that it cuts out are these matches, one after another
(`finds_split`).
-/

namespace ClientForge

namespace Words

/-! ## Classes of characters -/

/-- Small letters and the digits that stand with them. -/
def isSmallOrDigit (c : Char) : Bool := c.isLower || c.isDigit

theorem isDecimal_of_isAlpha {c : Char} (h : c.isAlpha = true) : Text.isDecimal c = false := by
  have hrange : (65 ≤ c.val.toNat ∧ c.val.toNat ≤ 90) ∨ (97 ≤ c.val.toNat ∧ c.val.toNat ≤ 122) := by
    simpa [Char.isAlpha, Char.isUpper, Char.isLower, UInt32.le_iff_toNat_le, Char.le_def] using h
  have hlow : c.toNat < 0x80 := by
    change c.val.toNat < 0x80
    omega
  have hdigit : ¬ ('0' ≤ c ∧ c ≤ '9') := by
    rw [Char.le_def, Char.le_def, UInt32.le_iff_toNat_le, UInt32.le_iff_toNat_le]
    have hnine : '9'.val.toNat = 57 := by decide
    omega
  rw [Text.isDecimal, Text.digitValue?, if_pos hlow, if_neg hdigit]
  rfl

theorem isDigit_of_not_isDecimal {c : Char} (h : Text.isDecimal c = false) : c.isDigit = false := by
  by_contra hdigit
  rw [isDecimal_of_isDigit (Bool.not_eq_false _ ▸ hdigit)] at h
  cases h

theorem isLower_of_isUpper {c : Char} (h : c.isUpper = true) : c.isLower = false :=
  Bool.not_eq_true _ ▸ Char.not_isLower_of_isUpper h

theorem isSmallOrDigit_of_isUpper {c : Char} (h : c.isUpper = true) : isSmallOrDigit c = false := by
  have hdecimal := isDecimal_of_isAlpha (by simp [Char.isAlpha, h] : c.isAlpha = true)
  rw [isSmallOrDigit, isLower_of_isUpper h, isDigit_of_not_isDecimal hdecimal, Bool.or_false]

theorem isUpper_of_isSmallOrDigit {c : Char} (h : isSmallOrDigit c = true) : c.isUpper = false := by
  by_contra hupper
  rw [isSmallOrDigit_of_isUpper (Bool.not_eq_false _ ▸ hupper)] at h
  cases h

theorem isAlpha_of_isDecimal {c : Char} (h : Text.isDecimal c = true) :
    c.isUpper = false ∧ c.isLower = false := by
  have halpha : ¬ c.isAlpha = true := fun halpha => by
    rw [isDecimal_of_isAlpha halpha] at h
    cases h
  simpa [Char.isAlpha] using halpha

/-! ## Patterns -/

/-- A pattern at the front of a text: what may be left behind it, in the order in which it is
tried. -/
abbrev Pattern := List Char → List (List Char)

namespace Pattern

def one (p : Char → Bool) : Pattern
  | [] => []
  | c :: cs => if p c then [cs] else []

/-- Characters of a kind, all that there are before fewer, but one at least. -/
def oneOrMore (p : Char → Bool) : Pattern
  | [] => []
  | c :: cs => if p c then oneOrMore p cs ++ [cs] else []

def perhaps (a : Pattern) : Pattern := fun cs => a cs ++ [cs]

def next (a b : Pattern) : Pattern := fun cs => (a cs).flatMap b

def either (a b : Pattern) : Pattern := fun cs => a cs ++ b cs

/-- A pattern that has to follow and is left where it is. -/
def ahead (a : Pattern) : Pattern := fun cs => if (a cs).isEmpty then [] else [cs]

/-- A capital that a small letter follows. -/
def hump : Pattern := next (one Char.isUpper) (one Char.isLower)

def capitalsBeforeHump : Pattern := next (oneOrMore Char.isUpper) (ahead hump)

def smallWord : Pattern := next (perhaps (one Char.isUpper)) (oneOrMore isSmallOrDigit)

def capitalsAndDigits : Pattern :=
  next (oneOrMore Char.isUpper) (perhaps (oneOrMore Text.isDecimal))

/-- A word. -/
def word : Pattern :=
  either capitalsBeforeHump
    (either smallWord (either capitalsAndDigits (oneOrMore Text.isDecimal)))

/-- The matches of a pattern from the front of a text on, each preferred over all others at its
place; where there is none, a character is passed over. -/
inductive Finds (a : Pattern) : List Char → List (List Char) → Prop
  | done : Finds a [] []
  | skip {c : Char} {cs : List Char} {found : List (List Char)} (h : a (c :: cs) = [])
      (hrest : Finds a cs found) : Finds a (c :: cs) found
  | found {w rest : List Char} {found : List (List Char)} (hw : w ≠ [])
      (h : (a (w ++ rest)).head? = some rest) (hrest : Finds a rest found) :
      Finds a (w ++ rest) (w :: found)

section
variable {p : Char → Bool} {a b : Pattern} {cs rest : List Char}

/-- A text that does not start with a character of a kind. -/
def Stops (p : Char → Bool) (cs : List Char) : Prop := ∀ c ∈ cs.head?, p c = false

theorem stops_cons {c : Char} (h : p c = false) (cs : List Char) : Stops p (c :: cs) := by
  rintro d ⟨⟩
  exact h

theorem exists_run (p : Char → Bool) (cs : List Char) :
    ∃ run rest, cs = run ++ rest ∧ (∀ c ∈ run, p c = true) ∧ Stops p rest := by
  refine ⟨cs.takeWhile p, cs.dropWhile p, List.takeWhile_append_dropWhile.symm,
    fun c => List.mem_takeWhile_imp, fun c hc => ?_⟩
  have hfirst := List.head?_dropWhile_not p cs
  rwa [Option.mem_def.1 hc] at hfirst

theorem oneOrMore_of_stops (h : Stops p cs) : oneOrMore p cs = [] := by
  cases cs with
  | nil => rfl
  | cons c cs => rw [oneOrMore, h c rfl, if_neg Bool.false_ne_true]

theorem one_of_stops (h : Stops p cs) : one p cs = [] := by
  cases cs with
  | nil => rfl
  | cons c cs => rw [one, h c rfl, if_neg Bool.false_ne_true]

theorem head?_oneOrMore {run : List Char} (hne : run ≠ []) (hrun : ∀ c ∈ run, p c = true)
    (hrest : Stops p rest) : (oneOrMore p (run ++ rest)).head? = some rest := by
  induction run with
  | nil => exact absurd rfl hne
  | cons c run ih =>
    obtain ⟨hc, hrun⟩ := List.forall_mem_cons.1 hrun
    rw [List.cons_append, oneOrMore, if_pos hc]
    cases run with
    | nil => rw [List.nil_append, oneOrMore_of_stops hrest]; rfl
    | cons d run => rw [List.head?_append, ih (List.cons_ne_nil _ _) hrun]; rfl

theorem head?_next {middle : List Char} (ha : (a cs).head? = some middle)
    (hb : (b middle).head? = some rest) : (next a b cs).head? = some rest := by
  obtain ⟨others, hothers⟩ := List.head?_eq_some_iff.1 ha
  rw [next, hothers, List.flatMap_cons, List.head?_append, hb]
  rfl

theorem head?_either_left (h : (a cs).head? = some rest) : (either a b cs).head? = some rest := by
  rw [either, List.head?_append, h]
  rfl

theorem either_right (h : a cs = []) : either a b cs = b cs := by
  rw [either, h, List.nil_append]

/-- A character of a kind, or none, and then more characters of another. -/
theorem head?_perhaps_oneOrMore {run : List Char} (hrun : ∀ c ∈ run, p c = true)
    (hrest : Stops p rest) : (perhaps (oneOrMore p) (run ++ rest)).head? = some rest := by
  rw [perhaps]
  cases run with
  | nil => rw [List.nil_append, oneOrMore_of_stops hrest]; rfl
  | cons c run =>
    rw [List.head?_append, head?_oneOrMore (List.cons_ne_nil _ _) hrun hrest]
    rfl

end

/-! ## Words at the front of a text -/

section
variable {c : Char} {run rest : List Char}

theorem capitalsBeforeHump_cons (hc : c.isUpper = true) (cs : List Char) :
    capitalsBeforeHump (c :: cs) = capitalsBeforeHump cs ++ ahead hump cs := by
  rw [capitalsBeforeHump, next, oneOrMore, if_pos hc, List.flatMap_append, List.flatMap_singleton]
  rfl

theorem ahead_hump_cons (hc : c.isUpper = true) (cs : List Char) :
    ahead hump (c :: cs) = if startsSmall cs then [c :: cs] else [] := by
  rw [ahead, hump, next, one, if_pos hc, List.flatMap_singleton]
  cases cs with
  | nil => rfl
  | cons d ds =>
    rw [one, startsSmall]
    cases d.isLower <;> rfl

theorem ahead_hump_of_stops (h : Stops Char.isUpper rest) : ahead hump rest = [] := by
  rw [ahead, hump, next, one_of_stops h]
  rfl

/-- Of several capitals in a row, only what comes before the last can be before a hump. -/
theorem capitalsBeforeHump_run (hc : c.isUpper = true) (hrun : ∀ d ∈ run, d.isUpper = true)
    (hrest : Stops Char.isUpper rest) :
    capitalsBeforeHump (c :: (run ++ rest)) =
      if startsSmall rest then run.getLast?.toList.map (· :: rest) else [] := by
  induction run generalizing c with
  | nil =>
    rw [List.nil_append, capitalsBeforeHump_cons hc, ahead_hump_of_stops hrest, capitalsBeforeHump,
      next, oneOrMore_of_stops hrest]
    simp
  | cons d run ih =>
    obtain ⟨hd, hrun⟩ := List.forall_mem_cons.1 hrun
    rw [List.cons_append, capitalsBeforeHump_cons hc, ih hd hrun, ahead_hump_cons hd]
    cases run with
    | nil => simp
    | cons e run =>
      have hsmall : startsSmall (e :: run ++ rest) = false :=
        isLower_of_isUpper (hrun e List.mem_cons_self)
      rw [hsmall, if_neg Bool.false_ne_true, List.append_nil, List.getLast?_cons_cons]

theorem capitalsBeforeHump_of_stops (h : Stops Char.isUpper rest) : capitalsBeforeHump rest = [] := by
  rw [capitalsBeforeHump, next, oneOrMore_of_stops h]
  rfl

theorem smallWord_capital (hc : c.isUpper = true) (cs : List Char) :
    smallWord (c :: cs) = oneOrMore isSmallOrDigit cs := by
  have hstops : Stops isSmallOrDigit (c :: cs) := stops_cons (isSmallOrDigit_of_isUpper hc) _
  rw [smallWord, next, perhaps, one, if_pos hc]
  simp [oneOrMore_of_stops hstops]

theorem smallWord_of_stops {cs : List Char} (h : Stops Char.isUpper cs) :
    smallWord cs = oneOrMore isSmallOrDigit cs := by
  rw [smallWord, next, perhaps, one_of_stops h, List.nil_append, List.flatMap_singleton]

theorem capitalsAndDigits_of_stops (h : Stops Char.isUpper rest) : capitalsAndDigits rest = [] := by
  rw [capitalsAndDigits, next, oneOrMore_of_stops h]
  rfl

end

end Pattern

/-! ## The words of a scan -/

section
variable {c : Char} {humped : Bool} {word run rest : List Char}

theorem gap_step_ne_extend {q : Phase} : Phase.gap.step c humped ≠ .extend q := by
  unfold Phase.step
  split_ifs <;> simp [Phase.atCapital, Phase.atSmall, Phase.atDigit, Phase.atOtherDigit]

/-- A word ends where the rest starts as it does after no word. -/
theorem scan_of_ends {p : Phase} (hword : word ≠ [])
    (h : ∀ c cs, rest = c :: cs → p.step c (startsSmall cs) = Phase.gap.step c (startsSmall cs)) :
    scan p word rest = word :: split rest := by
  have hclose : close word = [word] := by
    cases word with
    | nil => exact absurd rfl hword
    | cons c cs => rfl
  cases rest with
  | nil => rw [scan, hclose]; rfl
  | cons c cs =>
    rw [scan, h c cs rfl, split, scan, hclose]
    cases hstep : Phase.gap.step c (startsSmall cs) with
    | separate => rfl
    | start q => rfl
    | extend q => exact absurd hstep gap_step_ne_extend

theorem scan_extends {q : Phase} (h : ∀ c ∈ run, ∀ humped, q.step c humped = .extend q) :
    scan q word (run ++ rest) = scan q (word ++ run) rest := by
  induction run generalizing word with
  | nil => rw [List.nil_append, List.append_nil]
  | cons c run ih =>
    obtain ⟨hc, hrun⟩ := List.forall_mem_cons.1 h
    rw [List.cons_append, scan, hc]
    simp only
    rw [ih hrun, List.append_assoc, List.singleton_append]

theorem small_step_of_isSmallOrDigit (h : isSmallOrDigit c = true) :
    Phase.small.step c humped = .extend .small := by
  have hupper := isUpper_of_isSmallOrDigit h
  rcases Bool.or_eq_true_iff.1 h with h | h
  · simp [Phase.step, hupper, h, Phase.atSmall]
  · cases hlower : c.isLower <;> simp [Phase.step, hupper, hlower, h, Phase.atSmall, Phase.atDigit]

theorem small_step_of_not_isSmallOrDigit (h : isSmallOrDigit c = false) :
    Phase.small.step c humped = Phase.gap.step c humped := by
  obtain ⟨hlower, hdigit⟩ := Bool.or_eq_false_iff.1 h
  simp [Phase.step, hlower, hdigit, Phase.atCapital, Phase.atOtherDigit]

theorem digits_step_of_isDecimal (h : Text.isDecimal c = true) :
    Phase.digits.step c humped = .extend .digits := by
  simp [Phase.step, isAlpha_of_isDecimal h, h, Phase.atDigit, Phase.atOtherDigit]

theorem digits_step_of_not_isDecimal (h : Text.isDecimal c = false) :
    Phase.digits.step c humped = Phase.gap.step c humped := by
  simp [Phase.step, isDigit_of_not_isDecimal h, h, Phase.atCapital, Phase.atSmall]

theorem startsSmall_capitals_append (hrun : ∀ d ∈ run, d.isUpper = true)
    (hsmall : startsSmall rest = false) : startsSmall (run ++ rest) = false := by
  cases run with
  | nil => exact hsmall
  | cons d run => exact isLower_of_isUpper (hrun d List.mem_cons_self)

/-- Capitals that no hump ends are one word, which goes on in the phase of its capitals. -/
theorem scan_capitals (hrun : ∀ d ∈ run, d.isUpper = true) (hsmall : startsSmall rest = false) :
    scan .capitals word (run ++ rest) = scan .capitals (word ++ run) rest := by
  induction run generalizing word with
  | nil => rw [List.nil_append, List.append_nil]
  | cons d run ih =>
    obtain ⟨hd, hrun⟩ := List.forall_mem_cons.1 hrun
    have hflat := startsSmall_capitals_append hrun hsmall
    rw [List.cons_append, scan, hflat, Phase.step, if_pos hd]
    simp only [Phase.atCapital, Bool.false_eq_true, if_false]
    rw [ih hrun, List.append_assoc, List.singleton_append]

/-- The phase of a word that is nothing but capitals. -/
def capitalPhase : List Char → Phase
  | [] => .capital
  | _ :: _ => .capitals

theorem split_capitals (hc : c.isUpper = true) (hrun : ∀ d ∈ run, d.isUpper = true)
    (hsmall : startsSmall rest = false) :
    split (c :: (run ++ rest)) = scan (capitalPhase run) (c :: run) rest := by
  rw [split, scan, Phase.step, if_pos hc]
  simp only [Phase.atCapital, close, List.isEmpty_nil, if_true, List.nil_append]
  cases run with
  | nil => rfl
  | cons d run =>
    obtain ⟨hd, hrun⟩ := List.forall_mem_cons.1 hrun
    have hflat := startsSmall_capitals_append hrun hsmall
    rw [List.cons_append, scan, hflat, Phase.step, if_pos hd]
    simp only [Phase.atCapital, Bool.false_eq_true, if_false]
    exact scan_capitals hrun hsmall

end

/-! ## The words as matches -/

open Pattern

/-- A word at the front of a text: the pattern takes it, and so does the scan. -/
structure Fronts (w rest : List Char) : Prop where
  ne_nil : w ≠ []
  matched : (Pattern.word (w ++ rest)).head? = some rest
  scanned : split (w ++ rest) = w :: split rest

section
variable {c : Char} {run rest : List Char}

theorem fronts_beforeHump {last : Char} (hc : c.isUpper = true) (hrun : ∀ d ∈ run, d.isUpper = true)
    (hlast : last.isUpper = true) (hstops : Stops Char.isUpper rest) (hsmall : startsSmall rest = true) :
    Fronts (c :: run) (last :: rest) := by
  have hflat : startsSmall (last :: rest) = false := isLower_of_isUpper hlast
  refine ⟨List.cons_ne_nil _ _, head?_either_left ?_, ?_⟩
  · have hall : ∀ d ∈ run ++ [last], d.isUpper = true :=
      List.forall_mem_append.2 ⟨hrun, List.forall_mem_singleton.2 hlast⟩
    have hmatch := capitalsBeforeHump_run hc hall hstops
    rw [List.append_assoc, List.singleton_append, if_pos hsmall, List.getLast?_concat] at hmatch
    rw [List.cons_append, hmatch]
    rfl
  · rw [List.cons_append, split_capitals hc hrun hflat]
    refine scan_of_ends (List.cons_ne_nil _ _) ?_
    rintro d ds ⟨⟩
    rw [hsmall, Phase.step, Phase.step, if_pos hlast, if_pos hlast]
    cases run <;> rfl

theorem fronts_capitalAndSmall (hc : c.isUpper = true) (hne : run ≠ [])
    (hrun : ∀ d ∈ run, isSmallOrDigit d = true) (hstops : Stops isSmallOrDigit rest) :
    Fronts (c :: run) rest := by
  obtain ⟨d, run, rfl⟩ := List.exists_cons_of_ne_nil hne
  obtain ⟨hd, hrest⟩ := List.forall_mem_cons.1 hrun
  have hupper := isUpper_of_isSmallOrDigit hd
  have hnone : capitalsBeforeHump (c :: (d :: run ++ rest)) = [] := by
    have hstops : Stops Char.isUpper (d :: run ++ rest) := stops_cons hupper _
    rw [capitalsBeforeHump_cons hc, capitalsBeforeHump_of_stops hstops, ahead_hump_of_stops hstops]
    rfl
  refine ⟨List.cons_ne_nil _ _, ?_, ?_⟩
  · rw [List.cons_append, Pattern.word, either_right hnone]
    refine head?_either_left ?_
    rw [smallWord_capital hc]
    exact head?_oneOrMore hne hrun hstops
  · have hfirst : Phase.capital.step d (startsSmall (run ++ rest)) = .extend .small := by
      rcases Bool.or_eq_true_iff.1 hd with hd | hd
      · simp [Phase.step, hupper, hd, Phase.atSmall]
      · cases hlower : d.isLower <;> simp [Phase.step, hupper, hlower, hd, Phase.atSmall, Phase.atDigit]
    rw [split, List.cons_append, scan, Phase.step, if_pos hc]
    simp only [Phase.atCapital, close, List.isEmpty_nil, if_true, List.nil_append, List.cons_append]
    rw [scan, hfirst]
    simp only [List.singleton_append]
    rw [scan_extends fun e he _ => small_step_of_isSmallOrDigit (hrest e he)]
    exact scan_of_ends (List.cons_ne_nil _ _) fun e es he =>
      small_step_of_not_isSmallOrDigit (hstops e (he ▸ rfl))

theorem fronts_capitalsAndDigits {digits : List Char} (hc : c.isUpper = true)
    (hrun : ∀ d ∈ run, d.isUpper = true) (hdigits : ∀ d ∈ digits, Text.isDecimal d = true)
    (hstops : Stops Text.isDecimal rest) (hcapital : Stops Char.isUpper (digits ++ rest))
    (hsmall : startsSmall (digits ++ rest) = false)
    (hmixed : run = [] → Stops isSmallOrDigit (digits ++ rest)) :
    Fronts (c :: (run ++ digits)) rest := by
  have hcapitals : ∀ d ∈ c :: run, d.isUpper = true := List.forall_mem_cons.2 ⟨hc, hrun⟩
  refine ⟨List.cons_ne_nil _ _, ?_, ?_⟩
  · have hnone : capitalsBeforeHump (c :: (run ++ (digits ++ rest))) = [] := by
      rw [capitalsBeforeHump_run hc hrun hcapital, hsmall, if_neg Bool.false_ne_true]
    have hnone' : smallWord (c :: (run ++ (digits ++ rest))) = [] := by
      rw [smallWord_capital hc]
      refine oneOrMore_of_stops fun d hd => ?_
      cases run with
      | nil => exact hmixed rfl d hd
      | cons e run =>
        cases hd
        exact isSmallOrDigit_of_isUpper (hrun _ List.mem_cons_self)
    rw [List.cons_append, List.append_assoc, Pattern.word, either_right hnone, either_right hnone']
    exact head?_either_left (head?_next (head?_oneOrMore (List.cons_ne_nil c run) hcapitals hcapital)
      (head?_perhaps_oneOrMore hdigits hstops))
  · rw [List.cons_append, List.append_assoc, split_capitals hc hrun hsmall]
    cases digits with
    | nil =>
      rw [List.append_nil, List.nil_append]
      refine scan_of_ends (List.cons_ne_nil _ _) ?_
      -- Neither a letter nor a digit is left: a capital would belong to the others, a small letter
      -- would make a hump of them.
      rintro d ds rfl
      have hd : isWordChar d = false := by
        rw [isWordChar, hcapital d rfl, hstops d rfl, show d.isLower = false from hsmall]
        rfl
      rw [step_eq_separate_iff.2 hd, step_eq_separate_iff.2 hd]
    | cons d digits =>
      obtain ⟨hd, hdigits⟩ := List.forall_mem_cons.1 hdigits
      have hfirst : (capitalPhase run).step d (startsSmall (digits ++ rest)) = .extend .digits := by
        have hupper : d.isUpper = false := hcapital d rfl
        have hlower : d.isLower = false := hsmall
        cases run with
        | nil =>
          have hdigit : d.isDigit = false := (Bool.or_eq_false_iff.1 (hmixed rfl d rfl)).2
          simp [Phase.step, hupper, hlower, hdigit, hd, capitalPhase, Phase.atOtherDigit]
        | cons e run =>
          simp [Phase.step, hupper, hlower, hd, capitalPhase, Phase.atDigit, Phase.atOtherDigit]
      rw [List.cons_append, scan, hfirst]
      simp only
      rw [scan_extends fun e he _ => digits_step_of_isDecimal (hdigits e he)]
      rw [show c :: run ++ [d] ++ digits = c :: (run ++ d :: digits) by simp]
      exact scan_of_ends (List.cons_ne_nil _ _) fun e es he =>
        digits_step_of_not_isDecimal (hstops e (he ▸ rfl))

theorem fronts_small (hc : isSmallOrDigit c = true) (hrun : ∀ d ∈ run, isSmallOrDigit d = true)
    (hstops : Stops isSmallOrDigit rest) : Fronts (c :: run) rest := by
  have hupper := isUpper_of_isSmallOrDigit hc
  have hcapital : Stops Char.isUpper (c :: (run ++ rest)) := stops_cons hupper _
  refine ⟨List.cons_ne_nil _ _, ?_, ?_⟩
  · rw [List.cons_append, Pattern.word, either_right (capitalsBeforeHump_of_stops hcapital)]
    refine head?_either_left ?_
    rw [smallWord_of_stops hcapital, ← List.cons_append]
    exact head?_oneOrMore (List.cons_ne_nil _ _) (List.forall_mem_cons.2 ⟨hc, hrun⟩) hstops
  · have hfirst : Phase.gap.step c (startsSmall (run ++ rest)) = .start .small := by
      rcases Bool.or_eq_true_iff.1 hc with hc | hc
      · simp [Phase.step, hupper, hc, Phase.atSmall]
      · cases hlower : c.isLower <;> simp [Phase.step, hupper, hlower, hc, Phase.atSmall, Phase.atDigit]
    rw [split, List.cons_append, scan, hfirst]
    simp only [close, List.isEmpty_nil, if_true, List.nil_append]
    rw [scan_extends fun e he _ => small_step_of_isSmallOrDigit (hrun e he)]
    exact scan_of_ends (List.cons_ne_nil _ _) fun e es he =>
      small_step_of_not_isSmallOrDigit (hstops e (he ▸ rfl))

theorem fronts_digits (hc : Text.isDecimal c = true) (hother : isSmallOrDigit c = false)
    (hrun : ∀ d ∈ run, Text.isDecimal d = true) (hstops : Stops Text.isDecimal rest) :
    Fronts (c :: run) rest := by
  have hupper := (isAlpha_of_isDecimal hc).1
  have hcapital : Stops Char.isUpper (c :: (run ++ rest)) := stops_cons hupper _
  have hmixed : Stops isSmallOrDigit (c :: (run ++ rest)) := stops_cons hother _
  obtain ⟨hlower, hdigit⟩ := Bool.or_eq_false_iff.1 hother
  refine ⟨List.cons_ne_nil _ _, ?_, ?_⟩
  · have hnone : smallWord (c :: (run ++ rest)) = [] := by
      rw [smallWord_of_stops hcapital, oneOrMore_of_stops hmixed]
    rw [List.cons_append, Pattern.word, either_right (capitalsBeforeHump_of_stops hcapital),
      either_right hnone, either_right (capitalsAndDigits_of_stops hcapital), ← List.cons_append]
    exact head?_oneOrMore (List.cons_ne_nil _ _) (List.forall_mem_cons.2 ⟨hc, hrun⟩) hstops
  · have hfirst : Phase.gap.step c (startsSmall (run ++ rest)) = .start .digits := by
      simp [Phase.step, hupper, hlower, hdigit, hc, Phase.atOtherDigit]
    rw [split, List.cons_append, scan, hfirst]
    simp only [close, List.isEmpty_nil, if_true, List.nil_append]
    rw [scan_extends fun e he _ => digits_step_of_isDecimal (hrun e he)]
    exact scan_of_ends (List.cons_ne_nil _ _) fun e es he =>
      digits_step_of_not_isDecimal (hstops e (he ▸ rfl))

/-- A capital starts a word, whatever follows. -/
theorem exists_fronts_of_isUpper (hc : c.isUpper = true) (cs : List Char) :
    ∃ w rest, c :: cs = w ++ rest ∧ Fronts w rest := by
  obtain ⟨run, rest, rfl, hrun, hstops⟩ := exists_run Char.isUpper cs
  cases hsmall : startsSmall rest with
  | true =>
    rcases List.eq_nil_or_concat run with rfl | ⟨init, last, rfl⟩
    · obtain ⟨small, rest, rfl, hsmalls, hstops'⟩ := exists_run isSmallOrDigit rest
      have hne : small ≠ [] := by
        rintro rfl
        cases rest with
        | nil => cases hsmall
        | cons d ds =>
          have hd : isSmallOrDigit d = true := by simp [isSmallOrDigit, show d.isLower = true from hsmall]
          cases hd.symm.trans (hstops' d rfl)
      exact ⟨_, _, rfl, fronts_capitalAndSmall hc hne hsmalls hstops'⟩
    · rw [List.concat_eq_append] at hrun
      obtain ⟨hinit, hlast⟩ := List.forall_mem_append.1 hrun
      refine ⟨c :: init, last :: rest, by simp, ?_⟩
      exact fronts_beforeHump hc hinit (hlast last List.mem_cons_self) hstops hsmall
  | false =>
    by_cases hmixed : run = [] → Stops isSmallOrDigit rest
    · obtain ⟨digits, rest, rfl, hdigits, hstops'⟩ := exists_run Text.isDecimal rest
      exact ⟨c :: (run ++ digits), rest, by simp,
        fronts_capitalsAndDigits hc hrun hdigits hstops' hstops hsmall hmixed⟩
    · obtain ⟨rfl, hstarts⟩ := Classical.not_imp.1 hmixed
      obtain ⟨small, rest, rfl, hsmalls, hstops'⟩ := exists_run isSmallOrDigit rest
      have hne : small ≠ [] := by
        rintro rfl
        exact hstarts hstops'
      exact ⟨_, _, rfl, fronts_capitalAndSmall hc hne hsmalls hstops'⟩

/-- Every word character starts a word. -/
theorem exists_fronts (hc : isWordChar c = true) (cs : List Char) :
    ∃ w rest, c :: cs = w ++ rest ∧ Fronts w rest := by
  cases hupper : c.isUpper with
  | true => exact exists_fronts_of_isUpper hupper cs
  | false =>
    cases hmixed : isSmallOrDigit c with
    | true =>
      obtain ⟨run, rest, rfl, hrun, hstops⟩ := exists_run isSmallOrDigit cs
      exact ⟨_, _, rfl, fronts_small hmixed hrun hstops⟩
    | false =>
      have hdecimal : Text.isDecimal c = true := by
        simpa [isWordChar, hupper, (Bool.or_eq_false_iff.1 hmixed).1] using hc
      obtain ⟨run, rest, rfl, hrun, hstops⟩ := exists_run Text.isDecimal cs
      exact ⟨_, _, rfl, fronts_digits hdecimal hmixed hrun hstops⟩

/-- No word starts with a separator. -/
theorem word_eq_nil (hc : isWordChar c = false) (cs : List Char) : Pattern.word (c :: cs) = [] := by
  simp only [isWordChar, Bool.or_eq_false_iff] at hc
  obtain ⟨⟨hupper, hlower⟩, hdecimal⟩ := hc
  have hmixed : isSmallOrDigit c = false := by
    rw [isSmallOrDigit, hlower, isDigit_of_not_isDecimal hdecimal, Bool.or_false]
  have hcapital : Stops Char.isUpper (c :: cs) := stops_cons hupper _
  have hnone : smallWord (c :: cs) = [] := by
    rw [smallWord_of_stops hcapital, oneOrMore_of_stops (stops_cons hmixed _)]
  rw [Pattern.word, either_right (capitalsBeforeHump_of_stops hcapital), either_right hnone,
    either_right (capitalsAndDigits_of_stops hcapital), oneOrMore_of_stops (stops_cons hdecimal _)]

end

theorem split_cons_of_separator {c : Char} (hc : isWordChar c = false) (cs : List Char) :
    split (c :: cs) = split cs := by
  rw [split, scan, step_eq_separate_iff.2 hc]
  rfl

/-- The words of a text are the matches of the pattern one after another. -/
theorem finds_split (cs : List Char) : Finds Pattern.word cs (split cs) := by
  induction hlength : cs.length using Nat.strong_induction_on generalizing cs with
  | _ n ih =>
    cases cs with
    | nil => exact .done
    | cons c cs =>
      cases hc : isWordChar c with
      | false =>
        rw [split_cons_of_separator hc]
        exact .skip (word_eq_nil hc cs) (ih cs.length (by simp [← hlength]) cs rfl)
      | true =>
        obtain ⟨w, rest, hcs, hfronts⟩ := exists_fronts hc cs
        have hshorter : rest.length < n := by
          have hpos := List.length_pos_of_ne_nil hfronts.ne_nil
          rw [← hlength, hcs, List.length_append]
          omega
        rw [hcs, hfronts.scanned]
        exact .found hfronts.ne_nil hfronts.matched (ih rest.length hshorter rest rfl)

end Words

end ClientForge
