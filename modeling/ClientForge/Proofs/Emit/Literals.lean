-- SUMMARY: What a Kotlin compiler reads in a string literal, and which texts it reads back from one.
import Mathlib.Tactic.IntervalCases
import ClientForge.Json.Reader
import ClientForge.Proofs.Emit.Places

/-!
# String literals

A literal is read up to its closing quote: a backslash starts an escape, a dollar sign a
template, and a line break may not stand in it (`readLiteral`). Strings hold UTF-16 units, so
this is what a literal is read as.

A client writes the texts of a document in literals of five spellings. A text is read back from
one exactly if it has no character that spoils the spelling (`readLiteral_written_iff`). Every
spelling has such characters: where a text stands as it is these are quotes, backslashes, dollar
signs and line breaks, and where it is written as in JSON the form feed is left, whose escape is
not one of Kotlin's.
-/

namespace ClientForge

namespace Emit.Kotlin

/-! ## Reading -/

/-- The UTF-16 units of a character. -/
def unitsOf (c : Char) : List Nat :=
  if c.toNat < 0x10000 then [c.toNat]
  else [0xD800 + (c.toNat - 0x10000) / 0x400, 0xDC00 + (c.toNat - 0x10000) % 0x400]

/-- A text as a string holds it. -/
def units (cs : List Char) : List Nat := cs.flatMap unitsOf

/-- What a character behind a backslash stands for. -/
def escaped? : Char → Option Nat
  | 't' => some 0x09
  | 'b' => some 0x08
  | 'n' => some 0x0A
  | 'r' => some 0x0D
  | '\'' => some 0x27
  | '"' => some 0x22
  | '\\' => some 0x5C
  | '$' => some 0x24
  | _ => none

/-- Where the reader of a literal is: between two characters, behind a backslash, or in a unit
given by its number, with some digits to come after the next one. -/
inductive Mode
  | plain
  | escape
  | unit (left value : Nat)
deriving DecidableEq, Repr

/-- Units put in front of those that are read. -/
def put (ns : List Nat) (read : Option (List Nat × List Char)) : Option (List Nat × List Char) :=
  read.map fun r => (ns ++ r.1, r.2)

/-- The units up to the closing quote, and what follows it. Every dollar sign that is not escaped
is taken to start a template, and a literal with a template in it stands for no text of its own. -/
def readFrom : Mode → List Char → Option (List Nat × List Char)
  | _, [] => none
  | .plain, c :: cs =>
    if c = '"' then some ([], cs)
    else if c = '\\' then readFrom .escape cs
    else if c = '$' ∨ c = '\n' ∨ c = '\r' then none
    else put (unitsOf c) (readFrom .plain cs)
  | .escape, c :: cs =>
    if c = 'u' then readFrom (.unit 3 0) cs
    else
      match escaped? c with
      | none => none
      | some n => put [n] (readFrom .plain cs)
  | .unit left value, c :: cs =>
    match Json.Reader.hexValue? c with
    | none => none
    | some d =>
      match left with
      | 0 => put [16 * value + d] (readFrom .plain cs)
      | k + 1 => readFrom (.unit k (16 * value + d)) cs

/-- A literal at the start of a text, and what follows it. -/
def readLiteral : List Char → Option (List Nat × List Char)
  | '"' :: cs => readFrom .plain cs
  | _ => none

/-! ## Spellings -/

/-- How a text is written in a literal: as it is, as it is in a block that is set in, with its
dollar signs escaped, as in JSON, or as in JSON with the dollar signs escaped after that. -/
inductive Spelling
  | bare
  | member
  | escaped
  | quoted
  | quotedEscaped
deriving DecidableEq, Repr

def Spelling.char : Spelling → Char → List Char
  | .bare, c | .member, c => [c]
  | .escaped, c => escapeDollars [c]
  | .quoted, c => Json.writtenChar .plain c
  | .quotedEscaped, c => escapeDollars (Json.writtenChar .plain c)

/-- A text of a document and how it is written. -/
structure Literal where
  spelling : Spelling
  source : List Char
deriving DecidableEq, Repr

/-- A literal before the block that it stands in is set in. -/
def Literal.laid (l : Literal) : List Char := '"' :: l.source.flatMap l.spelling.char ++ ['"']

/-- A literal as it is in the file. -/
def Literal.written (l : Literal) : List Char :=
  if l.spelling = .member then cutAtBreak l.laid else l.laid

/-- A unit that stands in no literal as it is. -/
def isMarkedUnit (n : Nat) : Bool := [0x22, 0x24, 0x5C, 0x0A, 0x0D].contains n

def isMarked (c : Char) : Bool := isMarkedUnit c.toNat

/-- The characters that a spelling does not keep. -/
def Spelling.spoils : Spelling → Char → Bool
  | .bare, c => isMarked c
  | .member, c => isMarked c || Text.isLineBreak c
  | .escaped, c => isMarked c && c != '$'
  | .quoted, c => c == '$' || c == '\x0c'
  | .quotedEscaped, c => c == '\x0c'

/-! ## What is read back -/

section
variable {c : Char} {cs rest : List Char} {s : Spelling}

theorem isMarked_iff : isMarked c = true ↔ c = '"' ∨ c = '$' ∨ c = '\\' ∨ c = '\n' ∨ c = '\r' := by
  simp only [isMarked, isMarkedUnit, List.contains_cons, List.contains_nil, Bool.or_false,
    Bool.or_eq_true, beq_iff_eq]
  rw [← Char.toNat_inj (d := '"'), ← Char.toNat_inj (d := '$'), ← Char.toNat_inj (d := '\\'),
    ← Char.toNat_inj (d := '\n'), ← Char.toNat_inj (d := '\r')]
  rfl

theorem readFrom_plain (h : isMarked c = false) :
    readFrom .plain (c :: rest) = put (unitsOf c) (readFrom .plain rest) := by
  have hmarks : ¬ (c = '"' ∨ c = '$' ∨ c = '\\' ∨ c = '\n' ∨ c = '\r') := by
    rw [← isMarked_iff, h]
    decide
  obtain ⟨hquote, hdollar, hbackslash, hfeed, hreturn⟩ := by simpa only [not_or] using hmarks
  rw [readFrom, if_neg hquote, if_neg hbackslash, if_neg (by simp [hdollar, hfeed, hreturn])]

/-- An escape in JSON of a control character is one in a literal. -/
theorem readFrom_unitEscape {n : Nat} (h : n < 0x20) :
    readFrom .plain (Json.unitEscape n ++ rest) = put [n] (readFrom .plain rest) := by
  interval_cases n <;> rfl

theorem unitsOf_of_lt (h : c.toNat < 0x10000) : unitsOf c = [c.toNat] := if_pos h

/-- A character that is written as in JSON is read back, the dollar sign and the form feed apart. -/
theorem readFrom_writtenChar (hdollar : c ≠ '$') (hfeed : c ≠ '\x0c') :
    readFrom .plain (Json.writtenChar .plain c ++ rest) = put (unitsOf c) (readFrom .plain rest) := by
  simp only [Json.writtenChar, eq_self, or_true, if_true]
  split_ifs with hmark hn hr ht hb hlow
  · rcases hmark with rfl | rfl <;> rfl
  · subst hn
    rfl
  · subst hr
    rfl
  · subst ht
    rfl
  · subst hb
    rfl
  · rw [readFrom_unitEscape hlow, unitsOf_of_lt (hlow.trans (by decide))]
  · refine readFrom_plain (Bool.eq_false_iff.2 fun h => ?_)
    obtain ⟨hquote, hbackslash⟩ := not_or.1 hmark
    simp_all [isMarked_iff]

theorem escapeDollars_eq_self (h : '$' ∉ cs) : escapeDollars cs = cs := by
  induction cs with
  | nil => rfl
  | cons c cs ih =>
    obtain ⟨hc, hcs⟩ := not_or.1 (List.mem_cons.not.1 h)
    rw [escapeDollars, List.flatMap_cons, if_neg (Ne.symm hc)]
    exact congrArg (c :: ·) (ih hcs)

theorem not_mem_unitEscape {n : Nat} (h : n < 0x20) : '$' ∉ Json.unitEscape n := by
  interval_cases n <;> decide

theorem escapeDollars_writtenChar (h : c ≠ '$') :
    escapeDollars (Json.writtenChar .plain c) = Json.writtenChar .plain c := by
  refine escapeDollars_eq_self ?_
  rw [Json.writtenChar]
  split_ifs with _ _ _ _ _ _ hlow
  all_goals first
    | exact not_mem_unitEscape hlow
    | simp_all [Ne.symm h]

/-- A character that does not spoil a spelling is read back from it. -/
theorem readFrom_char (h : s.spoils c = false) :
    readFrom .plain (s.char c ++ rest) = put (unitsOf c) (readFrom .plain rest) := by
  cases s with
  | bare => exact readFrom_plain h
  | member => exact readFrom_plain (Bool.or_eq_false_iff.1 h).1
  | escaped =>
    rw [Spelling.char]
    by_cases hdollar : c = '$'
    · subst hdollar
      rfl
    · rw [escapeDollars_eq_self (by simpa using Ne.symm hdollar)]
      exact readFrom_plain (by simpa [Spelling.spoils, hdollar] using h)
  | quoted =>
    obtain ⟨hdollar, hfeed⟩ := Bool.or_eq_false_iff.1 h
    exact readFrom_writtenChar (by simpa using hdollar) (by simpa using hfeed)
  | quotedEscaped =>
    have hfeed : c ≠ '\x0c' := by simpa [Spelling.spoils] using h
    rw [Spelling.char]
    by_cases hdollar : c = '$'
    · subst hdollar
      rfl
    · rw [escapeDollars_writtenChar hdollar]
      exact readFrom_writtenChar hdollar hfeed

theorem put_put (ns ms : List Nat) (read : Option (List Nat × List Char)) :
    put ns (put ms read) = put (ns ++ ms) read := by
  cases read with
  | none => rfl
  | some r => simp [put]

theorem readFrom_chars (h : ∀ c ∈ cs, s.spoils c = false) :
    readFrom .plain (cs.flatMap s.char ++ rest) = put (units cs) (readFrom .plain rest) := by
  induction cs with
  | nil => cases hrest : readFrom .plain rest <;> simp [put, units, hrest]
  | cons c cs ih =>
    obtain ⟨hc, hcs⟩ := List.forall_mem_cons.1 h
    rw [List.flatMap_cons, List.append_assoc, readFrom_char hc, ih hcs, put_put]
    rfl

/-! ## What is not -/

theorem put_eq_some {ns r : List Nat} {read : Option (List Nat × List Char)} :
    put ns read = some (r, rest) ↔ ∃ r', read = some (r', rest) ∧ ns ++ r' = r := by
  simp [put]

theorem countP_unitsOf : (unitsOf c).countP isMarkedUnit = if isMarked c then 1 else 0 := by
  rw [unitsOf]
  split
  · rw [List.countP_singleton]
    rfl
  · rename_i hlarge
    have hunmarked (n : Nat) (h : 0xD800 ≤ n) : isMarkedUnit n = false := by
      simp only [isMarkedUnit, List.contains_cons, List.contains_nil, Bool.or_false,
        Bool.or_eq_false_iff, beq_eq_false_iff_ne]
      omega
    have hc : isMarked c = false := hunmarked _ (by omega)
    rw [hc, List.countP_cons, List.countP_singleton, hunmarked _ (by omega),
      hunmarked _ (by omega)]
    rfl

theorem countP_units : (units cs).countP isMarkedUnit = cs.countP isMarked := by
  induction cs with
  | nil => rfl
  | cons c cs ih =>
    rw [units, List.flatMap_cons, List.countP_append, countP_unitsOf, List.countP_cons, Nat.add_comm]
    exact congrArg (· + _) ih

theorem length_units_cons :
    (units (c :: cs)).length = (unitsOf c).length + (units cs).length := by
  rw [units, List.flatMap_cons, List.length_append]
  rfl

theorem one_le_length_unitsOf : 1 ≤ (unitsOf c).length := by
  rw [unitsOf]
  split <;> simp

/-- How many units a literal needs at least for what is read in it. -/
def leastLength (ns : List Nat) : Nat := ns.length + ns.countP isMarkedUnit

theorem leastLength_append (ns ms : List Nat) :
    leastLength (ns ++ ms) = leastLength ns + leastLength ms := by
  rw [leastLength, List.length_append, List.countP_append, leastLength, leastLength]
  omega

theorem leastLength_cons_le (n : Nat) (ns : List Nat) :
    leastLength (n :: ns) ≤ leastLength ns + 2 := by
  have hone : leastLength [n] ≤ 2 := by
    rw [leastLength, List.countP_singleton]
    split <;> simp
  have := leastLength_append [n] ns
  rw [List.singleton_append] at this
  omega

theorem leastLength_unitsOf (h : isMarked c = false) :
    leastLength (unitsOf c) = (unitsOf c).length := by
  rw [leastLength, countP_unitsOf, h]
  rfl

/-- How much of a character a reader has behind it before it starts. -/
def Mode.lead : Mode → Nat
  | .plain => 0
  | _ => 1

/-- No literal is shorter than what is read in it needs. -/
theorem leastLength_le_of_readFrom {m : Mode} {t : List Char} {r : List Nat}
    (h : readFrom m t = some (r, rest)) :
    leastLength r + 1 + (units rest).length ≤ (units t).length + m.lead := by
  fun_induction readFrom m t generalizing r with
  | case1 | case4 | case7 | case9 => cases h
  | case2 cs =>
    cases h
    rw [length_units_cons]
    simp [leastLength, unitsOf]
  | case3 cs _ ih =>
    have hcs := ih h
    rw [length_units_cons]
    simpa [Mode.lead, unitsOf, Nat.add_comm] using hcs
  | case5 c cs hquote hbackslash hother ih =>
    obtain ⟨r, hr, rfl⟩ := put_eq_some.1 h
    have hc : isMarked c = false := by
      refine Bool.eq_false_iff.2 fun hmarked => ?_
      simp_all [isMarked_iff]
    have hcs := ih hr
    rw [leastLength_append, leastLength_unitsOf hc, length_units_cons]
    omega
  | case6 cs ih =>
    have hcs := ih h
    rw [length_units_cons]
    simp only [Mode.lead] at hcs ⊢
    omega
  | case8 c cs _ n _ ih =>
    obtain ⟨r, hr, rfl⟩ := put_eq_some.1 h
    have hcs := ih hr
    have hn := leastLength_cons_le n r
    have hc := one_le_length_unitsOf (c := c)
    rw [List.singleton_append, length_units_cons]
    simp only [Mode.lead] at hcs ⊢
    omega
  | case10 value c cs d _ ih =>
    obtain ⟨r, hr, rfl⟩ := put_eq_some.1 h
    have hcs := ih hr
    have hn := leastLength_cons_le (16 * value + d) r
    have hc := one_le_length_unitsOf (c := c)
    rw [List.singleton_append, length_units_cons]
    simp only [Mode.lead] at hcs ⊢
    omega
  | case11 value c cs d _ k ih =>
    have hcs := ih h
    rw [length_units_cons]
    simp only [Mode.lead] at hcs ⊢
    omega

/-- In a literal shorter than a text needs, something else is read. -/
theorem length_le_of_readFrom {t : List Char} (h : readFrom .plain t = some (units cs, rest)) :
    (units cs).length + cs.countP isMarked + 1 + (units rest).length ≤ (units t).length := by
  have hleast := leastLength_le_of_readFrom h
  rwa [leastLength, countP_units] at hleast

theorem units_append (as bs : List Char) : units (as ++ bs) = units as ++ units bs :=
  List.flatMap_append

theorem length_units_close : (units ('"' :: rest)).length = 1 + (units rest).length :=
  length_units_cons

theorem countP_isMarked_le {t : List Char} {n : Nat}
    (h : readFrom .plain (t ++ '"' :: rest) = some (units cs, rest))
    (ht : (units t).length = (units cs).length + n) : cs.countP isMarked ≤ n := by
  have hleast := length_le_of_readFrom h
  rw [units_append, List.length_append, length_units_close] at hleast
  omega

theorem flatMap_char_bare (cs : List Char) : cs.flatMap Spelling.bare.char = cs :=
  List.flatMap_singleton' cs

theorem flatMap_char_member (cs : List Char) : cs.flatMap Spelling.member.char = cs :=
  List.flatMap_singleton' cs

theorem flatMap_char_escaped (cs : List Char) :
    cs.flatMap Spelling.escaped.char = escapeDollars cs := by
  conv_rhs => rw [← List.flatMap_singleton' cs, escapeDollars, List.flatMap_assoc]
  rfl

theorem flatMap_char_quotedEscaped (cs : List Char) :
    cs.flatMap Spelling.quotedEscaped.char = escapeDollars (cs.flatMap Spelling.quoted.char) := by
  rw [escapeDollars, List.flatMap_assoc]
  rfl

theorem length_units_escaped (cs : List Char) :
    (units (cs.flatMap Spelling.escaped.char)).length =
      (units cs).length + cs.countP (· == '$') := by
  induction cs with
  | nil => rfl
  | cons c cs ih =>
    rw [List.flatMap_cons, units_append, List.length_append, ih, length_units_cons,
      List.countP_cons, Spelling.char]
    by_cases hc : c = '$'
    · subst hc
      simp [escapeDollars, units, unitsOf]
      omega
    · simp [escapeDollars, hc, units]
      omega

theorem countP_isMarked (cs : List Char) :
    cs.countP isMarked = cs.countP Spelling.escaped.spoils + cs.countP (· == '$') := by
  induction cs with
  | nil => rfl
  | cons c cs ih =>
    rw [List.countP_cons, List.countP_cons, List.countP_cons, ih]
    by_cases hc : c = '$'
    · subst hc
      simp [Spelling.spoils, isMarked, isMarkedUnit]
      omega
    · simp [Spelling.spoils, hc]
      omega

/-- A text as it stands or with its dollar signs escaped has no other mark in it if it is read
back. -/
theorem not_spoils_bare (h : readFrom .plain (cs ++ '"' :: rest) = some (units cs, rest)) :
    ∀ c ∈ cs, isMarked c = false := by
  have hnone := countP_isMarked_le h (Nat.add_zero _).symm
  simpa [List.countP_eq_zero] using hnone

theorem not_spoils_escaped
    (h : readFrom .plain (cs.flatMap Spelling.escaped.char ++ '"' :: rest) = some (units cs, rest)) :
    ∀ c ∈ cs, Spelling.escaped.spoils c = false := by
  have hdollars := countP_isMarked_le h (length_units_escaped cs)
  have hnone : cs.countP Spelling.escaped.spoils = 0 := by
    have := countP_isMarked cs
    omega
  simpa [List.countP_eq_zero] using hnone

theorem cutAtBreak_append (h : ∃ c ∈ cs, Text.isLineBreak c = true) (after : List Char) :
    cutAtBreak (cs ++ after) = cutAtBreak cs := by
  induction cs with
  | nil => simp at h
  | cons c cs ih =>
    rw [List.cons_append, cutAtBreak, cutAtBreak]
    split
    · rfl
    · rename_i hc
      obtain ⟨d, hd, hbreak⟩ := h
      rcases List.mem_cons.1 hd with rfl | hd
      · exact absurd hbreak hc
      · rw [ih ⟨d, hd, hbreak⟩]

theorem length_units_cutAtBreak_le (cs : List Char) :
    (units (cutAtBreak cs)).length ≤ (units cs).length := by
  induction cs with
  | nil => exact le_rfl
  | cons c cs ih =>
    rw [cutAtBreak, length_units_cons]
    split
    · have hc := one_le_length_unitsOf (c := c)
      have hfeed : (units ['\n']).length = 1 := rfl
      omega
    · rw [length_units_cons]
      omega

/-- A text that is cut off is not read back: its closing quote is missing. -/
theorem readFrom_cut_ne (h : ∃ c ∈ cs, Text.isLineBreak c = true) :
    readFrom .plain (cutAtBreak (cs ++ ['"']) ++ rest) ≠ some (units cs, rest) := by
  intro hread
  have hleast := length_le_of_readFrom hread
  have hcut := length_units_cutAtBreak_le cs
  rw [cutAtBreak_append h, units_append, List.length_append] at hleast
  omega

/-- What JSON leaves as it is or writes in an escape of its own is not read at all. -/
theorem readFrom_spoilt (hs : s = .quoted ∨ s = .quotedEscaped)
    (h : ∃ c ∈ cs, s.spoils c = true) : readFrom .plain (cs.flatMap s.char ++ rest) = none := by
  induction cs with
  | nil => simp at h
  | cons c cs ih =>
    rw [List.flatMap_cons, List.append_assoc]
    cases hc : s.spoils c with
    | false =>
      have hrest : ∃ d ∈ cs, s.spoils d = true := by
        obtain ⟨d, hd, hspoils⟩ := h
        rcases List.mem_cons.1 hd with rfl | hd
        · rw [hc] at hspoils
          cases hspoils
        · exact ⟨d, hd, hspoils⟩
      rw [readFrom_char hc, ih hrest]
      rfl
    | true =>
      rcases hs with rfl | rfl
      · rcases Bool.or_eq_true_iff.1 hc with hdollar | hfeed
        · rw [beq_iff_eq.1 hdollar]
          rfl
        · rw [beq_iff_eq.1 hfeed]
          rfl
      · rw [beq_iff_eq.1 hc]
        rfl

end

/-! ## Which texts are kept -/

variable {l : Literal}

theorem readLiteral_laid (after : List Char) :
    readLiteral (l.laid ++ after) =
      readFrom .plain (l.source.flatMap l.spelling.char ++ '"' :: after) := by
  rw [Literal.laid, List.append_assoc]
  rfl

theorem readLiteral_laid_of_kept (h : ∀ c ∈ l.source, l.spelling.spoils c = false)
    (after : List Char) : readLiteral (l.laid ++ after) = some (units l.source, after) := by
  rw [readLiteral_laid, readFrom_chars h]
  simp [readFrom, put]

/-- A text without line breaks is not cut. -/
theorem written_eq_laid (h : l.spelling = .member → ∀ c ∈ l.source, Text.isLineBreak c = false) :
    l.written = l.laid := by
  rw [Literal.written]
  split
  · rename_i hmember
    refine cutAtBreak_eq_self fun c hc => ?_
    rw [Literal.laid, hmember, flatMap_char_member] at hc
    simp only [List.cons_append, List.mem_cons, List.mem_append, List.not_mem_nil, or_false] at hc
    rcases hc with rfl | hc | rfl
    · decide
    · exact h hmember c hc
    · decide
  · rfl

/-- A text that is cut off at a line break is not read back. -/
theorem readLiteral_member_ne {cs : List Char} (h : ∃ c ∈ cs, Text.isLineBreak c = true)
    (after : List Char) :
    readLiteral (Literal.written ⟨.member, cs⟩ ++ after) ≠ some (units cs, after) := by
  have hwritten : Literal.written ⟨.member, cs⟩ = '"' :: cutAtBreak (cs ++ ['"']) := by
    rw [Literal.written, if_pos rfl, Literal.laid, flatMap_char_member, List.cons_append, cutAtBreak,
      if_neg (by decide)]
  rw [hwritten]
  exact readFrom_cut_ne h

/-- A text is read back from a literal exactly if no character of it spoils the spelling. -/
theorem readLiteral_written_iff (l : Literal) (after : List Char) :
    readLiteral (l.written ++ after) = some (units l.source, after) ↔
      ∀ c ∈ l.source, l.spelling.spoils c = false := by
  constructor
  · intro h
    obtain ⟨s, cs⟩ := l
    cases s with
    | bare =>
      rw [written_eq_laid (by simp), readLiteral_laid, flatMap_char_bare] at h
      exact not_spoils_bare h
    | member =>
      by_cases hbreak : ∃ c ∈ cs, Text.isLineBreak c = true
      · exact absurd h (readLiteral_member_ne hbreak after)
      · have hplain : ∀ c ∈ cs, Text.isLineBreak c = false := by simpa using hbreak
        rw [written_eq_laid fun _ => hplain, readLiteral_laid, flatMap_char_member] at h
        intro c hc
        exact Bool.or_eq_false_iff.2 ⟨not_spoils_bare h c hc, hplain c hc⟩
    | escaped =>
      rw [written_eq_laid (by simp), readLiteral_laid] at h
      exact not_spoils_escaped h
    | quoted | quotedEscaped =>
      rw [written_eq_laid (by simp), readLiteral_laid] at h
      by_contra hspoilt
      rw [readFrom_spoilt (by simp) (by simpa using hspoilt)] at h
      cases h
  · intro h
    rw [written_eq_laid, readLiteral_laid_of_kept h]
    intro hmember c hc
    have hkept := h c hc
    rw [hmember] at hkept
    exact (Bool.or_eq_false_iff.1 hkept).2

example : readLiteral "\"\\$ref\")".toList = some (units "$ref".toList, [')']) := rfl

example : readLiteral "\"$ref\")".toList = none := rfl

end Emit.Kotlin

end ClientForge
