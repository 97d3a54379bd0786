-- SUMMARY: References name exactly the paths of a document, in escaped keys and decimal indices.
import Mathlib.Algebra.Group.Nat.Defs
import ClientForge.Proofs.Document.Pointers
import ClientForge.Proofs.Schema.Resolution

/-!
# Paths

A path leads down from the root of a document, one step at a time: to the member of an object
under a key, or to the item of an array at an index (`Pointer.at?`). It is written as a
reference by putting a slash between the steps, with the tildes and the slashes of each step
escaped (`Pointer.written`). Escaping is undone step by step (`unescape_escape`) and leaves no
slash in a step (`slash_not_mem_escape`), so the reference to a path leads where the path does.
What a node is, and not how a step looks, decides whether the step is a key or an index
(`step_eq_ok_iff`), so every reference that has a target calls the steps of a path that leads
there (`target_eq_ok_iff`).
-/

namespace ClientForge

open Outcome

namespace Pointer

/-! ## Paths and how they are written -/

/-- One step down: the key of a member or the index of an item. -/
inductive Step
  | member (key : String)
  | item (index : Nat)
deriving DecidableEq, Repr

/-- The value one step below a node. -/
def below? : Json → Step → Option Json
  | .obj members, .member key => Members.get? members key
  | .arr items, .item index => items[index]?
  | _, _ => none

/-- The value to which a path leads from a node. -/
def at? (node : Json) (path : List Step) : Option Json := path.foldlM below? node

/-- A key as it is, an index in decimal. -/
def Step.text : Step → List Char
  | .member key => key.toList
  | .item index => Nat.toDigits 10 index

/-- A text with another in place of every occurrence of a character. -/
def replaceChar (old : Char) (new cs : List Char) : List Char :=
  cs.flatMap fun c => if c = old then new else [c]

/-- A text with a character in place of every occurrence of a pair. -/
def replacePair (first second new : Char) : List Char → List Char
  | c :: d :: cs =>
    if c = first ∧ d = second then new :: replacePair first second new cs
    else c :: replacePair first second new (d :: cs)
  | cs => cs

/-- The tildes are escaped first, so that those of escaped slashes stay. -/
def escape (cs : List Char) : List Char :=
  replaceChar '/' ['~', '1'] (replaceChar '~' ['~', '0'] cs)

/-- The slashes come back first, so that no tilde that comes back is taken for an escape. -/
def unescaped (cs : List Char) : List Char :=
  replacePair '~' '0' '~' (replacePair '~' '1' '/' cs)

/-- The reference to a path. -/
def written (path : List Step) : String :=
  String.ofList ('#' :: '/' :: ['/'].intercalate (path.map fun s => escape s.text))

/-- What a step is called in a reference: a key by itself, an index by any decimal numeral that
is read as it. -/
def Step.Called : Step → List Char → Prop
  | .member key, name => key.toList = name
  | .item index, name => Text.number? name = some index

/-! ## Escaping -/

theorem escape_cons (c : Char) (cs : List Char) :
    escape (c :: cs) =
      (if c = '~' then ['~', '0'] else if c = '/' then ['~', '1'] else [c]) ++ escape cs := by
  simp only [escape, replaceChar, List.flatMap_cons, List.flatMap_append]
  congr 1
  split
  · rfl
  · simp

/-- Escaping is undone. -/
theorem unescape_escape (cs : List Char) : unescape (escape cs) = cs := by
  induction cs with
  | nil => rfl
  | cons c cs ih =>
    rw [escape_cons]
    split
    · rename_i htilde
      simp [unescape, ih, htilde]
    · split
      · rename_i hslash
        simp [unescape, ih, hslash]
      · rename_i htilde _
        rw [List.singleton_append, unescape_cons htilde, ih]

theorem slash_not_mem_escape (cs : List Char) : '/' ∉ escape cs := by
  induction cs with
  | nil => simp [escape, replaceChar]
  | cons c cs ih =>
    rw [escape_cons, List.mem_append, not_or]
    refine ⟨?_, ih⟩
    split
    · decide
    · split
      · decide
      · rename_i hslash
        simpa [eq_comm] using hslash

theorem replacePair_cons {first second new c : Char} {cs : List Char}
    (h : c = first → cs.head? ≠ some second) :
    replacePair first second new (c :: cs) = c :: replacePair first second new cs := by
  cases cs with
  | nil => simp [replacePair]
  | cons d cs =>
    rw [replacePair, if_neg]
    rintro ⟨hc, hd⟩
    exact h hc (congrArg some hd)

/-- Replacing pairs by a slash puts no other character in front. -/
theorem head?_of_head?_replacePair {first second d : Char} {cs : List Char}
    (h : (replacePair first second '/' cs).head? = some d) (hd : d ≠ '/') :
    cs.head? = some d := by
  fun_cases replacePair first second '/' cs with
  | case1 c _ cs hpair =>
    rw [replacePair, if_pos hpair] at h
    exact absurd (Option.some.inj h).symm hd
  | case2 c _ cs hpair =>
    rw [replacePair, if_neg hpair] at h
    exact h
  | case3 cs hshort =>
    rw [replacePair] at h
    · exact h
    · exact hshort

/-- Reading the escapes of a step from left to right is the same as bringing back first all
slashes and then all tildes. -/
theorem unescaped_eq (cs : List Char) : unescaped cs = unescape cs := by
  fun_induction unescape cs with
  | case1 cs ih =>
    have hslash : replacePair '~' '1' '/' ('~' :: '1' :: cs) =
        '/' :: replacePair '~' '1' '/' cs := by
      rw [replacePair, if_pos ⟨rfl, rfl⟩]
    rw [← ih, unescaped, hslash, replacePair_cons (by simp), unescaped]
  | case2 cs ih =>
    have hleft : replacePair '~' '1' '/' ('~' :: '0' :: cs) =
        '~' :: '0' :: replacePair '~' '1' '/' cs := by
      rw [replacePair, if_neg (by decide), replacePair_cons (by simp)]
    rw [← ih, unescaped, hleft, replacePair, if_pos ⟨rfl, rfl⟩, unescaped]
  | case3 c cs hslash htilde ih =>
    have hone : c = '~' → cs.head? ≠ some '1' := by
      rintro rfl hhead
      obtain ⟨rest, rfl⟩ := List.head?_eq_some_iff.1 hhead
      exact hslash rest rfl rfl
    have hzero : c = '~' → cs.head? ≠ some '0' := by
      rintro rfl hhead
      obtain ⟨rest, rfl⟩ := List.head?_eq_some_iff.1 hhead
      exact htilde rest rfl rfl
    have hlater : c = '~' → (replacePair '~' '1' '/' cs).head? ≠ some '0' :=
      fun hc hhead => hzero hc (head?_of_head?_replacePair hhead (by decide))
    rw [← ih, unescaped, replacePair_cons hone, replacePair_cons hlater, unescaped]
  | case4 => rfl

end Pointer

/-! ## Numerals -/

namespace Text

theorem foldl_digits (cs : List Char) (hdigits : ∀ c ∈ cs, c.isDigit = true) (start : Nat) :
    cs.foldl (fun n c => do return 10 * (← n) + (← digitValue? c)) (some start) =
      some (Nat.ofDigitChars 10 cs start) := by
  induction cs generalizing start with
  | nil => rfl
  | cons c cs ih =>
    rw [List.forall_mem_cons] at hdigits
    rw [List.foldl_cons, digitValue?_of_isDigit hdigits.1, Nat.ofDigitChars_cons]
    exact ih hdigits.2 _

/-- A number is read back from its decimal numeral. -/
theorem number?_toDigits {n : Nat} (h : n < 10 ^ mostDigits) :
    number? (Nat.toDigits 10 n) = some n := by
  have hlength : (Nat.toDigits 10 n).length ≤ mostDigits :=
    (Nat.length_toDigits_le_iff (by decide) (by decide)).2 h
  have hdigits : ∀ c ∈ Nat.toDigits 10 n, c.isDigit = true :=
    fun c hc => Nat.isDigit_of_mem_toDigits (by decide) (by decide) hc
  rw [number?, if_neg (by simp [hlength]), foldl_digits _ hdigits,
    Nat.ofDigitChars_toDigits (by decide) (by decide)]

theorem foldl_none (cs : List Char) :
    cs.foldl (fun n c => do return 10 * (← n) + (← digitValue? c)) none = none := by
  induction cs with
  | nil => rfl
  | cons c cs ih => exact ih

theorem isDecimal_of_foldl {cs : List Char} {start : Option Nat} {n : Nat}
    (h : cs.foldl (fun n c => do return 10 * (← n) + (← digitValue? c)) start = some n) :
    ∀ c ∈ cs, isDecimal c = true := by
  induction cs generalizing start with
  | nil => simp
  | cons c cs ih =>
    rw [List.foldl_cons] at h
    refine List.forall_mem_cons.2 ⟨?_, ih h⟩
    cases hc : digitValue? c with
    | some d => simp [isDecimal, hc]
    | none =>
      have hstop : (do return 10 * (← start) + (← (none : Option Nat))) = none := by
        cases start <;> rfl
      rw [hc, hstop, foldl_none] at h
      cases h

theorem isDigitLike_of_number? {cs : List Char} {n : Nat} (h : number? cs = some n) :
    cs ≠ [] ∧ ∀ c ∈ cs, isDigitLike c = true := by
  unfold number? at h
  split at h
  · cases h
  · rename_i hsize
    refine ⟨fun hnil => hsize (.inl (by simp [hnil])), fun c hc => ?_⟩
    simp [isDigitLike, isDecimal_of_foldl h c hc]

end Text

namespace Pointer

/-! ## Following a path -/

theorem at?_cons (node : Json) (s : Step) (path : List Step) :
    at? node (s :: path) = (below? node s).bind (at? · path) := by
  rw [at?, List.foldlM_cons]
  rfl

theorem exists_called_of_step {ref node v : Json} {name : List Char}
    (h : step ref node name = .ok v) : ∃ s : Step, s.Called name ∧ below? node s = some v := by
  cases node with
  | obj members =>
    simp only [step] at h
    split at h
    · rename_i w hw
      cases h
      exact ⟨.member (String.ofList name), String.toList_ofList, hw⟩
    · cases h
  | arr items =>
    simp only [step] at h
    split at h
    · cases h
    · split at h
      · cases h
      · rename_i index hindex
        split at h
        · rename_i w hw
          cases h
          exact ⟨.item index, hindex, hw⟩
        · cases h
  | _ => cases h

theorem step_of_called {ref node v : Json} {name : List Char} {s : Step} (hcalled : s.Called name)
    (hbelow : below? node s = some v) : step ref node name = .ok v := by
  cases s with
  | member key =>
    cases node with
    | obj members =>
      have hheld : Members.get? members (.text key) = some v := hbelow
      subst hcalled
      simp only [step, String.ofList_toList]
      rw [hheld]
    | _ => cases hbelow
  | item index =>
    cases node with
    | arr items =>
      have hnumber : Text.number? name = some index := hcalled
      have hitem : items[index]? = some v := hbelow
      obtain ⟨hne, hdigits⟩ := Text.isDigitLike_of_number? hnumber
      have hread : ¬ (name.isEmpty ∨ ¬ name.all Text.isDigitLike) := by
        simpa [hne] using hdigits
      simp only [step]
      rw [if_neg hread, hnumber]
      simp only [hitem]
    | _ => cases hbelow

/-- A name leads one step down if it is what a step is called that can be taken. -/
theorem step_eq_ok_iff {ref node v : Json} {name : List Char} :
    step ref node name = .ok v ↔ ∃ s : Step, s.Called name ∧ below? node s = some v :=
  ⟨exists_called_of_step, fun ⟨_, hcalled, hbelow⟩ => step_of_called hcalled hbelow⟩

theorem walk_eq_ok_iff {ref node v : Json} {names : List (List Char)} :
    walk ref node names = .ok v ↔
      ∃ path, List.Forall₂ Step.Called path names ∧ at? node path = some v := by
  induction names generalizing node with
  | nil =>
    constructor
    · intro h
      cases h
      exact ⟨[], .nil, rfl⟩
    · rintro ⟨_, ⟨⟩, hat⟩
      cases hat
      rfl
  | cons name names ih =>
    rw [walk, List.foldlM_cons, bind_eq_ok]
    constructor
    · rintro ⟨w, hw, hrest⟩
      obtain ⟨s, hcalled, hbelow⟩ := step_eq_ok_iff.1 hw
      obtain ⟨path, hnames, hat⟩ := ih.1 hrest
      exact ⟨s :: path, .cons hcalled hnames, by rw [at?_cons, hbelow]; exact hat⟩
    · rintro ⟨_, hnames, hat⟩
      cases hnames with
      | cons hcalled hnames =>
        rw [at?_cons, Option.bind_eq_some_iff] at hat
        obtain ⟨w, hbelow, hat⟩ := hat
        exact ⟨w, step_eq_ok_iff.2 ⟨_, hcalled, hbelow⟩, ih.2 ⟨_, hnames, hat⟩⟩

/-- A reference has the target to which the path leads whose steps are called by its names. -/
theorem target_eq_ok_of_steps {document node : Members} {ref : String} {names : List (List Char)}
    (hsteps : steps? ref.toList = some names) :
    target document (.str ref) = .ok node ↔
      ∃ path, List.Forall₂ Step.Called path names ∧
        at? (.obj document) path = some (.obj node) := by
  have hasTarget : ∀ v, asTarget ref v = .ok node ↔ v = .obj node := by
    intro v
    cases v <;> simp [asTarget]
  rw [target_eq_of_steps hsteps, bind_eq_ok]
  simp only [hasTarget, exists_eq_right, walk_eq_ok_iff]

/-! ## Indices -/

theorem weight_below? {node v : Json} {s : Step} (h : below? node s = some v) :
    v.weight < node.weight ∧ ∀ index, s = .item index → index < node.weight := by
  cases s with
  | member key =>
    cases node with
    | obj members =>
      obtain ⟨m, hm, -, rfl⟩ := Members.mem_of_get? h
      have hle := Members.weight_le_of_mem hm
      rw [Json.weight]
      exact ⟨by omega, by simp⟩
    | _ => cases h
  | item index =>
    cases node with
    | arr items =>
      have hle := Json.index_add_weight_le h
      rw [Json.weight]
      exact ⟨by omega, by rintro _ ⟨⟩; omega⟩
    | _ => cases h

/-- A node holds at least as many values as the indices say that lead down from it. -/
theorem index_lt_weight {node v : Json} {path : List Step} (h : at? node path = some v)
    {index : Nat} (hindex : .item index ∈ path) : index < node.weight := by
  induction path generalizing node with
  | nil => cases hindex
  | cons s path ih =>
    rw [at?_cons, Option.bind_eq_some_iff] at h
    obtain ⟨w, hbelow, hat⟩ := h
    have hweight := weight_below? hbelow
    rcases List.mem_cons.1 hindex with hs | hindex
    · exact hweight.2 index hs.symm
    · exact Nat.lt_trans (ih hat hindex) hweight.1

/-! ## References to paths -/

theorem steps?_written {path : List Step} (hpath : path ≠ []) :
    steps? (written path).toList = some (path.map Step.text) := by
  have hplain : ∀ l ∈ path.map fun s => escape s.text, '/' ∉ l := by
    intro l hl
    obtain ⟨s, -, rfl⟩ := List.mem_map.1 hl
    exact slash_not_mem_escape s.text
  have hparts : Text.parts '/' (['/'].intercalate (path.map fun s => escape s.text)) =
      path.map fun s => escape s.text := by
    rw [Text.parts_eq_splitOn, List.splitOn_intercalate '/' hplain (by simpa using hpath)]
  rw [written, String.toList_ofList, steps?, hparts, List.map_map]
  simp only [Function.comp_def, unescape_escape]

theorem called_text {s : Step} (h : ∀ index, s = .item index → index < 10 ^ Text.mostDigits) :
    s.Called s.text := by
  cases s with
  | member key => rfl
  | item index => exact Text.number?_toDigits (h index rfl)

/-- A reference has a target exactly if it is local and there is a path whose steps are called by
its steps, and the target is where the path leads. -/
theorem target_eq_ok_iff {document node : Members} {ref : Json} :
    target document ref = .ok node ↔
      ∃ rest path, ref = .str (String.ofList ('#' :: '/' :: rest)) ∧
        List.Forall₂ Step.Called path ((rest.splitOn '/').map unescaped) ∧
        at? (.obj document) path = some (.obj node) := by
  have hnames : ∀ rest, steps? (String.ofList ('#' :: '/' :: rest)).toList =
      some ((rest.splitOn '/').map unescaped) := by
    intro rest
    rw [String.toList_ofList, steps?, Text.parts_eq_splitOn, funext unescaped_eq]
  constructor
  · intro h
    cases ref with
    | str s =>
      cases hsteps : steps? s.toList with
      | none => simp [target, hsteps] at h
      | some names =>
        obtain ⟨rest, hs⟩ : ∃ rest, s.toList = '#' :: '/' :: rest := by
          unfold steps? at hsteps
          split at hsteps
          · exact ⟨_, by assumption⟩
          · cases hsteps
        rw [← String.ofList_toList (s := s), hs] at h ⊢
        obtain ⟨path, hcalled, hat⟩ := (target_eq_ok_of_steps (hnames rest)).1 h
        exact ⟨rest, path, rfl, hcalled, hat⟩
    | _ => cases h
  · rintro ⟨rest, path, rfl, hcalled, hat⟩
    exact (target_eq_ok_of_steps (hnames rest)).2 ⟨path, hcalled, hat⟩

/-- References decode exactly the paths of a document. The reference to a path that leads to an
object has that object as its target; a reference with a target calls in turn, by its unescaped
parts, the steps of a path that leads there. Indices are read up to `Text.mostDigits` digits, so
the first half asks that the values of the document can be counted with these, as those of any
document can that fits into a memory. -/
theorem paths_decoded (document : Members) :
    ((Json.obj document).weight ≤ 10 ^ Text.mostDigits →
      ∀ path node, path ≠ [] → at? (.obj document) path = some (.obj node) →
        target document (.str (written path)) = .ok node) ∧
    ∀ ref node, target document ref = .ok node →
      ∃ rest path, ref = .str (String.ofList ('#' :: '/' :: rest)) ∧
        List.Forall₂ Step.Called path ((rest.splitOn '/').map unescaped) ∧
        at? (.obj document) path = some (.obj node) := by
  refine ⟨fun hsize path node hpath hat => ?_, fun ref node h => target_eq_ok_iff.1 h⟩
  refine (target_eq_ok_of_steps (steps?_written hpath)).2 ⟨path, ?_, hat⟩
  rw [List.forall₂_map_right_iff, List.forall₂_same]
  rintro s hs
  refine called_text ?_
  rintro index rfl
  exact Nat.lt_of_lt_of_le (index_lt_weight hat hs) hsize

/-- A key with a slash, one that looks like an escape, an index and the empty key. -/
theorem paths_decoded_keys :
    let node : Members := [("type", .str "string")]
    let document : Members :=
      [("a/b", .obj [("~1", .arr [.null, .obj [("", .obj node)]]), ("1", .null)])]
    let path : List Step := [.member "a/b", .member "~1", .item 1, .member ""]
    (Json.obj document).weight ≤ 10 ^ Text.mostDigits ∧ written path = "#/a~1b/~01/1/" ∧
      target document (.str "#/a~1b/~01/1/") = .ok node := by
  intro node document path
  have hsize : (Json.obj document).weight ≤ 10 ^ Text.mostDigits :=
    calc (Json.obj document).weight
      _ ≤ 10 ^ 1 := by decide
      _ ≤ 10 ^ Text.mostDigits := Nat.pow_le_pow_right (by decide) (by decide)
  have hwritten : written path = "#/a~1b/~01/1/" := by decide
  have htarget := (paths_decoded document).1 hsize path node (by decide) rfl
  exact ⟨hsize, hwritten, hwritten ▸ htarget⟩

end Pointer

end ClientForge
