-- SUMMARY: Inference ends unless it comes again and again to compositions written in place.
import Mathlib.Data.Prod.Lex
import Mathlib.Order.WellFounded
import ClientForge.Proofs.Inference.Calls
import ClientForge.Target.Language

/-!
# Termination

References back to a class under construction end, and so do chains of subclasses. What
keeps a chain of calls going is a composition that is written in place: resolving it may
give a larger schema, and neither the classes under construction nor the chain of
subclasses remember it.

Every other call decreases a rank (`rank_lt`): the classes of the document that are not
yet under construction, then the steps left in the chain of subclasses, then the weight
of the schema. The empty name needs care. A base branch with an empty reference is
inferred in place, so that lifting the guard for it is not made up for by the class
itself; it can happen only to a chain of subclasses without an unnamed one, which is
what `Call.IsBound` tells apart. Hence a call ends if it comes to no composition in
place (`ends_of_forall_not_isComposition`), and in general exactly if no endless chain
of calls passes compositions written in place again and again (`ends_iff_not_endless`).
-/

namespace ClientForge

namespace Inference

open Members Outcome Schema

/-! ## Names that remain -/

/-- How many of some names have not been seen. -/
def remaining (names seen : List String) : Nat := names.countP (· ∉ seen)

section
variable {names seen seen' : List String}

theorem remaining_le_length : remaining names seen ≤ names.length := List.countP_le_length

theorem remaining_le (h : ∀ x ∈ names, x ∈ seen → x ∈ seen') :
    remaining names seen' ≤ remaining names seen := by
  unfold remaining
  apply List.countP_mono_left
  intro x hx hnew
  simp only [decide_eq_true_eq] at hnew ⊢
  exact fun hseen => hnew (h x hx hseen)

theorem remaining_lt (h : ∀ x ∈ names, x ∈ seen → x ∈ seen') {x : String} (hx : x ∈ names)
    (hnew : x ∉ seen) (hseen : x ∈ seen') : remaining names seen' < remaining names seen := by
  obtain ⟨before, after, rfl⟩ := List.append_of_mem hx
  have hbefore : remaining before seen' ≤ remaining before seen :=
    remaining_le fun y hy => h y (List.mem_append_left _ hy)
  have hafter : remaining after seen' ≤ remaining after seen :=
    remaining_le fun y hy => h y (List.mem_append_right _ (List.mem_cons_of_mem _ hy))
  unfold remaining at hbefore hafter ⊢
  rw [List.countP_append, List.countP_append, List.countP_cons_of_neg (by simpa using hseen),
    List.countP_cons_of_pos (by simpa using hnew)]
  omega

end

/-! ## Rank -/

namespace Call

/-- A composition that is written in place. -/
def IsComposition (c : Call) : Prop :=
  ∃ ms v, c.schema = .obj ms ∧ (Members.get ms "$ref").truthy = false ∧
    (allOfKey, v) ∈ ms ∧ v.truthy = true

/-- A call in place, or for a subclass of an unnamed class. -/
def IsBound (c : Call) : Prop := c.ref? = none ∨ "" ∈ c.line

instance (c : Call) : Decidable c.IsBound := inferInstanceAs (Decidable (_ ∨ _))

/-- The steps left until a chain has to come to a class that it has not been to. -/
def slack (names : List String) (c : Call) : Nat :=
  if c.IsBound then remaining names c.visited else names.length + 1

/-- The steps left in the chain of subclasses of a reference, or the weight of a schema. -/
def size (names : List String) (c : Call) : ℕ ×ₗ ℕ :=
  match c.ref? with
  | some _ => toLex (1, remaining names c.line)
  | none => toLex (0, c.schema.weight)

def rank (names : List String) (c : Call) : ℕ ×ₗ ℕ ×ₗ ℕ ×ₗ ℕ :=
  toLex (remaining (names.filter (· ≠ "")) c.visited, toLex (c.slack names, c.size names))

end Call

theorem lex_lt {α β : Type} [PartialOrder α] [Preorder β] {a a' : α} {b b' : β} (ha : a ≤ a')
    (hb : b < b') : toLex (a, b) < toLex (a', b') :=
  Prod.Lex.toLex_lt_toLex'.2 ⟨ha, fun _ => hb⟩

theorem toLex_lt_of_fst {α β : Type} [LT α] [LT β] {a a' : α} {b b' : β} (h : a < a') :
    toLex (a, b) < toLex (a', b') :=
  Prod.Lex.toLex_lt_toLex.2 (.inl h)

section
variable {s : Setting} {c d : Call} {refs names : List String}

/-! ## Calls decrease the rank -/

theorem slack_le : c.slack names ≤ names.length + 1 := by
  unfold Call.slack
  split
  · exact Nat.le_succ_of_le remaining_le_length
  · exact Nat.le_refl _

theorem slack_of_isBound (h : c.IsBound) : c.slack names = remaining names c.visited := if_pos h

theorem slack_of_not_isBound (h : ¬ c.IsBound) : c.slack names = names.length + 1 := if_neg h

/-- What remains is less than the slack of a chain that is not bound, or has seen less. -/
theorem remaining_lt_slack {seen : List String}
    (h : c.IsBound → remaining names seen < remaining names c.visited) :
    remaining names seen < c.slack names := by
  by_cases hbound : c.IsBound
  · rw [slack_of_isBound hbound]
    exact h hbound
  · rw [slack_of_not_isBound hbound]
    exact Nat.lt_succ_of_le remaining_le_length

theorem size_of_ref {ref : String} (h : c.ref? = some ref) :
    c.size names = toLex (1, remaining names c.line) := by
  unfold Call.size
  rw [h]

theorem size_of_none (h : c.ref? = none) : c.size names = toLex (0, c.schema.weight) := by
  unfold Call.size
  rw [h]

theorem ofReference_mem {ref : String} (h : c.ref? = some ref)
    (hrefs : references c.schema ⊆ refs) : Name.ofReference ref ∈ refs.map Name.ofReference := by
  obtain ⟨ms, hschema, hget, -⟩ := ref?_eq_some_iff.1 h
  obtain ⟨⟨k, v⟩, hm, hk, rfl⟩ := mem_of_get? hget
  refine List.mem_map_of_mem (hrefs ?_)
  rw [hschema, mem_references_obj]
  refine ⟨_, hm, .inl ?_⟩
  have hkey : k = refKey := Key.meaning_eq_text_iff.1 hk
  simp [writtenRef, hkey]

/-- A schema in place that is no composition extends nothing, and all that is written in it
is lighter. -/
theorem settle_of_not_isComposition (href : c.ref? = none) (hplain : ¬ c.IsComposition)
    {branch : Option Json} {resolved : Members}
    (h : settle s.document c.schema = .ok (branch, resolved)) :
    branch = none ∧ (Json.obj resolved).weight ≤ c.schema.weight := by
  obtain ⟨followed, hfollowed, -⟩ := settle_eq_ok.1 h
  obtain ⟨ms, hschema⟩ := exists_members_of_resolve hfollowed
  have hfalse : (Members.get ms "$ref").truthy = false := by
    by_contra htruthy
    rw [Bool.not_eq_false] at htruthy
    obtain ⟨ref, hget⟩ := exists_ref_of_followRefs (hschema ▸ hfollowed) htruthy
    have hne : ref ≠ "" := by simpa [hget, Json.truthy] using htruthy
    have hsome := ref?_eq_some_iff.2 ⟨ms, hschema, get?_of_get hget nofun, hne⟩
    rw [href] at hsome
    cases hsome
  have hallOf : IsPlain ms := by
    intro v hv
    by_contra htruthy
    exact hplain ⟨ms, v, hschema, hfalse, hv, Bool.eq_true_of_not_eq_false htruthy⟩
  rw [hschema, settle_of_isPlain hfalse hallOf] at h
  cases h
  refine ⟨rfl, ?_⟩
  have hmerge := weight_merge [] ((⟨true, true⟩ : Mode).own ms)
  have hown := Json.weightOfMembers_filter (fun kv => (⟨true, true⟩ : Mode).keeps kv.1) ms
  rw [hschema]
  rw [← Mode.own_eq] at hown
  simp only [Json.weight, Json.weightOfMembers] at hmerge ⊢
  change 1 + Json.weightOfMembers (Members.merge [] _) ≤ _
  omega

theorem weight_lt_of_within {resolved : Members} {v : Json} (h : Within resolved v) :
    v.weight < (Json.obj resolved).weight := by
  cases h with
  | @member m hm =>
    have hle := weight_le_of_mem hm
    simp only [Json.weight]
    omega
  | @property k properties m hmem hm =>
    have hle := weight_le_of_mem hm
    have hle' := weight_le_of_mem hmem
    simp only [Json.weight] at hle' ⊢
    omega

/-- A call inside a resolved schema that follows a reference builds one more class. -/
theorem Inside.rank_lt_of_ref (h : Inside s c d) {ref : String} (href : d.ref? = some ref)
    (hfresh : ∀ n, ¬ d.IsPlaceholder n) (hmem : Name.ofReference ref ∈ names) :
    d.rank names < c.rank names := by
  have htrail : d.trail.visiting = c.visited := by rw [h.trail]
  have hclass := className?_of_ref? href
  have hvisited : d.visited = Name.ofReference ref :: c.visited := by
    rw [Call.visited, hclass, htrail]
    rfl
  have hkept : ∀ x, x ∈ c.visited → x ∈ d.visited := by
    intro x hx
    rw [hvisited]
    exact List.mem_cons_of_mem _ hx
  have hnew : Name.ofReference ref ∉ c.visited := by
    rw [← htrail]
    exact fun hmem => hfresh _ ⟨hclass, hmem⟩
  have hseen : Name.ofReference ref ∈ d.visited := by
    rw [hvisited]
    exact List.mem_cons_self
  unfold Call.rank
  by_cases hempty : Name.ofReference ref = ""
  · -- The unnamed class is not counted, but it binds the chain.
    have hbound : d.IsBound := by
      right
      rw [Call.line, h.trail, Call.ownName, hclass, hempty]
      exact List.mem_cons_self
    apply lex_lt (remaining_le fun x _ => hkept x)
    apply toLex_lt_of_fst
    rw [slack_of_isBound hbound]
    apply remaining_lt_slack
    intro _
    exact remaining_lt (fun x _ => hkept x) hmem hnew hseen
  · apply toLex_lt_of_fst
    refine remaining_lt (fun x _ => hkept x) ?_ hnew hseen
    exact List.mem_filter.2 ⟨hmem, by simpa using hempty⟩

/-- A call inside a resolved schema for a schema in place has a lighter one, or a tighter chain. -/
theorem Inside.rank_lt_of_none (h : Inside s c d) (href : d.ref? = none)
    (hplain : ¬ c.IsComposition) : d.rank names < c.rank names := by
  have hvisited : d.visited = c.visited := by
    rw [Call.visited, Call.className?, href, h.trail]
    rfl
  have hbound : d.IsBound := .inl href
  unfold Call.rank
  rw [hvisited, slack_of_isBound hbound, hvisited]
  apply lex_lt (Nat.le_refl _)
  by_cases hboundc : c.IsBound
  · rw [slack_of_isBound hboundc]
    apply lex_lt (Nat.le_refl _)
    rw [size_of_none href]
    cases hrefc : c.ref? with
    | some ref =>
      rw [size_of_ref hrefc]
      exact toLex_lt_of_fst Nat.zero_lt_one
    | none =>
      rw [size_of_none hrefc]
      apply lex_lt (Nat.le_refl _)
      obtain ⟨branch, resolved, hsettle, hwithin⟩ := h.exists_resolved
      obtain ⟨-, hle⟩ := settle_of_not_isComposition hrefc hplain hsettle
      exact Nat.lt_of_lt_of_le (weight_lt_of_within hwithin) hle
  · apply toLex_lt_of_fst
    apply remaining_lt_slack
    intro hboundc'
    exact absurd hboundc' hboundc

theorem Inside.rank_lt (h : Inside s c d) (hfresh : ∀ n, ¬ d.IsPlaceholder n)
    (hplain : ¬ c.IsComposition)
    (hnames : ∀ ref, d.ref? = some ref → Name.ofReference ref ∈ names) :
    d.rank names < c.rank names := by
  cases href : d.ref? with
  | some ref => exact h.rank_lt_of_ref href hfresh (hnames ref href)
  | none => exact h.rank_lt_of_none href hplain

/-- Only a reference or a composition extends anything. -/
theorem Above.exists_ref {ref : String} (h : Above s c d ref) (hplain : ¬ c.IsComposition) :
    ∃ refc, c.ref? = some refc := by
  apply Option.ne_none_iff_exists'.1
  intro hnone
  obtain ⟨resolved, hsettle⟩ := h.exists_resolved
  obtain ⟨hbranch, -⟩ := settle_of_not_isComposition hnone hplain hsettle
  cases hbranch

/-- The guard is lifted for an unnamed base class, which is not among those counted. -/
theorem Above.rank_lt_of_unnamed (h : Above s c d "") {refc : String} (hrefc : c.ref? = some refc) :
    d.rank names < c.rank names := by
  have hname : Name.ofReference "" = "" := by decide
  have hrefd : d.ref? = none := ref?_of_baseRef h.text
  have hvisited : d.visited = c.visited.filter (· != "") := by
    rw [Call.visited, Call.className?, hrefd, h.trail, hname]
    rfl
  have hboundd : d.IsBound := .inl hrefd
  have hboundc : ¬ c.IsBound := by
    rintro (hnone | hmem)
    · rw [hrefc] at hnone
      cases hnone
    · exact h.acyclic (hname ▸ hmem)
  have hkept : ∀ x ∈ names.filter (· ≠ ""), x ∈ c.visited → x ∈ d.visited := by
    intro x hx hseen
    have hne := (List.mem_filter.1 hx).2
    rw [hvisited]
    exact List.mem_filter.2 ⟨hseen, by simpa using hne⟩
  unfold Call.rank
  apply lex_lt (remaining_le hkept)
  apply toLex_lt_of_fst
  rw [slack_of_isBound hboundd]
  apply remaining_lt_slack
  intro hboundc'
  exact absurd hboundc' hboundc

/-- A named base class is one more in the chain of subclasses. -/
theorem Above.rank_lt_of_named {ref : String} (h : Above s c d ref) (hne : ref ≠ "") {refc : String}
    (hrefc : c.ref? = some refc) (hmem : Name.ofReference ref ∈ names) :
    d.rank names < c.rank names := by
  have hrefd : d.ref? = some ref := (ref?_of_baseRef h.text).trans (if_neg hne)
  have hclass := className?_of_ref? hrefd
  have hline : d.line = c.line ++ [Name.ofReference ref] := by
    rw [Call.line, h.trail, Call.ownName, hclass]
    rfl
  have hkept : ∀ x, x ∈ c.visited → x ∈ d.visited := by
    intro x hx
    rw [Call.visited, hclass, h.trail]
    by_cases hsame : x = Name.ofReference ref
    · exact hsame ▸ List.mem_cons_self
    · exact List.mem_cons_of_mem _ (List.mem_filter.2 ⟨hx, by simpa using hsame⟩)
  have hslack : d.slack names ≤ c.slack names := by
    by_cases hboundc : c.IsBound
    · have hboundd : d.IsBound := by
        rcases hboundc with hnone | hmem
        · rw [hrefc] at hnone
          cases hnone
        · exact .inr (hline ▸ List.mem_append_left _ hmem)
      rw [slack_of_isBound hboundc, slack_of_isBound hboundd]
      exact remaining_le fun x _ => hkept x
    · rw [slack_of_not_isBound hboundc]
      exact slack_le
  unfold Call.rank
  apply lex_lt (remaining_le fun x _ => hkept x)
  apply lex_lt hslack
  rw [size_of_ref hrefd, size_of_ref hrefc, hline]
  apply lex_lt (Nat.le_refl _)
  refine remaining_lt (fun x _ hx => List.mem_append_left _ hx) hmem h.acyclic ?_
  exact List.mem_append_right _ List.mem_cons_self

theorem Above.rank_lt {ref : String} (h : Above s c d ref) (hplain : ¬ c.IsComposition)
    (hnames : ∀ ref, d.ref? = some ref → Name.ofReference ref ∈ names) :
    d.rank names < c.rank names := by
  obtain ⟨refc, hrefc⟩ := h.exists_ref hplain
  by_cases hempty : ref = ""
  · subst hempty
    exact h.rank_lt_of_unnamed hrefc
  · have hrefd : d.ref? = some ref := (ref?_of_baseRef h.text).trans (if_neg hempty)
    exact h.rank_lt_of_named hempty hrefc (hnames ref hrefd)

/-- Unless it is a composition in place, a call ranks above those nested in it. -/
theorem rank_lt (hdoc : references (.obj s.document) ⊆ refs) (hc : references c.schema ⊆ refs)
    (hplain : ¬ c.IsComposition) (h : Nested s c d) (hfresh : ∀ n, ¬ d.IsPlaceholder n) :
    d.rank (refs.map Name.ofReference) < c.rank (refs.map Name.ofReference) := by
  have hd := h.preserves (stable_references refs) hdoc hc
  have hnames : ∀ ref, d.ref? = some ref → Name.ofReference ref ∈ refs.map Name.ofReference :=
    fun ref href => ofReference_mem href hd
  rcases h.inside_or_above with hinside | ⟨ref, habove⟩
  · exact hinside.rank_lt hfresh hplain hnames
  · exact habove.rank_lt hplain hnames

/-! ## Endless chains -/

/-- A chain of calls without end, each nested in the one before. -/
def IsChain (s : Setting) (way : ℕ → Call) : Prop := ∀ i, Nested s (way i) (way (i + 1))

/-- An endless chain comes to compositions in place again and again. -/
theorem exists_composition_of_isChain {way : ℕ → Call} (h : IsChain s way) (i : ℕ) :
    ∃ j ≥ i, (way j).IsComposition := by
  let refs := references (.obj s.document) ++ references (way 0).schema
  have hdoc : references (.obj s.document) ⊆ refs := List.subset_append_left _ _
  have hrefs : ∀ j, references (way j).schema ⊆ refs := by
    intro j
    induction j with
    | zero => exact List.subset_append_right _ _
    | succ j ih => exact (h j).preserves (stable_references refs) hdoc ih
  by_contra hnone
  push Not at hnone
  obtain ⟨k, hk⟩ := WellFounded.not_rel_apply_succ (r := (· < ·)) fun k =>
    (way (i + k)).rank (refs.map Name.ofReference)
  apply hk
  have hplain := hnone (i + k) (Nat.le_add_right i k)
  exact rank_lt hdoc (hrefs _) hplain (h (i + k)) (h (i + k + 1)).fresh

theorem IsChain.reaches {way : ℕ → Call} (h : IsChain s way) (i : ℕ) :
    Reaches s (way 0) (way i) := by
  induction i with
  | zero => exact .refl
  | succ i ih => exact ih.tail (h i)

/-- A call ends if no composition in place is ever come to: references to classes and
extending them by name cannot go on for ever. -/
theorem ends_of_forall_not_isComposition (h : ∀ d, Reaches s c d → ¬ d.IsComposition) :
    Ends s c := by
  rw [ends_iff_acc]
  by_contra hacc
  obtain ⟨way, rfl, hchain⟩ := not_acc_iff_exists_descending_chain.1 hacc
  obtain ⟨i, -, hcomposition⟩ := exists_composition_of_isChain hchain 0
  exact h (way i) (IsChain.reaches hchain i) hcomposition

/-- A call ends exactly if no endless chain of calls from it comes to compositions in place
again and again. -/
theorem ends_iff_not_endless : Ends s c ↔
    ¬ ∃ way : ℕ → Call, way 0 = c ∧ IsChain s way ∧ ∀ i, ∃ j ≥ i, (way j).IsComposition := by
  rw [ends_iff_acc, ← not_iff_not, not_not, not_acc_iff_exists_descending_chain]
  constructor
  · rintro ⟨way, hstart, hchain⟩
    exact ⟨way, hstart, hchain, exists_composition_of_isChain hchain⟩
  · rintro ⟨way, hstart, hchain, -⟩
    exact ⟨way, hstart, hchain⟩

end

/-! ## A class with a subclass of it written in place -/

def nodeRef : Json := refTo "#/definitions/Node"

/-- A node that follows another one, written in place. -/
def nextMembers : Members :=
  [("type", .str "object"), ("properties", .obj []), ("allOf", .arr [nodeRef])]

def nodeProperties : Members := [("next", .obj nextMembers)]

def nodeMembers : Members := [("type", .str "object"), ("properties", .obj nodeProperties)]

def nodeDocument : Document where
  members := [("definitions", .obj [("Node", .obj nodeMembers)])]

def nodes : Setting := ⟨nodeDocument, Language.swiftTypes⟩

def nodePlan (lineage : List String) : ObjectPlan where
  trail := ⟨["Node"], lineage⟩
  name := "Node"
  specName := .text "Node"
  schema := nodeMembers
  required := []
  properties := nodeProperties
  branch := none

def nextPlan : ObjectPlan where
  trail := ⟨["Node"], []⟩
  name := "Next"
  specName := .text "Next"
  schema := [("type", .str "object"), ("properties", .obj [])]
  required := []
  properties := []
  branch := some nodeRef

def nodeCall (lineage : List String) : Call := ⟨⟨[], lineage⟩, "", nodeRef⟩

def nextCall : Call := ⟨⟨["Node"], []⟩, "Next", .obj nextMembers⟩

theorem plan_nodeCall (lineage : List String) :
    plan nodes (nodeCall lineage) = .ok (.object (nodePlan lineage)) := by
  rfl

theorem plan_nextCall : plan nodes nextCall = .ok (.object nextPlan) := by
  rfl

theorem nested_node_next (lineage : List String) : Nested nodes (nodeCall lineage) nextCall :=
  @Nested.property nodes (nodeCall lineage) (nodePlan lineage) [] [] ("next", .obj nextMembers) "next"
    (plan_nodeCall lineage) rfl (by simp) rfl

theorem nested_next_node : Nested nodes nextCall (nodeCall ["Next"]) :=
  @Nested.base nodes nextCall nextPlan nodeRef "#/definitions/Node" plan_nextCall
    (by simp [nextPlan]) rfl rfl (by decide)

/-- A class that holds a subclass of itself in place is inferred without end: the base class
is built in full again for each subclass, and the subclass for each base class. -/
theorem not_ends_node : ¬ Ends nodes (nodeCall []) := by
  intro h
  have hcircle : ∀ c, Acc (fun d c => Nested nodes c d) c →
      c ≠ nextCall ∧ c ≠ nodeCall ["Next"] := by
    intro c hc
    induction hc with
    | intro c _ ih =>
      constructor
      · rintro rfl
        exact (ih _ nested_next_node).2 rfl
      · rintro rfl
        exact (ih _ (nested_node_next ["Next"])).1 rfl
  have hnext := (ends_iff_acc.1 h).inv (nested_node_next [])
  exact (hcircle _ hnext).1 rfl

end Inference

end ClientForge
