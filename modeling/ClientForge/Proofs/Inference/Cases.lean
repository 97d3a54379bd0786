-- SUMMARY: The cases of an enumeration, and when their names are there and differ.
import ClientForge.Proofs.Api.Scopes
import ClientForge.Proofs.Name.Humps

/-!
# Cases of enumerations

An enumeration has one case for each value of its schema, in order and with a name made from the
text of the value. Names lose separators, signs and the case of letters, so the names of all cases
are there and differ exactly if the values have words and are told apart by their humps
(`cases_clear_iff`); values that differ in nothing else make cases that clash
(`clashing_cases`).
-/

namespace ClientForge

namespace Inference

open Members Outcome Schema Words

/-- The case for a text among the values of an enumeration. -/
def caseOf (text : String) : EnumCase := ⟨some (Name.ofMember [text]), .str text⟩

theorem cases_of_texts (texts : List String) :
    (texts.map Json.str).mapM enumCase = .ok (texts.map caseOf) := by
  have hcase : ∀ text, enumCase (.str text) = .ok (caseOf text) := fun _ => rfl
  rw [mapM_eq_ok, List.forall₂_map_left_iff, List.forall₂_map_right_iff, List.forall₂_same]
  exact fun text _ => hcase text

section
variable {s : Setting} {c : Call} {r : Inferred} {branch : Option Json} {resolved : Members}
  {texts : List String} {e : EnumModel}

theorem ofEnumeration_of_texts {name : String} {found : Inferred}
    (htexts : Members.get resolved "enum" = .arr (texts.map Json.str))
    (h : ofEnumeration s resolved name = .ok found) :
    ∃ e : EnumModel, found.models = [.enumeration e] ∧ e.cases = texts.map caseOf := by
  unfold ofEnumeration at h
  simp only [bind_eq_ok, pure_eq, Except.ok.injEq] at h
  obtain ⟨type, -, enumType, -, entries, hentries, cases, hcases, rfl⟩ := h
  rw [htexts] at hentries
  cases hentries
  rw [cases_of_texts] at hcases
  cases hcases
  exact ⟨_, rfl, rfl⟩

/-- What a schema of an enumeration is inferred to be, unless it refers back to a class under
construction. -/
theorem exists_ofEnumeration (hsettle : settle s.document c.schema = .ok (branch, resolved))
    (hkind : Schema.kind resolved = .ok .enumeration) (h : Returns s c r) :
    r.models = [] ∨ ofEnumeration s resolved c.ownName = .ok r := by
  by_cases hfresh : ∀ name, ¬ c.IsPlaceholder name
  · obtain ⟨branch', resolved', hsettle', -, hplan⟩ :=
      plan_of_kindFound ((kindFound_of_settle hsettle).trans hkind) hfresh
    cases hsettle.symm.trans hsettle'
    obtain ⟨p, hp⟩ := exists_plan_of_returns h
    obtain ⟨found, hfound, rfl⟩ := map_eq_ok.1 (hplan.symm.trans hp)
    rw [h.done hp]
    exact .inr hfound
  · obtain ⟨name, hplaceholder⟩ := not_forall_not.1 hfresh
    rw [h.done (plan_of_placeholder hplaceholder)]
    exact .inl rfl

end

/-- An enumeration of texts has one case for each of them, in order. The names of its cases are
there and differ exactly if the texts have words and have different humps. -/
theorem cases_clear_iff {s : Setting} {c : Call} {branch : Option Json} {resolved : Members}
    {texts : List String} {r : Inferred} {e : EnumModel}
    (hsettle : settle s.document c.schema = .ok (branch, resolved))
    (hkind : Schema.kind resolved = .ok .enumeration)
    (htexts : Members.get resolved "enum" = .arr (texts.map Json.str)) (hreturns : Returns s c r)
    (he : .enumeration e ∈ r.models) :
    r.models = [.enumeration e] ∧
      e.cases = (texts.map fun text => ⟨some (Name.ofMember [text]), .str text⟩) ∧
      (∀ text, Name.ofMember [text] = "" ↔ ¬ HasWord text) ∧
      (∀ text text', Name.ofMember [text] = Name.ofMember [text'] ↔
        Name.humps text.toList = Name.humps text'.toList) ∧
      (Clear (e.cases.map EnumCase.name) ↔ (∀ text ∈ texts, HasWord text) ∧
        texts.Pairwise fun text text' => Name.humps text.toList ≠ Name.humps text'.toList) := by
  have hempty : ∀ text, Name.ofMember [text] = "" ↔ ¬ HasWord text := by
    intro text
    have hword : Name.joined [text] ≠ [] ↔ ∃ p ∈ [text], HasWord p := Name.joined_ne_nil_iff
    rw [Name.ofMember_eq_empty_iff]
    simpa using (not_iff_comm.1 hword).symm
  have hsame : ∀ text text', Name.ofMember [text] = Name.ofMember [text'] ↔
      Name.humps text.toList = Name.humps text'.toList := by
    intro text text'
    rw [Name.ofMember_eq_iff]
    simp [Name.slashed]
  obtain ⟨e', hmodels, hcases⟩ : ∃ e : EnumModel, r.models = [.enumeration e] ∧
      e.cases = texts.map caseOf := by
    rcases exists_ofEnumeration hsettle hkind hreturns with hnone | hfound
    · rw [hnone] at he
      cases he
    · exact ofEnumeration_of_texts htexts hfound
  rw [hmodels] at he
  cases List.mem_singleton.1 he
  refine ⟨hmodels, hcases, hempty, hsame, ?_⟩
  have hclear : Clear (texts.map fun text => some (Name.ofMember [text])) ↔
      TellsApart (fun text => Name.ofMember [text]) texts :=
    clear_map_iff fun text => (hempty text).not.trans not_not
  rw [hcases, List.map_map]
  refine hclear.trans ⟨fun h => ⟨h.words, ?_⟩, fun h => ⟨h.1, ?_⟩⟩
  · exact h.distinct.imp fun hne heq => hne ((hsame _ _).2 heq)
  · exact h.2.imp fun hne heq => hne ((hsame _ _).1 heq)

/-! ## Skills and votes -/

/-- The skills of a cat, of two sources. -/
def skillMembers : Members :=
  [("allOf", .arr [.obj [("enum", .arr [.str "lazy", .str "dark-blue"])],
    .obj [("enum", .arr [.str "2nd", .str "darkBlue2"])]])]

def skillDocument : Document where
  members := [("definitions", .obj [("Skill", .obj skillMembers)])]

def skills : List String := ["lazy", "dark-blue", "2nd", "darkBlue2"]

theorem cases_clear_iff_skills : ∃ r e,
    settle skillDocument (refTo "#/definitions/Skill") =
      .ok (none, [("enum", .arr (skills.map Json.str))]) ∧
    Returns ⟨skillDocument, Language.swiftTypes⟩ ⟨⟨[], []⟩, "", refTo "#/definitions/Skill"⟩ r ∧
    r.models = [.enumeration e] ∧
    e.cases = (skills.map fun text => ⟨some (Name.ofMember [text]), .str text⟩) ∧
    Clear (e.cases.map EnumCase.name) := by
  have hsettle : settle skillDocument (refTo "#/definitions/Skill") =
      .ok (none, [("enum", .arr (skills.map Json.str))]) := by
    cbv
  have hinfer : infer ⟨skillDocument, Language.swiftTypes⟩ "" (refTo "#/definitions/Skill") =
      .ok ⟨⟨"Skill", none⟩, [.enumeration ⟨some "Skill", some "String", skills.map caseOf, .null⟩]⟩ := by
    rfl
  have hreturns : Returns ⟨skillDocument, Language.swiftTypes⟩
      ⟨⟨[], []⟩, "", refTo "#/definitions/Skill"⟩ _ := ⟨maxNesting, hinfer⟩
  obtain ⟨hmodels, hcases, -, -, hclear⟩ :=
    cases_clear_iff hsettle rfl rfl hreturns List.mem_cons_self
  exact ⟨_, _, hsettle, hreturns, hmodels, hcases, hclear.2 ⟨by decide, by decide⟩⟩

/-- Votes that are told apart by their signs, and one that is nothing but a sign. -/
def voteSchema : Json := .obj [("enum", .arr [.str "+1", .str "-1", .str "+"])]

/-- Values that differ by more than their words make cases of one name, or of none. -/
theorem clashing_cases : ∃ r e,
    infer ⟨default, Language.swiftTypes⟩ "Vote" voteSchema = .ok r ∧ r.models = [.enumeration e] ∧
    e.cases.map EnumCase.value = ["+1", "-1", "+"].map Json.str ∧ ["+1", "-1", "+"].Nodup ∧
    e.cases.map EnumCase.name = [some "_1", some "_1", some ""] ∧
    ¬ Clear (e.cases.map EnumCase.name) := by
  have hinfer : infer ⟨default, Language.swiftTypes⟩ "Vote" voteSchema = .ok ⟨⟨"Vote", none⟩,
      [.enumeration ⟨some "Vote", some "String", ["+1", "-1", "+"].map caseOf, .null⟩]⟩ := by
    rfl
  have hnames : (["+1", "-1", "+"].map caseOf).map EnumCase.name =
      [some "_1", some "_1", some ""] := by
    decide
  refine ⟨_, _, hinfer, rfl, rfl, by decide, hnames, ?_⟩
  rw [hnames]
  decide

end Inference

end ClientForge
