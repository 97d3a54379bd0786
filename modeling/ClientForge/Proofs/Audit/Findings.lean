-- SUMMARY: The audit reports each fault of an API once, and only what passes it is generated.
import ClientForge.Emit.Client
import ClientForge.Proofs.Audit.Enumeration
import ClientForge.Proofs.Json.Equality
import ClientForge.Proofs.Outcome

/-!
# Findings

What the audit has to report is said place by place (`Site`, `Reports`), without regard to
how it looks for it; `Clean` is an API with nothing to report. A report is a finding with the
values that it shows, and cannot be worded if one of them holds a number that is too long to
be written. So the findings about an API are there exactly if all that is to be reported can
be worded, and then they are that, one for each place (`findings_eq_ok`,
`findings_eq_error_iff`); those about several APIs are theirs together, told with the names
of the APIs (`findingsOfAll_eq_ok`).

The check of some APIs passes exactly if all of them are clean, and fails with all findings
otherwise, or as the findings do (`checkAll_eq_ok_iff`, `checkAll_eq_error_iff`). Files are
generated for clean APIs only (`clean_of_render`).
-/

namespace ClientForge

namespace Audit

/-! ## What is to be reported -/

/-- A text is there, and it is not empty. -/
def IsGiven (o : Option String) : Prop := ∃ s, o = some s ∧ s ≠ ""

theorem isNamed_iff {o : Option String} : isNamed o = true ↔ IsGiven o := by
  cases o <;> simp [isNamed, IsGiven]

/-- A place in a method: the type of one of its parameters, the response being the last of
them, or the form data that a parameter is. -/
inductive Slot
  | type (param : Nat)
  | form (param : Nat)

/-- A place in an API: one in a method, a model listed as a class or as an enumeration, or
a name. -/
inductive Site
  | slot (method : Nat) (slot : Slot)
  | object (index : Nat)
  | enumeration (index : Nat)
  | name (name : String)

/-- What is to be reported about a method. -/
inductive ReportsSlot (m : Method) : Slot → Report → Prop
  | type {i : Nat} {p : Param} (hparam : (m.params ++ [m.response])[i]? = some p)
      (huntyped : ¬ IsGiven p.type) : ReportsSlot m (.type i) (missingType m p)
  | form {i : Nat} {p : Param} (hparam : m.params[i]? = some p)
      (hform : p.location = .str "formData") (htext : p.schemaType ≠ .str "file") :
      ReportsSlot m (.form i) (formDataType m p)

/-- What is to be reported about a model where those of a kind are expected. -/
inductive ReportsModel (expected : String) (isExpected : Model → Bool) (m : Model) : Report → Prop
  | stray (hkind : isExpected m = false) : ReportsModel expected isExpected m (wrongKind expected m)
  | nameless (hkind : isExpected m = true) (hname : ¬ IsGiven m.name) :
      ReportsModel expected isExpected m (missingName m)

/-- How many models have a name. -/
def timesUsed (name : String) (models : List Model) : Nat :=
  models.countP (·.name == some name)

/-- What is to be reported about an API, and where. -/
inductive Reports (methods : List Method) (objects enums : List Model) : Site → Report → Prop
  | slot {i : Nat} {m : Method} {x : Slot} {d : Report} (hmethod : methods[i]? = some m)
      (hslot : ReportsSlot m x d) : Reports methods objects enums (.slot i x) d
  | object {i : Nat} {m : Model} {d : Report} (hmodel : objects[i]? = some m)
      (hfault : ReportsModel "object" Model.isObject m d) :
      Reports methods objects enums (.object i) d
  | enumeration {i : Nat} {m : Model} {d : Report} (hmodel : enums[i]? = some m)
      (hfault : ReportsModel "enum" Model.isEnumeration m d) :
      Reports methods objects enums (.enumeration i) d
  | name {name : String} (hgiven : name ≠ "") (hshared : 1 < timesUsed name (objects ++ enums)) :
      Reports methods objects enums (.name name)
        (duplicateName name (timesUsed name (objects ++ enums)))

/-- There is nothing to report. -/
structure Clean (methods : List Method) (objects enums : List Model) : Prop where
  typed : ∀ m ∈ methods, ∀ p ∈ m.params ++ [m.response], IsGiven p.type
  files : ∀ m ∈ methods, ∀ p ∈ m.params, p.location = .str "formData" → p.schemaType = .str "file"
  classes : ∀ m ∈ objects, m.isObject = true ∧ IsGiven m.name
  enumerations : ∀ m ∈ enums, m.isEnumeration = true ∧ IsGiven m.name
  distinct : ((objects ++ enums).map Model.name).Nodup

/-! ## Methods -/

theorem lacksType_iff {p : Param} : lacksType p = true ↔ ¬ IsGiven p.type := by
  rw [← isNamed_iff, lacksType, Bool.not_eq_true', Bool.not_eq_true]

theorem same_str_iff {v : Json} {s : String} : v.same (.str s) = true ↔ v = .str s := by
  constructor
  · intro h
    cases v <;> simp_all [Json.same, Json.number?]
  · rintro rfl
    exact Json.same_self _ trivial

theorem isTextForm_iff {p : Param} :
    isTextForm p = true ↔ p.location = .str "formData" ∧ p.schemaType ≠ .str "file" := by
  rw [isTextForm, Bool.and_eq_true, same_str_iff, Bool.not_eq_true', ← Bool.not_eq_true,
    same_str_iff]

theorem enumerates_ofMethod (m : Method) : Enumerates (ReportsSlot m) (ofMethod m) := by
  have htypes := (Enumerates.map_filter lacksType (missingType m) (m.params ++ [m.response])).reindex
    (g := Slot.type) fun _ _ => Slot.type.inj
  have hforms := (Enumerates.map_filter isTextForm (formDataType m) m.params).reindex
    (g := Slot.form) fun _ _ => Slot.form.inj
  refine (htypes.append hforms ?_).congr fun x d => ?_
  · rintro x d d' ⟨i, rfl, -⟩ ⟨j, hj, -⟩
    cases hj
  · constructor
    · rintro (⟨i, rfl, p, hp, hlacks, rfl⟩ | ⟨i, rfl, p, hp, htext, rfl⟩)
      · exact .type hp (lacksType_iff.1 hlacks)
      · exact .form hp (isTextForm_iff.1 htext).1 (isTextForm_iff.1 htext).2
    · intro h
      cases h with
      | type hp huntyped => exact .inl ⟨_, rfl, _, hp, lacksType_iff.2 huntyped, rfl⟩
      | form hp hform htext => exact .inr ⟨_, rfl, _, hp, isTextForm_iff.2 ⟨hform, htext⟩, rfl⟩

/-! ## Models -/

theorem ofModel_eq_some_iff {expected : String} {isExpected : Model → Bool} {m : Model}
    {d : Report} :
    ofModel expected isExpected m = some d ↔ ReportsModel expected isExpected m d := by
  constructor
  · intro h
    cases hkind : isExpected m with
    | false =>
      obtain rfl : wrongKind expected m = d := by simpa [ofModel, hkind] using h
      exact .stray hkind
    | true =>
      cases hnamed : isNamed m.name with
      | false =>
        obtain rfl : missingName m = d := by simpa [ofModel, hkind, hnamed] using h
        exact .nameless hkind fun hname => by simp [isNamed_iff.2 hname] at hnamed
      | true => simp [ofModel, hkind, hnamed] at h
  · intro h
    cases h with
    | stray hkind => simp [ofModel, hkind]
    | nameless hkind hname => simp [ofModel, hkind, mt isNamed_iff.1 hname]

theorem mem_firsts {α : Type} [BEq α] [LawfulBEq α] {a : α} {as : List α} :
    a ∈ firsts as ↔ a ∈ as := by
  induction as with
  | nil => rfl
  | cons first as ih =>
    rw [firsts, List.mem_cons, List.mem_cons, List.mem_filter, ih]
    by_cases h : a = first
    · simp [h]
    · simp [h]

theorem nodup_firsts {α : Type} [BEq α] [LawfulBEq α] (as : List α) : (firsts as).Nodup := by
  induction as with
  | nil => exact List.nodup_nil
  | cons a as ih =>
    rw [firsts, List.nodup_cons]
    exact ⟨by simp, ih.filter _⟩

theorem count_givenNames {name : String} (h : name ≠ "") (models : List Model) :
    (givenNames models).count name = timesUsed name models := by
  induction models with
  | nil => rfl
  | cons m models ih =>
    rw [givenNames, List.filterMap_cons, timesUsed, List.countP_cons]
    rw [givenNames, timesUsed] at ih
    cases m.name with
    | none => simpa [show isNamed none = false from rfl] using ih
    | some used =>
      by_cases hempty : used = ""
      · simpa [hempty, Ne.symm h, show isNamed (some "") = false from rfl] using ih
      · simp [isNamed_iff.2 ⟨used, rfl, hempty⟩, List.count_cons, ih]

theorem mem_givenNames_of_timesUsed {name : String} {models : List Model} (h : name ≠ "")
    (hused : 0 < timesUsed name models) : name ∈ givenNames models := by
  rwa [← count_givenNames h, List.count_pos_iff] at hused

theorem ne_empty_of_mem_givenNames {name : String} {models : List Model}
    (h : name ∈ givenNames models) : name ≠ "" := by
  obtain ⟨m, -, hname⟩ := List.mem_filterMap.1 h
  split at hname
  · obtain ⟨s, hs, hne⟩ := isNamed_iff.1 ‹_›
    rw [hs] at hname
    cases hname
    exact hne
  · cases hname

theorem enumerates_ofNames (models : List Model) :
    Enumerates
      (fun name d => name ≠ "" ∧ 1 < timesUsed name models ∧
        d = duplicateName name (timesUsed name models))
      (ofNames (givenNames models)) := by
  refine (Enumerates.filterMap_of_nodup _ (nodup_firsts _)).congr fun name d => ?_
  rw [mem_firsts]
  constructor
  · rintro ⟨hmem, hd⟩
    have hgiven := ne_empty_of_mem_givenNames hmem
    rw [count_givenNames hgiven] at hd
    split at hd
    · exact ⟨hgiven, ‹_›, by cases hd; rfl⟩
    · cases hd
  · rintro ⟨hgiven, hshared, rfl⟩
    refine ⟨mem_givenNames_of_timesUsed hgiven (Nat.lt_of_succ_lt hshared), ?_⟩
    rw [count_givenNames hgiven, if_pos hshared]

/-! ## An API -/

/-- The reports about an API are what is to be reported, each once. -/
theorem enumerates_reports (methods : List Method) (objects enums : List Model) :
    Enumerates (Reports methods objects enums) (reports methods objects enums) := by
  have hslots := (Enumerates.flatMap methods fun m _ => enumerates_ofMethod m).reindex
    (g := fun x => Site.slot x.1 x.2) fun _ _ hxy => Prod.ext (Site.slot.inj hxy).1 (Site.slot.inj hxy).2
  have hobjects := (Enumerates.filterMap (ofModel "object" Model.isObject) objects).reindex
    (g := Site.object) fun _ _ => Site.object.inj
  have henums := (Enumerates.filterMap (ofModel "enum" Model.isEnumeration) enums).reindex
    (g := Site.enumeration) fun _ _ => Site.enumeration.inj
  have hnames := (enumerates_ofNames (objects ++ enums)).reindex
    (g := Site.name) fun _ _ => Site.name.inj
  refine (hslots.append ((hobjects.append henums ?_).append hnames ?_) ?_).congr fun x d => ?_
  · rintro x d d' ⟨i, rfl, -⟩ ⟨j, hj, -⟩
    cases hj
  · rintro x d d' (⟨i, rfl, -⟩ | ⟨i, rfl, -⟩) ⟨j, hj, -⟩ <;> cases hj
  · rintro x d d' ⟨i, rfl, -⟩ ((⟨j, hj, -⟩ | ⟨j, hj, -⟩) | ⟨j, hj, -⟩) <;> cases hj
  · constructor
    · rintro (⟨i, rfl, m, hm, h⟩ | (⟨i, rfl, m, hm, h⟩ | ⟨i, rfl, m, hm, h⟩) | ⟨name, rfl, h⟩)
      · exact .slot hm h
      · exact .object hm (ofModel_eq_some_iff.1 h)
      · exact .enumeration hm (ofModel_eq_some_iff.1 h)
      · obtain ⟨hgiven, hshared, rfl⟩ := h
        exact .name hgiven hshared
    · intro h
      cases h with
      | slot hm h => exact .inl ⟨(_, _), rfl, _, hm, h⟩
      | object hm h => exact .inr (.inl (.inl ⟨_, rfl, _, hm, ofModel_eq_some_iff.2 h⟩))
      | enumeration hm h => exact .inr (.inl (.inr ⟨_, rfl, _, hm, ofModel_eq_some_iff.2 h⟩))
      | name hgiven hshared => exact .inr (.inr ⟨_, rfl, hgiven, hshared, rfl⟩)

theorem timesUsed_eq_count (name : String) (models : List Model) :
    timesUsed name models = (models.map Model.name).count (some name) := by
  rw [timesUsed, List.count, List.countP_map]
  rfl

theorem Clean.not_reports {methods : List Method} {objects enums : List Model}
    (h : Clean methods objects enums) {x : Site} {d : Report} :
    ¬ Reports methods objects enums x d := by
  intro hreports
  cases hreports with
  | slot hm hslot =>
    cases hslot with
    | type hp huntyped =>
      exact huntyped (h.typed _ (List.mem_of_getElem? hm) _ (List.mem_of_getElem? hp))
    | form hp hform htext =>
      exact htext (h.files _ (List.mem_of_getElem? hm) _ (List.mem_of_getElem? hp) hform)
  | object hm hfault =>
    obtain ⟨hobject, hname⟩ := h.classes _ (List.mem_of_getElem? hm)
    cases hfault with
    | stray hkind => simp [hobject] at hkind
    | nameless _ hnameless => exact hnameless hname
  | enumeration hm hfault =>
    obtain ⟨henum, hname⟩ := h.enumerations _ (List.mem_of_getElem? hm)
    cases hfault with
    | stray hkind => simp [henum] at hkind
    | nameless _ hnameless => exact hnameless hname
  | name _ hshared =>
    rw [timesUsed_eq_count] at hshared
    exact Nat.not_lt.2 (List.nodup_iff_count_le_one.1 h.distinct _) hshared

theorem kind_of_not_reportsModel {expected : String} {isExpected : Model → Bool} {m : Model}
    (h : ∀ d, ¬ ReportsModel expected isExpected m d) : isExpected m = true ∧ IsGiven m.name := by
  have hkind : isExpected m = true := by
    by_contra hkind
    exact h _ (.stray (Bool.not_eq_true _ ▸ hkind))
  refine ⟨hkind, ?_⟩
  by_contra hname
  exact h _ (.nameless hkind hname)

theorem clean_of_not_reports {methods : List Method} {objects enums : List Model}
    (h : ∀ x d, ¬ Reports methods objects enums x d) : Clean methods objects enums := by
  have hclasses : ∀ m ∈ objects, m.isObject = true ∧ IsGiven m.name := by
    intro m hm
    obtain ⟨i, hi⟩ := List.mem_iff_getElem?.1 hm
    exact kind_of_not_reportsModel fun d hd => h _ _ (.object hi hd)
  have henumerations : ∀ m ∈ enums, m.isEnumeration = true ∧ IsGiven m.name := by
    intro m hm
    obtain ⟨i, hi⟩ := List.mem_iff_getElem?.1 hm
    exact kind_of_not_reportsModel fun d hd => h _ _ (.enumeration hi hd)
  refine ⟨?_, ?_, hclasses, henumerations, ?_⟩
  · intro m hm p hp
    obtain ⟨i, hi⟩ := List.mem_iff_getElem?.1 hm
    obtain ⟨j, hj⟩ := List.mem_iff_getElem?.1 hp
    by_contra huntyped
    exact h _ _ (.slot hi (.type hj huntyped))
  · intro m hm p hp hform
    obtain ⟨i, hi⟩ := List.mem_iff_getElem?.1 hm
    obtain ⟨j, hj⟩ := List.mem_iff_getElem?.1 hp
    by_contra htext
    exact h _ _ (.slot hi (.form hj hform htext))
  · refine List.nodup_iff_count_le_one.2 fun o => Nat.not_lt.1 fun hshared => ?_
    obtain ⟨m, hm, rfl⟩ := List.mem_map.1 (List.count_pos_iff.1 (Nat.lt_of_succ_lt hshared))
    obtain ⟨name, hname, hgiven⟩ : IsGiven m.name :=
      (List.mem_append.1 hm).elim (fun hm => (hclasses m hm).2) fun hm => (henumerations m hm).2
    rw [hname, ← timesUsed_eq_count] at hshared
    exact h _ _ (.name hgiven hshared)

theorem reports_eq_nil_iff {methods : List Method} {objects enums : List Model} :
    reports methods objects enums = [] ↔ Clean methods objects enums := by
  rw [(enumerates_reports methods objects enums).eq_nil_iff]
  exact ⟨clean_of_not_reports, fun h _ _ => h.not_reports⟩

/-! ## Wording -/

/-- What a report shows can be written. -/
def Report.IsWritable (r : Report) : Prop := Json.areWritable r.values = true

theorem Report.worded_eq_ok {r : Report} {d : Diagnostic} :
    r.worded = .ok d ↔ r.IsWritable ∧ r.diagnostic = d := by
  unfold Report.worded Report.IsWritable
  split <;> simp_all

theorem Report.worded_eq_error {r : Report} {e : Failure} :
    r.worded = .error e ↔ ¬ r.IsWritable ∧ e = .malformed .noNumber := by
  unfold Report.worded Report.IsWritable
  split
  · simp [*]
  · simp [*, eq_comm (a := e)]

theorem mapM_worded_eq_ok {rs : List Report} {ds : List Diagnostic} :
    rs.mapM Report.worded = .ok ds ↔
      (∀ r ∈ rs, r.IsWritable) ∧ rs.map Report.diagnostic = ds := by
  rw [Outcome.mapM_eq_ok]
  induction rs generalizing ds with
  | nil => simp [eq_comm]
  | cons r rs ih =>
    rw [List.forall₂_cons_left_iff, List.forall_mem_cons, List.map_cons]
    constructor
    · rintro ⟨d, ds, hd, hds, rfl⟩
      obtain ⟨hr, rfl⟩ := Report.worded_eq_ok.1 hd
      obtain ⟨hrs, rfl⟩ := ih.1 hds
      exact ⟨⟨hr, hrs⟩, rfl⟩
    · rintro ⟨⟨hr, hrs⟩, rfl⟩
      exact ⟨_, _, Report.worded_eq_ok.2 ⟨hr, rfl⟩, ih.2 ⟨hrs, rfl⟩, rfl⟩

theorem mapM_worded_eq_error {rs : List Report} {e : Failure} :
    rs.mapM Report.worded = .error e ↔ (∃ r ∈ rs, ¬ r.IsWritable) ∧ e = .malformed .noNumber := by
  rw [Outcome.mapM_eq_error_iff fun r e he => (Report.worded_eq_error.1 he).2]
  simp [Report.worded_eq_error]

/-- The findings are there if all that is to be reported can be worded, and then they are that,
each once. -/
theorem findings_eq_ok {methods : List Method} {objects enums : List Model} {ds : List Diagnostic}
    (h : findings methods objects enums = .ok ds) :
    (∀ x r, Reports methods objects enums x r → r.IsWritable) ∧
      Enumerates (fun x d => ∃ r, Reports methods objects enums x r ∧ r.diagnostic = d) ds := by
  obtain ⟨hwritable, rfl⟩ := mapM_worded_eq_ok.1 h
  have hreports := enumerates_reports methods objects enums
  exact ⟨fun x r hr => hwritable r (hreports.mem_of_related hr), hreports.map _⟩

theorem findings_eq_error_iff {methods : List Method} {objects enums : List Model} {e : Failure} :
    findings methods objects enums = .error e ↔
      (∃ x r, Reports methods objects enums x r ∧ ¬ r.IsWritable) ∧ e = .malformed .noNumber := by
  rw [findings, mapM_worded_eq_error]
  refine and_congr_left fun _ => ?_
  constructor
  · rintro ⟨r, hr, hlong⟩
    obtain ⟨x, hx⟩ := (enumerates_reports methods objects enums).exists_related hr
    exact ⟨x, r, hx, hlong⟩
  · rintro ⟨x, r, hx, hlong⟩
    exact ⟨r, (enumerates_reports methods objects enums).mem_of_related hx, hlong⟩

theorem findings_eq_nil_iff {methods : List Method} {objects enums : List Model} :
    findings methods objects enums = .ok [] ↔ Clean methods objects enums := by
  rw [findings, mapM_worded_eq_ok, List.map_eq_nil_iff, ← reports_eq_nil_iff]
  exact ⟨And.right, fun h => ⟨by simp [h], h⟩⟩

end Audit

/-! ## Several APIs -/

namespace ApiModel

/-- There is nothing to report about an API. -/
def Clean (a : ApiModel) : Prop := Audit.Clean a.methods a.objects a.enums

theorem findings_eq_nil_iff {a : ApiModel} : a.findings = .ok [] ↔ a.Clean := Audit.findings_eq_nil_iff

theorem namedFindings_eq_ok {a : ApiModel} {ds : List Diagnostic} :
    a.namedFindings = .ok ds ↔
      ∃ found, a.findings = .ok found ∧ found.map (Diagnostic.inApi a.name) = ds := by
  simp only [namedFindings, Outcome.bind_eq_ok, Outcome.pure_eq, Except.ok.injEq]

theorem namedFindings_eq_error {a : ApiModel} {e : Failure} :
    a.namedFindings = .error e ↔ a.findings = .error e := by
  unfold namedFindings
  cases a.findings <;> simp

theorem failure_of_findings {a : ApiModel} {e : Failure} (h : a.findings = .error e) :
    e = .malformed .noNumber :=
  (Audit.findings_eq_error_iff.1 h).2

/-- The findings about some APIs are those about each, told with its name. -/
theorem findingsOfAll_eq_ok {apis : List ApiModel} {ds : List Diagnostic} :
    findingsOfAll apis = .ok ds ↔
      ∃ dss, List.Forall₂ (fun a ds => ∃ found, a.findings = .ok found ∧
        found.map (Diagnostic.inApi a.name) = ds) apis dss ∧ dss.flatten = ds := by
  simp [findingsOfAll, Outcome.bind_eq_ok, Outcome.mapM_eq_ok, namedFindings_eq_ok]

theorem findingsOfAll_eq_error_iff {apis : List ApiModel} {e : Failure} :
    findingsOfAll apis = .error e ↔ ∃ a ∈ apis, a.findings = .error e := by
  have hfault : ∀ (a : ApiModel) (e : Failure), a.namedFindings = .error e → e = .malformed .noNumber :=
    fun a e he => failure_of_findings (namedFindings_eq_error.1 he)
  have hloop : findingsOfAll apis = .error e ↔ apis.mapM namedFindings = .error e := by
    unfold findingsOfAll
    cases apis.mapM namedFindings with
    | error e' => simp
    | ok dss => exact ⟨nofun, nofun⟩
  rw [hloop, Outcome.mapM_eq_error_iff hfault]
  constructor
  · rintro ⟨⟨a, ha, h⟩, rfl⟩
    exact ⟨a, ha, namedFindings_eq_error.1 h⟩
  · rintro ⟨a, ha, h⟩
    obtain rfl := failure_of_findings h
    exact ⟨⟨a, ha, namedFindings_eq_error.2 h⟩, rfl⟩

theorem findingsOfAll_eq_nil_iff {apis : List ApiModel} :
    findingsOfAll apis = .ok [] ↔ ∀ a ∈ apis, a.findings = .ok [] := by
  rw [findingsOfAll_eq_ok]
  constructor
  · rintro ⟨dss, hdss, hnil⟩ a ha
    obtain ⟨ds, hds, found, hfound, rfl⟩ := Outcome.exists_of_mem_left hdss ha
    rw [hfound, List.map_eq_nil_iff.1 (List.flatten_eq_nil_iff.1 hnil _ hds)]
  · intro h
    refine ⟨apis.map fun _ => [], ?_, by simp⟩
    rw [List.forall₂_map_right_iff, List.forall₂_same]
    exact fun a ha => ⟨[], h a ha, rfl⟩

theorem checkAll_eq_ok_iff {apis : List ApiModel} :
    checkAll apis = .ok () ↔ ∀ a ∈ apis, a.findings = .ok [] := by
  rw [← findingsOfAll_eq_nil_iff, checkAll]
  cases findingsOfAll apis with
  | error e => simp
  | ok ds => cases ds <;> simp

theorem checkAll_eq_error_iff {apis : List ApiModel} {e : Failure} :
    checkAll apis = .error e ↔
      (∃ ds, ds ≠ [] ∧ findingsOfAll apis = .ok ds ∧ e = .verification ds) ∨
        findingsOfAll apis = .error e := by
  rw [checkAll]
  cases findingsOfAll apis with
  | error e' => simp
  | ok ds => cases ds <;> simp [eq_comm]

end ApiModel

namespace Emit

/-- Files are generated only if nothing is found about any API. -/
theorem clean_of_render {l : Language} {options : EmitOptions} {apis : List Api}
    {files : List OutputFile} (h : render l options apis = .ok files) {api : Api}
    (hapi : api ∈ apis) : ∃ model, modelOf l api = .ok model ∧ model.findings = .ok [] := by
  obtain ⟨models, hmodels, -⟩ := Outcome.bind_eq_ok.1 h
  obtain ⟨models', hbuilt, hchecked⟩ := Outcome.bind_eq_ok.1 hmodels
  obtain ⟨_, hcheck, hsame⟩ := Outcome.bind_eq_ok.1 hchecked
  cases hsame
  obtain ⟨model, hmem, hmodel⟩ :=
    Outcome.exists_of_mem_left (Outcome.mapM_eq_ok.1 hbuilt) hapi
  exact ⟨model, hmodel, ApiModel.checkAll_eq_ok_iff.1 hcheck model hmem⟩

end Emit

/-! ## The audit as a whole -/

/-- The audit of an API finds nothing exactly if the API is clean. What it finds is what is to be
reported, each once, and it finds something unless a report shows what cannot be written, in which
case it fails. The findings about several APIs are theirs one after another, told with their names,
and fail if those of one API do. The check of some APIs passes exactly if nothing is found about
any; otherwise it fails with all findings, or as they do. Only what nothing is found about is
generated. -/
theorem audit_exact (methods : List Method) (objects enums : List Model) (apis : List ApiModel)
    (l : Language) (options : EmitOptions) (sources : List Api) :
    (Audit.findings methods objects enums = .ok [] ↔ Audit.Clean methods objects enums) ∧
    (∀ ds, Audit.findings methods objects enums = .ok ds → Enumerates (fun x d =>
      ∃ r, Audit.Reports methods objects enums x r ∧ r.diagnostic = d) ds) ∧
    (∀ e, Audit.findings methods objects enums = .error e ↔
      (∃ x r, Audit.Reports methods objects enums x r ∧ ¬ r.IsWritable) ∧ e = .malformed .noNumber) ∧
    (∀ ds, ApiModel.findingsOfAll apis = .ok ds ↔ ∃ dss, List.Forall₂ (fun a ds =>
      ∃ found, a.findings = .ok found ∧ found.map (Diagnostic.inApi a.name) = ds) apis dss ∧
        dss.flatten = ds) ∧
    (∀ e, ApiModel.findingsOfAll apis = .error e ↔ ∃ a ∈ apis, a.findings = .error e) ∧
    (ApiModel.checkAll apis = .ok () ↔ ∀ a ∈ apis, a.findings = .ok []) ∧
    (∀ e, ApiModel.checkAll apis = .error e ↔
      (∃ ds, ds ≠ [] ∧ ApiModel.findingsOfAll apis = .ok ds ∧ e = .verification ds) ∨
        ApiModel.findingsOfAll apis = .error e) ∧
    (∀ files, Emit.render l options sources = .ok files →
      ∀ api ∈ sources, ∃ model, Emit.modelOf l api = .ok model ∧ model.findings = .ok []) :=
  ⟨Audit.findings_eq_nil_iff, fun _ h => (Audit.findings_eq_ok h).2,
    fun _ => Audit.findings_eq_error_iff, fun _ => ApiModel.findingsOfAll_eq_ok,
    fun _ => ApiModel.findingsOfAll_eq_error_iff, ApiModel.checkAll_eq_ok_iff,
    fun _ => ApiModel.checkAll_eq_error_iff, fun _ h _ hapi => Emit.clean_of_render h hapi⟩

/-! ### A run that passes -/

/-- An API with a method that takes a photo and answers with whom it shows. -/
def gallery : Api where
  name := "Gallery"
  className := "Gallery"
  basePath := ""
  packageName := none
  document.members :=
    [("paths", .obj [("/photos", .obj [("post", .obj
      [("operationId", .str "identify"),
        ("parameters", .arr [.obj
          [("name", .str "photo"), ("in", .str "formData"), ("type", .str "file")]]),
        ("responses", .obj [("200", .obj [("schema", .obj
          [("type", .str "object"),
            ("properties", .obj [("name", .obj [("type", .str "string")])])])])])])])])]

theorem audit_exact_gallery : ∃ files model,
    Emit.render .kotlin ⟨false, EmitOptions.defaultPackage⟩ [gallery] = .ok files ∧
      Emit.modelOf .kotlin gallery = .ok model ∧ model.findings = .ok [] := by
  have hrender : ((Emit.render .kotlin ⟨false, EmitOptions.defaultPackage⟩ [gallery]).toOption.any
      fun files => files.length == 1) = true := by
    decide +kernel
  obtain ⟨files, hfiles, -⟩ := Outcome.exists_ok_of_any hrender
  obtain ⟨-, -, -, -, -, -, -, hgates⟩ :=
    audit_exact [] [] [] [] .kotlin ⟨false, EmitOptions.defaultPackage⟩ [gallery]
  obtain ⟨model, hmodel, hnone⟩ := hgates files hfiles gallery List.mem_cons_self
  exact ⟨files, model, hfiles, hmodel, hnone⟩

/-! ### A finding that cannot be told -/

theorem fitsDigits_iff {digits n : Nat} : fitsDigits digits n = true ↔ n < Binary.tenTo digits := by
  induction digits generalizing n with
  | zero => simp [fitsDigits, Binary.tenTo]
  | succ digits ih =>
    have hpos : 0 < Binary.tenTo digits := Nat.pow_pos (by decide)
    have hsucc : Binary.tenTo (digits + 1) = Binary.tenTo digits * 10 := rfl
    rw [fitsDigits, Bool.or_eq_true, decide_eq_true_iff, ih, hsucc]
    omega

/-- A number with one digit more than can be written. -/
def tooLong : Int := Binary.tenTo Text.mostDigits

theorem not_isWritableInt_tooLong : isWritableInt tooLong = false := by
  rw [isWritableInt, tooLong, Int.natAbs_natCast, ← Bool.not_eq_true, fitsDigits_iff]
  exact Nat.lt_irrefl _

/-- A field of a form that has the type `tooLong`. -/
def oddField : Param :=
  ⟨some "f", .str "f", .str "formData", some "String", none, false, .int tooLong, .null⟩

def oddMethod : Method where
  path := "/a"
  verb := "post"
  name := "go"
  params := [oddField]
  response := ⟨some "response", .str "response", .null, some "Void", none, false, .null, .null⟩
  description := .null

/-- An API with a form that has an odd field. -/
def oddForm : ApiModel := ⟨"Clients", [oddMethod], [], []⟩

/-- There is something to be reported about a field of a form, but the check fails without it. -/
theorem refused_without_finding :
    Audit.Reports oddForm.methods oddForm.objects oddForm.enums (.slot 0 (.form 0))
      (Audit.formDataType oddMethod oddField) ∧
    oddForm.findings = .error (.malformed .noNumber) ∧
    ApiModel.checkAll [oddForm] = .error (.malformed .noNumber) := by
  have hreport : Audit.Reports oddForm.methods oddForm.objects oddForm.enums (.slot 0 (.form 0))
      (Audit.formDataType oddMethod oddField) :=
    .slot rfl (.form rfl rfl nofun)
  have hlong : ¬ (Audit.formDataType oddMethod oddField).IsWritable := by
    simp [Audit.Report.IsWritable, Audit.formDataType, oddField, Json.areWritable, Json.isWritable,
      not_isWritableInt_tooLong]
  have hfindings : oddForm.findings = .error (.malformed .noNumber) :=
    Audit.findings_eq_error_iff.2 ⟨⟨_, _, hreport, hlong⟩, rfl⟩
  refine ⟨hreport, hfindings, ApiModel.checkAll_eq_error_iff.2 (.inr ?_)⟩
  exact ApiModel.findingsOfAll_eq_error_iff.2 ⟨_, List.mem_cons_self, hfindings⟩

end ClientForge
