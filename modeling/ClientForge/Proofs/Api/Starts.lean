-- SUMMARY: Which schemas the methods of a document are inferred from, and that their models come from there.
import ClientForge.Api.Assembly
import ClientForge.Proofs.Inference.Calls

/-!
# Where inference starts

Building the methods of a document infers the schema of every parameter and of every
response that is chosen (`Starts`), each on its own. All models of the methods come from
there (`exists_start_of_buildAll`), and a method has all models of each schema that it
infers. The schemas have distinct keys if the document has (`Starts.wellFormed`). If all
methods can be built, every such call returns (`returns_of_starts`).
-/

namespace ClientForge

open Members Outcome Schema Inference

/-! ## Parameters -/

/-- The call by which the value of a parameter or a response is inferred. -/
def Param.Starts (s : Setting) (methodName : String) (raw : Json) (c : Call) : Prop :=
  ∃ resolved spoken, flatten s.document raw .null = .ok resolved ∧
    (Param.serverNameOf (ParamSpec.ofMembers resolved)).shown = .ok spoken ∧
    c = ⟨⟨[], []⟩, Name.ofClass [methodName, spoken], (ParamSpec.ofMembers resolved).schema⟩

section
variable {s : Setting} {c : Call}

theorem exists_start_of_param {methodName : String} {raw : Json} {built : Param × List Model}
    (h : Param.build s methodName raw = .ok built) :
    ∃ c r, Param.Starts s methodName raw c ∧ Returns s c r ∧ r.models = built.2 := by
  unfold Param.build at h
  simp only [bind_eq_ok, pure_eq, Except.ok.injEq] at h
  obtain ⟨resolved, hresolved, spoken, hspoken, r, hr, schemaType, -, rfl⟩ := h
  exact ⟨_, r, ⟨resolved, spoken, hresolved, hspoken, rfl⟩, ⟨maxNesting, hr⟩, rfl⟩

variable {P : Json → Prop}

theorem preserves_schema (hP : Stable P) {ms : Members} (h : P (.obj ms)) :
    P (ParamSpec.ofMembers ms).schema := by
  unfold ParamSpec.ofMembers
  dsimp only
  cases hget : get? ms "schema" with
  | none => exact hP.filter (fun k => decide (k ∉ ParamSpec.ownKeys)) h
  | some v => exact hP.orElse (hP.lookup h hget)

theorem Param.Starts.preserves (hP : Stable P) {methodName : String} {raw : Json}
    (hdoc : P (.obj s.document)) (hraw : P raw) (h : Param.Starts s methodName raw c) :
    P c.schema := by
  obtain ⟨resolved, spoken, hresolved, -, rfl⟩ := h
  exact preserves_schema hP (hP.resolve hdoc hraw hresolved)

/-! ## Methods -/

/-- A parameter of a method, one of those shared by a path or its own, or its response. -/
inductive Method.Specifies (pathParams : Json) (operation : Members) : Json → Prop
  | shared {entries : List Json} {raw : Json} (h : Method.entriesOf pathParams = .ok entries)
    (hraw : raw ∈ entries) : Specifies pathParams operation raw
  | listed {entries : List Json} {raw : Json}
    (h : Method.entriesOf (Members.get operation "parameters") = .ok entries)
    (hraw : raw ∈ entries) : Specifies pathParams operation raw
  | response {raw : Json} (h : Method.selectResponse (Members.get operation "responses") = .ok raw) :
    Specifies pathParams operation raw

/-- The calls that building the method of an operation starts. -/
def Method.Starts (s : Setting) (path : Key) (pathParams : Json) (verb : String)
    (operation : Members) (c : Call) : Prop :=
  ∃ name raw, Method.nameOf operation path verb = .ok name ∧
    Method.Specifies pathParams operation raw ∧ Param.Starts s name raw c

theorem exists_start_of_operation {path : Key} {pathParams : Json} {basePath verb : String}
    {operation : Members} {built : BuiltMethod}
    (h : Method.ofOperation s path pathParams basePath verb operation = .ok built) {m : Model}
    (hm : m ∈ built.models) :
    ∃ c r, Method.Starts s path pathParams verb operation c ∧ Returns s c r ∧ m ∈ r.models ∧
      r.models ⊆ built.models := by
  unfold Method.ofOperation at h
  simp only [bind_eq_ok, pure_eq, Except.ok.injEq] at h
  obtain ⟨name, hname, shared, hshared, listed, hlisted, params, hparams, chosen, hchosen, response,
    hresponse, part, -, rfl⟩ := h
  rcases List.mem_append.1 hm with hm | hm
  · obtain ⟨param, hparam, hm⟩ := List.mem_flatMap.1 hm
    obtain ⟨raw, hraw, hbuild⟩ := exists_of_mem_right (mapM_eq_ok.1 hparams) hparam
    obtain ⟨c, r, hstarts, hr, hmodels⟩ := exists_start_of_param hbuild
    have hspecifies : Method.Specifies pathParams operation raw :=
      (List.mem_append.1 hraw).elim (.shared hshared) (.listed hlisted)
    refine ⟨c, r, ⟨name, raw, hname, hspecifies, hstarts⟩, hr, hmodels ▸ hm, fun m' hm' => ?_⟩
    exact List.mem_append_left _ (List.mem_flatMap.2 ⟨param, hparam, hmodels ▸ hm'⟩)
  · obtain ⟨c, r, hstarts, hr, hmodels⟩ := exists_start_of_param hresponse
    refine ⟨c, r, ⟨name, chosen, hname, .response hchosen, hstarts⟩, hr, hmodels ▸ hm, fun m' hm' => ?_⟩
    exact List.mem_append_right _ (hmodels ▸ hm')

theorem preserves_entriesOf (hP : Stable P) {v : Json} {entries : List Json} (h : P v)
    (hentries : Method.entriesOf v = .ok entries) : ∀ e ∈ entries, P e := by
  unfold Method.entriesOf at hentries
  split at hentries
  · exact hP.of_entries h hentries
  · cases hentries
    exact List.forall_mem_nil _

theorem mem_of_firstOfClass {digit : Char} {rs : Members} {response : Json}
    (h : Method.firstOfClass digit rs = .ok (some response)) : ∃ m ∈ rs, m.2 = response := by
  induction rs with
  | nil => cases h
  | cons m rs ih =>
    obtain ⟨shown, -, h⟩ := bind_eq_ok.1 h
    split at h
    · cases h
      exact ⟨m, List.mem_cons_self, rfl⟩
    · obtain ⟨m', hm', hresponse⟩ := ih h
      exact ⟨m', List.mem_cons_of_mem _ hm', hresponse⟩

theorem preserves_selectResponse (hP : Stable P) {v raw : Json} (h : P v)
    (hraw : Method.selectResponse v = .ok raw) : P raw := by
  unfold Method.selectResponse at hraw
  obtain ⟨rs, hrs, hraw⟩ := bind_eq_ok.1 hraw
  have hmembers : P (.obj rs) := Stable.of_members (hP.orElse h) hrs
  have hresponse : ∀ {digit response}, Method.firstOfClass digit rs = .ok (some response) →
      P response := by
    intro digit response hfirst
    obtain ⟨m, hm, rfl⟩ := mem_of_firstOfClass hfirst
    exact hP.member hmembers hm
  obtain ⟨first, hfirst, hraw⟩ := bind_eq_ok.1 hraw
  cases first with
  | some response =>
    cases hraw
    exact hP.orElse (hresponse hfirst)
  | none =>
    obtain ⟨second, hsecond, hraw⟩ := bind_eq_ok.1 hraw
    cases hraw
    cases second with
    | some response => exact hP.orElse (hresponse hsecond)
    | none => exact hP.orElse (hP.get hmembers _)

theorem Method.Starts.preserves (hP : Stable P) {path : Key} {pathParams : Json} {verb : String}
    {operation : Members} (hdoc : P (.obj s.document)) (hpath : P pathParams)
    (hoperation : P (.obj operation)) (h : Method.Starts s path pathParams verb operation c) :
    P c.schema := by
  obtain ⟨name, raw, -, hspecifies, hstarts⟩ := h
  refine hstarts.preserves hP hdoc ?_
  cases hspecifies with
  | shared hentries hraw => exact preserves_entriesOf hP hpath hentries raw hraw
  | listed hentries hraw => exact preserves_entriesOf hP (hP.get hoperation _) hentries raw hraw
  | response hraw => exact preserves_selectResponse hP (hP.get hoperation _) hraw

/-! ## Documents -/

/-- The calls that building the methods of a document starts. -/
inductive Starts (s : Setting) (c : Call) : Prop
  | intro {items members operation : Members} {path : Key} {item : Json} {verb : String}
    (hitems : (Document.paths s.document).members = .ok items) (hitem : (path, item) ∈ items)
    (hmembers : (item.orElse (.obj [])).members = .ok members) (hverb : verb ∈ Method.verbs)
    (htruthy : (Members.get members (.text verb)).truthy = true)
    (hoperation : (Members.get members (.text verb)).members = .ok operation)
    (hstarts : Method.Starts s path (Members.get members "parameters") verb operation c) : Starts s c

/-- What a document and the values in it have in common the schemas have where inference starts. -/
theorem Starts.preserves (hP : Stable P) (hdoc : P (.obj s.document)) (h : Starts s c) :
    P c.schema := by
  cases h with
  | @intro items members operation path item verb hitems hitem hmembers _ _ hoperation hstarts =>
    have hpaths : P (.obj items) := Stable.of_members (hP.orElse (hP.get hdoc _)) hitems
    have hitem' : P (.obj members) :=
      Stable.of_members (hP.orElse (hP.member hpaths hitem)) hmembers
    exact hstarts.preserves hP hdoc (hP.get hitem' _)
      (Stable.of_members (hP.get hitem' _) hoperation)

theorem Starts.wellFormed (h : Starts s c) :
    c.schema.WellFormed :=
  h.preserves stable_wellFormed s.document.wellFormed

/-- Nothing is under construction where inference starts. -/
theorem Starts.visiting (h : Starts s c) : c.trail.visiting = [] := by
  obtain ⟨-, -, -, -, -, -, hstarts⟩ := h
  obtain ⟨_, _, -, -, _, _, -, -, rfl⟩ := hstarts
  rfl

/-- A document with one operation, without parameters, starts the call for its response. -/
theorem Starts.of_single {path : Key} {verb : String} {operation : Members}
    (hpaths : (Document.paths s.document).members = .ok [(path, .obj [(.text verb, .obj operation)])])
    (hparams : get? operation "parameters" = none) (hverb : verb ≠ "parameters") (h : Starts s c) :
    ∃ name raw, Method.nameOf operation path verb = .ok name ∧
      Method.selectResponse (Members.get operation "responses") = .ok raw ∧
      Param.Starts s name raw c := by
  obtain @⟨items, members, operation', path', item, verb', hitems, hitem, hmembers, -, htruthy,
    hoperation, name, raw, hname, hspecifies, hstarts⟩ := h
  cases hpaths.symm.trans hitems
  cases List.mem_singleton.1 hitem
  cases hmembers
  have hmeaning : ∀ {key : String}, (Key.text verb).meaning = (Key.text key).meaning ↔ verb = key := by
    simp [Key.meaning]
  have heq : verb' = verb := by
    by_contra hne
    have hother : ¬ (Key.text verb).meaning = (Key.text verb').meaning :=
      fun h => hne (hmeaning.1 h).symm
    simp [Members.get, get?, hother, Json.truthy] at htruthy
  subst heq
  have hown : (Members.get [(.text verb', .obj operation)] (.text verb')).members = .ok operation := by
    simp [Members.get, get?, Json.members]
  cases hown.symm.trans hoperation
  have hnone : Method.entriesOf .null = .ok [] := rfl
  refine ⟨name, raw, hname, ?_, hstarts⟩
  cases hspecifies with
  | response hraw => exact hraw
  | shared hentries hraw =>
    have hshared : Members.get [(.text verb', .obj operation)] "parameters" = .null := by
      simp [Members.get, get?, hmeaning.not.2 hverb]
    rw [hshared] at hentries
    cases hnone.symm.trans hentries
    cases hraw
  | listed hentries hraw =>
    rw [Members.get, hparams] at hentries
    cases hnone.symm.trans hentries
    cases hraw

/-- What the method of a path is built from. -/
theorem exists_operation_of_pathItem {basePath : String} {path : Key} {item : Json} {built : BuiltMethod}
    (h : .ok built ∈ Method.ofPathItem s basePath path item) :
    ∃ members verb operation, (item.orElse (.obj [])).members = .ok members ∧ verb ∈ Method.verbs ∧
      (Members.get members (.text verb)).truthy = true ∧
      (Members.get members (.text verb)).members = .ok operation ∧
      Method.ofOperation s path (Members.get members "parameters") basePath verb operation =
        .ok built := by
  unfold Method.ofPathItem at h
  split at h
  · cases List.mem_singleton.1 h
  · rename_i members hmembers
    obtain ⟨verb, hverb, h⟩ := List.mem_filterMap.1 h
    split at h
    · cases h
    · rename_i built' hbuild
      cases h
      unfold Method.build at hbuild
      split at hbuild
      · rename_i htruthy
        obtain ⟨operation, hoperation, hbuild⟩ := bind_eq_ok.1 hbuild
        obtain ⟨built', hbuild, heq⟩ := bind_eq_ok.1 hbuild
        cases heq
        exact ⟨members, verb, operation, hmembers, hverb, htruthy, hoperation, hbuild⟩
      · cases hbuild
    · cases h

theorem exists_operation_of_attempts {basePath : String} {built : BuiltMethod}
    (h : .ok built ∈ Method.attempts s basePath) :
    ∃ items path item members verb operation,
      (Document.paths s.document).members = .ok items ∧ (path, item) ∈ items ∧
      (item.orElse (.obj [])).members = .ok members ∧ verb ∈ Method.verbs ∧
      (Members.get members (.text verb)).truthy = true ∧
      (Members.get members (.text verb)).members = .ok operation ∧
      Method.ofOperation s path (Members.get members "parameters") basePath verb operation =
        .ok built := by
  unfold Method.attempts at h
  split at h
  · cases List.mem_singleton.1 h
  · rename_i items hitems
    obtain ⟨⟨path, item⟩, hitem, h⟩ := List.mem_flatMap.1 h
    obtain ⟨members, verb, operation, hoperation⟩ := exists_operation_of_pathItem h
    exact ⟨items, path, item, members, verb, operation, hitems, hitem, hoperation⟩

/-- Every model of the methods is inferred by a call that building them starts, with all that
the call returns. -/
theorem exists_start_of_buildAll {basePath : String} {methods : List BuiltMethod}
    (h : Method.buildAll s basePath = .ok methods) {m : Model}
    (hm : m ∈ methods.flatMap (·.models)) :
    ∃ c r, Starts s c ∧ Returns s c r ∧ m ∈ r.models ∧ r.models ⊆ methods.flatMap (·.models) := by
  obtain ⟨unsorted, hunsorted, h⟩ := bind_eq_ok.1 h
  cases h
  obtain ⟨built, hbuilt, hm⟩ := List.mem_flatMap.1 hm
  obtain ⟨attempt, hattempt, hok⟩ :=
    exists_of_mem_right (mapM_eq_ok.1 hunsorted) (List.mem_mergeSort.1 hbuilt)
  cases hok
  obtain ⟨items, path, item, members, verb, operation, hitems, hitem, hmembers, hverb, htruthy,
    hoperation, hbuild⟩ := exists_operation_of_attempts hattempt
  obtain ⟨c, r, hstarts, hr, hmem, hmodels⟩ := exists_start_of_operation hbuild hm
  refine ⟨c, r, .intro hitems hitem hmembers hverb htruthy hoperation hstarts, hr, hmem, fun m' hm' => ?_⟩
  exact List.mem_flatMap.2 ⟨built, hbuilt, hmodels hm'⟩

/-! ## What is started returns -/

/-- What the model of an API is made of. -/
theorem exists_methods_of_build {api : ApiModel} {name basePath : String}
    (h : ApiModel.build s.types s.document name basePath = .ok api) :
    ∃ base methods objects enums, Method.buildAll s base = .ok methods ∧
      Assembly.separate (Assembly.modelsOf methods) = .ok (objects, enums) ∧
      api = ⟨name, methods.map (·.method), Assembly.linkSubclasses objects, enums⟩ := by
  obtain ⟨base, -, h⟩ := bind_eq_ok.1 h
  obtain ⟨methods, hmethods, h⟩ := bind_eq_ok.1 h
  obtain ⟨⟨objects, enums⟩, hseparate, h⟩ := bind_eq_ok.1 h
  cases h
  exact ⟨base, methods, objects, enums, hmethods, hseparate, rfl⟩

/-- An API whose methods are found in the order of their paths can be tested without sorting them. -/
theorem exists_build_of_sorted (name : String) (test : ApiModel → Bool) {basePath base : String}
    (hbase : Assembly.fullBasePath s.document basePath = .ok base)
    (h : (((Method.attempts s base).mapM id).toOption.any fun methods =>
      decide (methods.Pairwise fun a b => Method.byPath a b = true) &&
        (Assembly.ofMethods name methods).toOption.any test) = true) :
    ∃ api, ApiModel.build s.types s.document name basePath = .ok api ∧ test api = true := by
  obtain ⟨methods, hmethods, h⟩ := exists_ok_of_any h
  obtain ⟨hsorted, h⟩ := Bool.and_eq_true_iff.1 h
  obtain ⟨api, hapi, htest⟩ := exists_ok_of_any h
  have hbuilt : Method.buildAll s base = .ok methods := by
    rw [Method.buildAll, hmethods, ok_bind, List.mergeSort_of_pairwise (of_decide_eq_true hsorted)]
    rfl
  exact ⟨api, by rw [ApiModel.build, hbase, ok_bind, hbuilt, ok_bind, hapi], htest⟩

theorem returns_of_param {methodName : String} {raw : Json} {built : Param × List Model}
    (h : Param.build s methodName raw = .ok built) (hc : Param.Starts s methodName raw c) :
    ∃ r, Returns s c r ∧ r.models = built.2 := by
  obtain ⟨resolved, spoken, hresolved, hspoken, rfl⟩ := hc
  unfold Param.build at h
  simp only [hresolved, hspoken, ok_bind, bind_eq_ok, pure_eq, Except.ok.injEq] at h
  obtain ⟨r, hr, schemaType, -, rfl⟩ := h
  exact ⟨r, ⟨maxNesting, hr⟩, rfl⟩

theorem returns_of_operation {path : Key} {pathParams : Json} {basePath verb : String}
    {operation : Members} {built : BuiltMethod}
    (h : Method.ofOperation s path pathParams basePath verb operation = .ok built)
    (hc : Method.Starts s path pathParams verb operation c) :
    ∃ r, Returns s c r ∧ r.models ⊆ built.models := by
  obtain ⟨name, raw, hname, hspecifies, hstarts⟩ := hc
  unfold Method.ofOperation at h
  simp only [hname, ok_bind, bind_eq_ok, pure_eq, Except.ok.injEq] at h
  obtain ⟨shared, hshared, listed, hlisted, params, hparams, chosen, hchosen, response, hresponse, part,
    -, rfl⟩ := h
  have hparam : raw ∈ shared ++ listed → ∃ r, Returns s c r ∧
      r.models ⊆ params.flatMap (·.2) ++ response.2 := by
    intro hraw
    obtain ⟨param, hmem, hbuild⟩ := exists_of_mem_left (mapM_eq_ok.1 hparams) hraw
    obtain ⟨r, hr, hmodels⟩ := returns_of_param hbuild hstarts
    refine ⟨r, hr, fun m hm => List.mem_append_left _ (List.mem_flatMap.2 ⟨param, hmem, hmodels ▸ hm⟩)⟩
  cases hspecifies with
  | shared hentries hraw =>
    cases hshared.symm.trans hentries
    exact hparam (List.mem_append_left _ hraw)
  | listed hentries hraw =>
    cases hlisted.symm.trans hentries
    exact hparam (List.mem_append_right _ hraw)
  | response hraw =>
    cases hchosen.symm.trans hraw
    obtain ⟨r, hr, hmodels⟩ := returns_of_param hresponse hstarts
    exact ⟨r, hr, fun m hm => List.mem_append_right _ (hmodels ▸ hm)⟩

/-- Once all methods are built, every call that building them starts has returned, and all its
models are among theirs. -/
theorem returns_of_starts {basePath : String} {methods : List BuiltMethod}
    (h : Method.buildAll s basePath = .ok methods) (hc : Starts s c) :
    ∃ r, Returns s c r ∧ r.models ⊆ methods.flatMap (·.models) := by
  obtain ⟨unsorted, hunsorted, h⟩ := bind_eq_ok.1 h
  cases h
  obtain @⟨items, members, operation, path, item, verb, hitems, hitem, hmembers, hverb, htruthy,
    hoperation, hstarts⟩ := hc
  have hattempt : ∀ result, Method.ofOperation s path (Members.get members "parameters") basePath verb
      operation = result → result ∈ Method.attempts s basePath := by
    intro result hresult
    unfold Method.attempts
    rw [hitems]
    refine List.mem_flatMap.2 ⟨(path, item), hitem, ?_⟩
    unfold Method.ofPathItem
    rw [hmembers]
    refine List.mem_filterMap.2 ⟨verb, hverb, ?_⟩
    unfold Method.build
    rw [if_pos htruthy, hoperation, ok_bind, hresult]
    cases result <;> rfl
  obtain ⟨built, hbuilt, hbuild⟩ := exists_of_mem_left (mapM_eq_ok.1 hunsorted) (hattempt _ rfl)
  obtain ⟨r, hr, hmodels⟩ := returns_of_operation hbuild hstarts
  refine ⟨r, hr, fun m hm => List.mem_flatMap.2 ⟨built, ?_, hmodels hm⟩⟩
  exact List.mem_mergeSort.2 hbuilt

end

end ClientForge
