-- SUMMARY: Every superclass named in the model of an API is one of its classes and has what is inherited.
import Mathlib.Data.List.Nodup
import ClientForge.Proofs.Api.Distinct
import ClientForge.Proofs.Api.Starts
import ClientForge.Proofs.Inference.Inheritance
import ClientForge.Proofs.Inference.Lineage
import ClientForge.Proofs.Inference.Reachability

/-!
# Superclasses of an API

The classes of an API come from many calls, of equal ones one is kept, and classes are
linked afterwards, so what a class inherits and what its superclass has are found by
different calls. They agree up to descriptions: a superclass is one of the classes of the
API, with the properties that are inherited from it, and if these have distinct names then
following superclasses never comes back to a class (`superclasses_coherent`).
-/

namespace ClientForge

open Members Outcome Schema Inference

/-- From a class to the one among some models that has the name of its superclass. -/
def Follows (models : List Model) (head base : ClassHead) : Prop :=
  ∃ superclass nested, head.superclass = some superclass ∧ base.name = some superclass ∧
    .object base nested ∈ models

/-! ## The classes of an API -/

/-- A class of some models, found with others by a call that building an API starts. -/
structure Origin (s : Setting) (models : List Model) (c d : Call) (r : Inferred)
    (head : ClassHead) : Prop where
  starts : Starts s c
  returns : Returns s c r
  subset : r.models ⊆ models
  reaches : Reaches s c d
  built : BuiltAt s d head

/-- The same class but for the list of its subclasses. -/
def SameButSubclasses (head head' : ClassHead) : Prop :=
  ∃ subclasses, head' = { head with subclasses }

section
variable {s : Setting} {models objects enums : List Model} {c d : Call} {r : Inferred}
  {head : ClassHead}

/-- The superclass of a class has an origin in the line of the class. -/
theorem Origin.exists_base (hbases : ∀ c, Starts s c → ExtendsObjects s c)
    (h : Origin s models c d r head) {superclass : String}
    (hsuperclass : head.superclass = some superclass) :
    ∃ e base nested, Origin s models c e r base ∧ .object base nested ∈ models ∧
      base.name = some superclass ∧ head.inherited = base.properties ++ base.inherited ∧
      e.trail.lineage = d.line ∧ superclass ∉ d.line := by
  obtain ⟨e, base, nested, hreaches, hbuilt, hmem, hname, hinherited, hline, hfresh⟩ :=
    h.built.exists_base h.starts.wellFormed h.returns (hbases c h.starts) h.reaches
      hsuperclass
  exact ⟨e, base, nested, ⟨h.starts, h.returns, h.subset, hreaches, hbuilt⟩, h.subset hmem, hname,
    hinherited, hline, hfresh⟩

/-- Of each class that is found one is kept that agrees with it. -/
theorem exists_object (hseparate : Assembly.separate (Assembly.distinct models) = .ok (objects, enums))
    {nested : List Model} (h : .object head nested ∈ models) :
    ∃ base nested', .object base nested' ∈ Assembly.linkSubclasses objects ∧ base.Agrees head := by
  have hkept : ∃ kept nested', .object kept nested' ∈ objects ∧ kept.Agrees head := by
    obtain ⟨k, hk, hsame⟩ := Assembly.exists_kept h
    have hobject : ∃ kept nested', k = .object kept nested' ∧ kept.Agrees head := by
      rcases hsame with rfl | hsame
      · exact ⟨head, nested, rfl, head.agrees_self⟩
      · exact Model.exists_agrees hsame
    obtain ⟨kept, nested', rfl, hagrees⟩ := hobject
    refine ⟨kept, nested', ?_, hagrees⟩
    rw [Assembly.separate_eq_ok hseparate]
    exact List.mem_filter.2 ⟨hk, rfl⟩
  obtain ⟨kept, nested', hmem, hagrees⟩ := hkept
  obtain ⟨m, hm, hrelinked⟩ := exists_of_mem_left (Assembly.linkSubclasses_unchanged objects) hmem
  rcases hrelinked with rfl | ⟨_, _, subclasses, heq, rfl⟩
  · exact ⟨kept, nested', hm, hagrees⟩
  · cases heq
    exact ⟨_, _, hm, hagrees.name, hagrees.superclass, hagrees.properties, hagrees.inherited⟩

/-- Linking changes no class but for the list of its subclasses. -/
theorem Inference.AllClasses.relinked {P : ClassHead → Prop} {m m' : Model} (h : AllClasses P m)
    (hrelinked : Assembly.Relinked m m') :
    AllClasses (fun head => ∃ head', P head' ∧ SameButSubclasses head' head) m' := by
  have hself : ∀ head, P head → ∃ head', P head' ∧ SameButSubclasses head' head :=
    fun head hP => ⟨head, hP, head.subclasses, rfl⟩
  rcases hrelinked with rfl | ⟨head, nested, subclasses, rfl, rfl⟩
  · exact h.mono hself
  · cases h with
    | object hhead hnested =>
      exact .object ⟨head, hhead, subclasses, rfl⟩ fun m hm => (hnested m hm).mono hself

/-- Every class of an API has an origin, but for the list of its subclasses. -/
theorem exists_origin {basePath : String} {methods : List BuiltMethod}
    (hmethods : Method.buildAll s basePath = .ok methods)
    (hseparate : Assembly.separate (Assembly.modelsOf methods) = .ok (objects, enums))
    {nested : List Model} (h : Occurs (Assembly.linkSubclasses objects) (.object head nested)) :
    ∃ found, (∃ c d r, Origin s (methods.flatMap (·.models)) c d r found) ∧
      SameButSubclasses found head := by
  have hfound : ∀ m ∈ objects, AllClasses (fun head => ∃ c d r,
      Origin s (methods.flatMap (·.models)) c d r head) m := by
    intro m hm
    rw [Assembly.separate_eq_ok hseparate] at hm
    obtain ⟨c, r, hstarts, hr, hmem, hsubset⟩ :=
      exists_start_of_buildAll hmethods (Assembly.mem_of_mem_distinct (List.mem_of_mem_filter hm))
    refine (builtBy_of_returns hr m hmem).mono ?_
    rintro head ⟨d, hd, hbuilt⟩
    exact ⟨c, d, r, hstarts, hr, hsubset, hd, hbuilt⟩
  have hlinked : ∀ m ∈ Assembly.linkSubclasses objects, AllClasses (fun head => ∃ found,
      (∃ c d r, Origin s (methods.flatMap (·.models)) c d r found) ∧ SameButSubclasses found head) m := by
    intro m hm
    obtain ⟨m', hm', hrelinked⟩ := exists_of_mem_right (Assembly.linkSubclasses_unchanged objects) hm
    exact (hfound m' hm').relinked hrelinked
  cases AllClasses.of_occurs hlinked h with
  | object hhead => exact hhead

/-! ## Following superclasses -/

theorem eq_of_name {models : List Model} (hnodup : (models.map Model.name).Nodup)
    {a b : ClassHead} {as bs : List Model} (ha : .object a as ∈ models) (hb : .object b bs ∈ models)
    (h : a.name = b.name) : a = b := by
  have heq := List.inj_on_of_nodup_map hnodup ha hb h
  cases heq
  rfl

/-- The superclasses of a class that is found are kept with their names, none of them its own. -/
theorem exists_origin_of_follows (hbases : ∀ c, Starts s c → ExtendsObjects s c)
    (hseparate : Assembly.separate (Assembly.distinct models) = .ok (objects, enums))
    (hnodup : ((Assembly.linkSubclasses objects).map Model.name).Nodup) {head' base : ClassHead}
    (horigin : Origin s models c d r head) (hsame : SameButSubclasses head head')
    (h : Relation.TransGen (Follows (Assembly.linkSubclasses objects)) head' base) :
    ∃ e found, Origin s models c e r found ∧ base.Agrees found ∧ d.ownName ∈ e.trail.lineage ∧
      e.ownName ∉ e.trail.lineage := by
  -- A kept class is found by name, so it agrees with the one that the call for it builds.
  have hstep : ∀ {e found cls base}, Origin s models c e r found → cls.superclass = found.superclass →
      Follows (Assembly.linkSubclasses objects) cls base →
      ∃ e' found', Origin s models c e' r found' ∧ base.Agrees found' ∧ e'.trail.lineage = e.line ∧
        e'.ownName ∉ e.line := by
    rintro e found cls base hfound hsuper ⟨superclass, nested, hsuperclass, hname, hmem⟩
    obtain ⟨e', found', nested', horigin', hmem', hname', -, hline, hfresh⟩ :=
      hfound.exists_base hbases (hsuper ▸ hsuperclass)
    obtain ⟨kept, keptNested, hkept, hagrees⟩ := exists_object hseparate hmem'
    cases eq_of_name hnodup hmem hkept (hname.trans (hagrees.name.trans hname').symm)
    have hown : e'.ownName = superclass :=
      Option.some.inj (horigin'.built.name_eq.symm.trans hname')
    exact ⟨e', found', horigin', hagrees, hline, hown ▸ hfresh⟩
  obtain ⟨subclasses, rfl⟩ := hsame
  induction h with
  | single hfollows =>
    obtain ⟨e, found, hfound, hagrees, hline, hfresh⟩ := hstep horigin rfl hfollows
    refine ⟨e, found, hfound, hagrees, ?_, hline ▸ hfresh⟩
    rw [hline]
    exact List.mem_append_right _ List.mem_cons_self
  | tail _ hfollows ih =>
    obtain ⟨e, found, hfound, hagrees, hmem, -⟩ := ih
    obtain ⟨e', found', hfound', hagrees', hline, hfresh⟩ :=
      hstep hfound hagrees.superclass hfollows
    refine ⟨e', found', hfound', hagrees', ?_, hline ▸ hfresh⟩
    rw [hline]
    exact List.mem_append_left _ hmem

end

/-- If all schemas that classes extend are objects, the classes of an API are coherent, however
deep they are nested: each takes its own properties and those that it inherits, none of them
twice; its superclass is a class of the API and has what it inherits; and if the classes of the
API have distinct names, following superclasses never comes back to its name. -/
theorem superclasses_coherent {types : TypeTable} {document : Document} {name basePath : String}
    {api : ApiModel} (hbuild : ApiModel.build types document name basePath = .ok api)
    (hbases : ∀ c, Starts ⟨document, types⟩ c → ExtendsObjects ⟨document, types⟩ c)
    {head : ClassHead} {nested : List Model} (h : Occurs api.objects (.object head nested)) :
    head.initializer = head.properties ++ head.inherited ∧
      (∀ p ∈ head.properties, ∀ q ∈ head.inherited, p.sameShape q = false) ∧
      (head.superclass = none → head.inherited = []) ∧
      (∀ superclass, head.superclass = some superclass →
        ∃ base nested, .object base nested ∈ api.objects ∧ base.name = some superclass ∧
          sameLists Property.same (base.properties ++ base.inherited) head.inherited = true) ∧
      ((api.objects.map Model.name).Nodup →
        ∀ base, Relation.TransGen (Follows api.objects) head base → base.name ≠ head.name) := by
  obtain ⟨base, -, hbuild⟩ := bind_eq_ok.1 hbuild
  obtain ⟨methods, hmethods, hbuild⟩ := bind_eq_ok.1 hbuild
  obtain ⟨⟨objects, enums⟩, hseparate, hbuild⟩ := bind_eq_ok.1 hbuild
  cases hbuild
  obtain ⟨found, ⟨c, d, r, horigin⟩, hsame⟩ := exists_origin hmethods hseparate h
  obtain ⟨subclasses, rfl⟩ := hsame
  refine ⟨horigin.built.initializer, horigin.built.not_sameShape, horigin.built.inherited_of_none,
    fun superclass hsuperclass => ?_, fun hnodup base hfollows heq => ?_⟩
  · obtain ⟨e, base, nested, -, hmem, hname, hinherited, -, -⟩ :=
      horigin.exists_base hbases hsuperclass
    obtain ⟨kept, nested', hkept, hagrees⟩ := exists_object hseparate hmem
    refine ⟨kept, nested', hkept, hagrees.name.trans hname, ?_⟩
    rw [hinherited]
    exact sameLists_append hagrees.properties hagrees.inherited
  · obtain ⟨e, found', hfound', hagrees, hmem, hfresh⟩ :=
      exists_origin_of_follows hbases hseparate hnodup horigin ⟨subclasses, rfl⟩ hfollows
    have hnames : some e.ownName = some d.ownName := by
      rw [← hfound'.built.name_eq, ← horigin.built.name_eq, ← hagrees.name, heq]
    exact hfresh (Option.some.inj hnames ▸ hmem)

/-! ## An API with a class that extends another one -/

def catResponse : Members := [("schema", catRef)]

def listCats : Members :=
  [("operationId", .str "listCats"), ("responses", .obj [("200", .obj catResponse)])]

def shelterDocument : Document where
  members :=
    [("paths", .obj [("/cats", .obj [("get", .obj listCats)])]),
      ("definitions", .obj [("Pet", .obj petMembers), ("Cat", .obj catMembers)])]

def shelter : Setting := ⟨shelterDocument, Language.swiftTypes⟩

theorem settle_shelterCat : settle shelterDocument catRef = .ok (some petRef, catProperties) := by
  have hfollowed : followRefs shelterDocument catRef .null = .ok catMembers := by
    cbv
  have hresolved : flatten shelterDocument catRef (.str "#/definitions/Pet") = .ok catProperties := by
    rfl
  exact settle_eq_ok.2 ⟨_, hfollowed, rfl, hresolved⟩

theorem settle_shelterPet : settle shelterDocument petRef = .ok (none, petMembers) := by
  cbv

theorem mem_of_comesTo_cat {v : Json} (h : ComesTo shelterDocument catRef v) :
    v = catRef ∨ v = petRef ∨ v = .obj [("type", .str "integer")] ∨
      v = .obj [("type", .str "string")] := by
  induction h with
  | refl => exact .inl rfl
  | tail _ hstep ih =>
    rcases ih with rfl | rfl | rfl | rfl
    · rcases hstep.of_object settle_shelterCat rfl with h | ⟨properties, m, hproperties, hm, rfl⟩
      · cases h
        exact .inr (.inl rfl)
      · cases hproperties
        cases List.mem_singleton.1 hm
        exact .inr (.inr (.inl rfl))
    · rcases hstep.of_object settle_shelterPet rfl with h | ⟨properties, m, hproperties, hm, rfl⟩
      · cases h
      · cases hproperties
        cases List.mem_singleton.1 hm
        exact .inr (.inr (.inr rfl))
    · exact absurd hstep (not_leadsTo_of_primitive rfl rfl)
    · exact absurd hstep (not_leadsTo_of_primitive rfl rfl)

/-- Of the schemas that a cat comes to only the cat itself extends another one. -/
theorem isBase_of_comesTo_cat {schema branch : Json} (h : ComesTo shelterDocument catRef schema)
    (hbase : IsBase shelterDocument schema branch) : branch = petRef := by
  have hplain : ∀ {ms : Members}, settle shelterDocument (.obj ms) = .ok (none, ms) →
      ¬ IsBase shelterDocument (.obj ms) branch := by
    intro ms hsettle hbase
    cases (isBase_iff_of_settle hsettle).1 hbase
  rcases mem_of_comesTo_cat h with rfl | rfl | rfl | rfl
  · exact (Option.some.inj ((isBase_iff_of_settle settle_shelterCat).1 hbase)).symm
  · cases (isBase_iff_of_settle settle_shelterPet).1 hbase
  · exact absurd hbase (hplain rfl)
  · exact absurd hbase (hplain rfl)

theorem schema_of_starts_shelter {c : Call} (h : Starts shelter c) : c.schema = catRef := by
  have hpaths : (Document.paths shelterDocument).members =
      .ok [("/cats", .obj [(.text "get", .obj listCats)])] := rfl
  obtain ⟨name, raw, -, hraw, resolved, spoken, hresolved, -, rfl⟩ :=
    h.of_single hpaths rfl (by decide)
  cases hraw
  cases hresolved
  rfl

theorem extendsObjects_shelter {c : Call} (h : Starts shelter c) : ExtendsObjects shelter c := by
  rintro branch ref ⟨d, hd, -, -, hbase, -⟩
  have hcomes : ComesTo shelterDocument catRef d.schema :=
    schema_of_starts_shelter h ▸ Reaches.comesTo hd
  rw [isBase_of_comesTo_cat hcomes hbase]
  change kindFound shelterDocument petRef = _
  rw [kindFound_of_settle settle_shelterPet]
  rfl

theorem build_shelter : ∃ api head nested,
    ApiModel.build Language.swiftTypes shelterDocument "Shelter" "" = .ok api ∧
      .object head nested ∈ api.objects ∧ head.superclass = some "Pet" := by
  have hbuilds : ((ApiModel.build Language.swiftTypes shelterDocument "Shelter" "").toOption.any
      fun api => api.objects.any fun m => (Assembly.subclassOf (some "Pet") m).isSome) = true := by
    decide +kernel
  obtain ⟨api, hbuild, hany⟩ := exists_ok_of_any hbuilds
  obtain ⟨m, hm, hsubclass⟩ := List.any_eq_true.1 hany
  cases m with
  | object head nested =>
    refine ⟨api, head, nested, hbuild, hm, ?_⟩
    by_contra hne
    simp [Assembly.subclassOf, hne] at hsubclass
  | enumeration | property => cases hsubclass

theorem superclasses_coherent_shelter :
    ∃ api head nested, ApiModel.build Language.swiftTypes shelterDocument "Shelter" "" = .ok api ∧
      .object head nested ∈ api.objects ∧ head.superclass = some "Pet" ∧
      head.initializer = head.properties ++ head.inherited ∧
      (∀ p ∈ head.properties, ∀ q ∈ head.inherited, p.sameShape q = false) ∧
      (head.superclass = none → head.inherited = []) ∧
      (∀ superclass, head.superclass = some superclass →
        ∃ base nested, .object base nested ∈ api.objects ∧ base.name = some superclass ∧
          sameLists Property.same (base.properties ++ base.inherited) head.inherited = true) ∧
      ((api.objects.map Model.name).Nodup →
        ∀ base, Relation.TransGen (Follows api.objects) head base → base.name ≠ head.name) := by
  obtain ⟨api, head, nested, hbuild, hmem, hsuperclass⟩ := build_shelter
  exact ⟨api, head, nested, hbuild, hmem, hsuperclass,
    superclasses_coherent hbuild (fun _ => extendsObjects_shelter) (.top hmem)⟩

end ClientForge
