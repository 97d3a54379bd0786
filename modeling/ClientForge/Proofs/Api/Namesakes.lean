-- SUMMARY: Definitions of one class name that an API is built from are equal up to descriptions or reported.
import ClientForge.Proofs.Api.Starts
import ClientForge.Proofs.Audit.Findings
import ClientForge.Proofs.Inference.Independence

/-!
# Namesakes

References that are spelled differently can name one class. Of the models that are built for
such a class one is kept, or the audit reports that two have one name: all that are built are
equal up to descriptions (`same_of_built`). But a reference is not followed while a class of
its name is under construction, whatever it points at, so a definition that is met only there
is not built at all and nothing is compared with it (`conflated_below_namesake`). If no
reference leads to another one of its class name, every definition is built
(`Names.exists_builds`), and what it is inferred to be on its own is what is built
(`namesakes_same`).
-/

namespace ClientForge

open Members Outcome Schema Inference

/-! ## Models of one name -/

/-- The first models of two results are equal up to descriptions. -/
def FirstSame (r r' : Inferred) : Prop :=
  ∃ m m', r.models.head? = some m ∧ r'.models.head? = some m' ∧ m.same m' = true

instance (r r' : Inferred) : Decidable (FirstSame r r') :=
  decidable_of_iff ((r.models.head?.any fun m => r'.models.head?.any m.same) = true)
    (by simp [FirstSame, Option.any_eq_true])

/-- Models of one name are equal up to descriptions if those that are kept have distinct names. -/
theorem same_of_name {models objects enums : List Model} (hwf : ∀ m ∈ models, m.WellFormed)
    (hseparate : Assembly.separate (Assembly.distinct models) = .ok (objects, enums))
    (hnodup : ((objects ++ enums).map Model.name).Nodup) {m m' : Model} (hm : m ∈ models)
    (hm' : m' ∈ models) (hname : m.name = m'.name) : m.same m' = true := by
  have hkept : ∀ m ∈ models, ∃ k ∈ Assembly.distinct models, k.same m = true := by
    intro m hm
    obtain ⟨k, hk, rfl | hsame⟩ := Assembly.exists_kept hm
    · exact ⟨k, hk, Model.same_self (hwf k hm)⟩
    · exact ⟨k, hk, hsame⟩
  obtain ⟨k, hk, hsame⟩ := hkept m hm
  obtain ⟨k', hk', hsame'⟩ := hkept m' hm'
  have hnames : k.name = k'.name :=
    (Model.name_of_same hsame).trans (hname.trans (Model.name_of_same hsame').symm)
  have hperm := Assembly.perm_of_separate hseparate
  cases List.inj_on_of_nodup_map hnodup (hperm.mem_iff.2 hk) (hperm.mem_iff.2 hk') hnames
  have hback := Model.same_symm (hwf k (Assembly.mem_of_mem_distinct hk)) (hwf m hm) hsame
  exact Model.same_trans (hwf m hm) hback hsame'

/-! ## Built definitions -/

/-- A class or an enumeration. -/
def IsModelled (s : Setting) (schema : Json) : Prop :=
  kindFound s.document schema = .ok .object ∨ kindFound s.document schema = .ok .enumeration

/-- A call, made in building an API, that follows a reference to a class or an enumeration. -/
structure Builds (s : Setting) (n : String) (d : Call) : Prop where
  reached : ∃ c, Starts s c ∧ Reaches s c d
  className : d.className? = some n
  fresh : ∀ n, ¬ d.IsPlaceholder n
  modelled : IsModelled s d.schema

/-- A schema that building an API comes to. -/
def Met (s : Setting) (v : Json) : Prop := ∃ c, Starts s c ∧ ComesTo s.document c.schema v

/-- A reference to a class or an enumeration that building an API comes to. -/
structure Names (s : Setting) (n : String) (v : Json) : Prop where
  met : Met s v
  className : classNameOf v = some n
  modelled : IsModelled s v

/-- No reference leads to another one of its class name, one that leads to itself is to an object,
and what a class extends is no array and no map. -/
structure Unambiguous (s : Setting) : Prop where
  one : ∀ v w n, Met s v → classNameOf v = some n → classNameOf w = some n →
    Relation.TransGen (LeadsTo s.document) v w → w = v
  object : ∀ v n, Met s v → classNameOf v = some n → Relation.TransGen (LeadsTo s.document) v v →
    kindFound s.document v = .ok .object
  base : ∀ v b ref, Met s v → kindFound s.document v = .ok .object → IsBase s.document v b →
    (baseRef (some b)).text = .ok ref →
    kindFound s.document b ≠ .ok .array ∧ kindFound s.document b ≠ .ok .map

section
variable {s : Setting} {n : String} {c d : Call} {v : Json} {r : Inferred}
  {methods : List BuiltMethod} {basePath : String}

theorem wellFormed_of_buildAll (hmethods : Method.buildAll s basePath = .ok methods) :
    ∀ m ∈ methods.flatMap (·.models), m.WellFormed := by
  intro m hm
  obtain ⟨c, r, hstarts, hr, hmem, -⟩ := exists_start_of_buildAll hmethods hm
  exact wellFormed_of_returns hstarts.wellFormed hr m hmem

theorem Builds.exists_returns (hmethods : Method.buildAll s basePath = .ok methods)
    (h : Builds s n d) : ∃ r, Returns s d r := by
  obtain ⟨c, hstarts, hreaches⟩ := h.reached
  obtain ⟨found, hfound, -⟩ := returns_of_starts hmethods hstarts
  exact hreaches.returns hfound

/-- The first model of a definition that is built is one of the models of the methods. -/
theorem Builds.exists_model (hmethods : Method.buildAll s basePath = .ok methods) (h : Builds s n d)
    (hr : Returns s d r) :
    ∃ m, r.models.head? = some m ∧ m.name = some n ∧ m ∈ methods.flatMap (·.models) := by
  obtain ⟨c, hstarts, hreaches⟩ := h.reached
  obtain ⟨m, rest, hmodels, hname⟩ := exists_named_model h.fresh hr h.modelled
  obtain ⟨found, hfound, hsubset⟩ := returns_of_starts hmethods hstarts
  have hmem := models_of_reaches hstarts.wellFormed hreaches hfound hr
    (isInlineObject_of_className? h.className) m (hmodels ▸ List.mem_cons_self)
  have hown : d.ownName = n := by
    rw [Call.ownName, h.className]
    rfl
  exact ⟨m, hmodels ▸ rfl, hown ▸ hname, hsubset hmem⟩

theorem same_of_built (hmethods : Method.buildAll s basePath = .ok methods)
    {objects enums : List Model}
    (hseparate : Assembly.separate (Assembly.modelsOf methods) = .ok (objects, enums))
    (hnodup : ((objects ++ enums).map Model.name).Nodup) {d' : Call} {r' : Inferred}
    (h : Builds s n d) (h' : Builds s n d') (hr : Returns s d r) (hr' : Returns s d' r') :
    FirstSame r r' := by
  obtain ⟨m, hhead, hname, hmem⟩ := h.exists_model hmethods hr
  obtain ⟨m', hhead', hname', hmem'⟩ := h'.exists_model hmethods hr'
  exact ⟨m, m', hhead, hhead', same_of_name (wellFormed_of_buildAll hmethods) hseparate hnodup
    hmem hmem' (hname.trans hname'.symm)⟩

/-! ## Definitions on their own -/

theorem Met.comesTo {w : Json} (h : Met s v) (hw : ComesTo s.document v w) : Met s w := by
  obtain ⟨c, hstarts, hcomes⟩ := h
  exact ⟨c, hstarts, hcomes.trans hw⟩

theorem exists_members_of_classNameOf (h : classNameOf v = some n) : ∃ m ms, v = .obj (m :: ms) := by
  obtain ⟨ref, href, -⟩ := Option.map_eq_some_iff.1 h
  obtain ⟨ms, rfl, hget, -⟩ := ref?_eq_some_iff.1 href
  cases ms with
  | nil => cases hget
  | cons m ms => exact ⟨m, ms, rfl⟩

/-- If references are unambiguous, each to a class or an enumeration is followed. -/
theorem Names.exists_builds (hmethods : Method.buildAll s basePath = .ok methods)
    (hunambiguous : Unambiguous s) (h : Names s n v) :
    ∃ c d, Starts s c ∧ Reaches s c d ∧ d.schema = v ∧ Builds s n d := by
  obtain ⟨c, hstarts, hcomes⟩ := h.met
  obtain ⟨r, hr, -⟩ := returns_of_starts hmethods hstarts
  obtain ⟨m, ms, hv⟩ := exists_members_of_classNameOf h.className
  obtain ⟨d, hd, rfl, hfresh⟩ := exists_followed hstarts.visiting hr
    (fun v w n hv => hunambiguous.one v w n ⟨c, hstarts, hv⟩) hcomes hv
  exact ⟨c, d, hstarts, hd, rfl, ⟨c, hstarts, hd⟩, h.className, hfresh, h.modelled⟩

/-- The classes under construction when a definition is built make no difference to it. -/
theorem harmless_visiting (hunambiguous : Unambiguous s) (hstarts : Starts s c) (hd : Reaches s c d) :
    Harmless s (· ∈ d.trail.visiting) d.schema where
  object x k hcomes hclass hmem := by
    obtain ⟨e, he, hchain, hclass'⟩ := exists_enclosing hstarts.visiting hd hmem
    have hmet : Met s e.schema := ⟨c, hstarts, he.comesTo⟩
    have hleads : Relation.TransGen (LeadsTo s.document) e.schema x.schema :=
      (leadsTo_of_transGen hchain).trans_left hcomes
    have hsame : x.schema = e.schema := hunambiguous.one _ _ k hmet hclass' hclass hleads
    rw [hsame] at hleads ⊢
    exact hunambiguous.object _ k hmet hclass' hleads
  base schema branch ref hcomes :=
    hunambiguous.base schema branch ref (Met.comesTo ⟨c, hstarts, hd.comesTo⟩ hcomes)

/-- A definition that is built has the model that it is inferred to have on its own. -/
theorem Builds.head_eq (hunambiguous : Unambiguous s) (hstarts : Starts s c) (hd : Reaches s c d)
    (h : Builds s n d) {name : String} {found : Inferred} (hfound : Returns s d found)
    (hr : Returns s ⟨⟨[], []⟩, name, d.schema⟩ r) :
    found.models.head? = r.models.head? := by
  have hfresh : ∀ n, ¬ (⟨⟨[], []⟩, name, d.schema⟩ : Call).IsPlaceholder n :=
    fun n hn => List.not_mem_nil hn.2
  obtain ⟨ref, href, -⟩ := Option.map_eq_some_iff.1 h.className
  have htwin : Twin (· ∈ d.trail.visiting) d ⟨⟨[], []⟩, name, d.schema⟩ := by
    have href' : (⟨⟨[], []⟩, name, d.schema⟩ : Call).ref? = some ref := href
    refine ⟨rfl, ?_, ?_, differ_of_forall (fun _ hn => hn) (List.forall_mem_nil _)⟩
    · unfold Call.ownName Call.className?
      rw [href, href']
      rfl
    · unfold Call.specName
      rw [href, href']
  have hwf := Reaches.wellFormed hd hstarts.wellFormed
  have hmatches := htwin.agree_of_harmless hwf (harmless_visiting hunambiguous hstarts hd) .refl
    hfound hr
  apply hmatches.head h.fresh hfresh
  · intro harray
    rcases h.modelled with hkind | hkind <;> cases harray.symm.trans hkind
  · intro hmap
    rcases h.modelled with hkind | hkind <;> cases hmap.symm.trans hkind

end

/-- If nothing is reported about an API, all definitions of one class name that it is built from
are equal up to descriptions. If moreover references are unambiguous, so are all references of
one class name that it comes to, each inferred on its own. -/
theorem namesakes_same {types : TypeTable} {document : Document} {name basePath : String}
    {api : ApiModel} (hbuild : ApiModel.build types document name basePath = .ok api)
    (hclean : api.findings = .ok []) :
    (∀ n d d' r r', Builds ⟨document, types⟩ n d → Builds ⟨document, types⟩ n d' →
      Returns ⟨document, types⟩ d r → Returns ⟨document, types⟩ d' r' → FirstSame r r') ∧
    (Unambiguous ⟨document, types⟩ → ∀ n v v' own own' r r',
      Names ⟨document, types⟩ n v → Names ⟨document, types⟩ n v' →
      infer ⟨document, types⟩ own v = .ok r → infer ⟨document, types⟩ own' v' = .ok r' →
      FirstSame r r') := by
  obtain ⟨base, methods, objects, enums, hmethods, hseparate, rfl⟩ :=
    exists_methods_of_build (s := ⟨document, types⟩) hbuild
  have hnodup : ((objects ++ enums).map Model.name).Nodup := by
    have h := (ApiModel.findings_eq_nil_iff.1 hclean).distinct
    rw [List.map_append, Assembly.map_name_of_relinked (Assembly.linkSubclasses_unchanged objects),
      ← List.map_append] at h
    exact h
  have hbuilt : ∀ n d d' r r', Builds ⟨document, types⟩ n d → Builds ⟨document, types⟩ n d' →
      Returns ⟨document, types⟩ d r → Returns ⟨document, types⟩ d' r' → FirstSame r r' :=
    fun n d d' r r' => same_of_built hmethods hseparate hnodup
  refine ⟨hbuilt, fun hunambiguous n v v' own own' r r' hv hv' hr hr' => ?_⟩
  -- Each of the two is followed somewhere, and has there the model that it has on its own.
  have hfollowed : ∀ {v own r}, Names ⟨document, types⟩ n v → infer ⟨document, types⟩ own v = .ok r →
      ∃ d found, Builds ⟨document, types⟩ n d ∧ Returns ⟨document, types⟩ d found ∧
        found.models.head? = r.models.head? := by
    intro v own r hv hr
    obtain ⟨c, d, hstarts, hd, rfl, hbuilds⟩ := hv.exists_builds hmethods hunambiguous
    obtain ⟨found, hfound⟩ := hbuilds.exists_returns hmethods
    have hreturns : Returns ⟨document, types⟩ ⟨⟨[], []⟩, own, d.schema⟩ r := ⟨maxNesting, hr⟩
    exact ⟨d, found, hbuilds, hfound,
      hbuilds.head_eq hunambiguous hstarts hd hfound hreturns⟩
  obtain ⟨d, found, hd, hfound, hhead⟩ := hfollowed hv hr
  obtain ⟨d', found', hd', hfound', hhead'⟩ := hfollowed hv' hr'
  obtain ⟨m, m', hm, hm', hsame⟩ := hbuilt n d d' _ _ hd hd' hfound hfound'
  exact ⟨m, m', hhead ▸ hm, hhead' ▸ hm', hsame⟩

/-! ## Two sections that define one class -/

def sireRef : Json := refTo "#/definitions/Pet"

def damRef : Json := refTo "#/models/Pet"

/-- A class with a property of some type. -/
def classWith (property : String) (type : Json) : Members :=
  [("type", .str "object"), ("properties", .obj [(.text property, type)])]

def describedMembers : Members := ("description", .str "A pet") :: classWith "parent" damRef

def pedigree : Members :=
  [("type", .str "object"), ("properties", .obj [("sire", sireRef), ("dam", damRef)])]

/-- A document whose only operation responds with a value of some schema. -/
def responding (schema : Json) (rest : Members) : Members :=
  ("paths", .obj [("/", .obj [(.text "get", .obj [("operationId", .str "find"),
    ("responses", .obj [("200", .obj [("schema", schema)])])])])]) :: rest

def pedigreeDocument : Document where
  members := responding (.obj pedigree)
    [("definitions", .obj [("Pet", .obj (classWith "parent" sireRef))]),
      ("models", .obj [("Pet", .obj describedMembers)])]

def pedigreeSetting : Setting := ⟨pedigreeDocument, Language.swiftTypes⟩

theorem settle_pedigree : settle pedigreeDocument (.obj pedigree) = .ok (none, pedigree) := rfl

theorem settle_sire : settle pedigreeDocument sireRef = .ok (none, classWith "parent" sireRef) := by
  cbv

theorem settle_dam : settle pedigreeDocument damRef = .ok (none, describedMembers) := by
  cbv

theorem schema_of_starts_pedigree {c : Call} (h : Starts pedigreeSetting c) :
    c.schema = .obj pedigree := by
  have hpaths : (Document.paths pedigreeDocument).members = .ok [("/", .obj [(.text "get",
      .obj [("operationId", .str "find"),
        ("responses", .obj [("200", .obj [("schema", .obj pedigree)])])])])] := rfl
  obtain ⟨name, raw, -, hraw, resolved, spoken, hresolved, -, rfl⟩ :=
    h.of_single hpaths rfl (by decide)
  cases hraw
  cases hresolved
  rfl

theorem eq_of_leadsTo_parent {v w : Json} {ms : Members}
    (hsettle : settle pedigreeDocument v = .ok (none, ms)) (hkind : Schema.kind ms = .ok .object)
    (hproperties : propertySchemas ms = .ok [("parent", v)]) (h : LeadsTo pedigreeDocument v w) :
    w = v := by
  rcases h.of_object hsettle hkind with h | ⟨properties, m, hproperties', hm, rfl⟩
  · cases h
  · cases hproperties.symm.trans hproperties'
    cases List.mem_singleton.1 hm
    rfl

theorem eq_of_leadsTo_sire {v : Json} (h : LeadsTo pedigreeDocument sireRef v) : v = sireRef :=
  eq_of_leadsTo_parent settle_sire rfl rfl h

theorem eq_of_leadsTo_dam {v : Json} (h : LeadsTo pedigreeDocument damRef v) : v = damRef :=
  eq_of_leadsTo_parent settle_dam rfl rfl h

theorem mem_of_met_pedigree {v : Json} (h : Met pedigreeSetting v) :
    v = .obj pedigree ∨ v = sireRef ∨ v = damRef := by
  obtain ⟨c, hstarts, hcomes⟩ := h
  rw [schema_of_starts_pedigree hstarts] at hcomes
  induction hcomes with
  | refl => exact .inl rfl
  | tail _ hstep ih =>
    rcases ih with rfl | rfl | rfl
    · rcases hstep.of_object settle_pedigree rfl with h | ⟨properties, m, hproperties, hm, rfl⟩
      · cases h
      · cases hproperties
        rcases List.mem_cons.1 hm with rfl | hm
        · exact .inr (.inl rfl)
        · cases List.mem_singleton.1 hm
          exact .inr (.inr rfl)
    · exact .inr (.inl (eq_of_leadsTo_sire hstep))
    · exact .inr (.inr (eq_of_leadsTo_dam hstep))

theorem kindFound_sire : kindFound pedigreeDocument sireRef = .ok .object := by
  rw [kindFound_of_settle settle_sire]
  rfl

theorem kindFound_dam : kindFound pedigreeDocument damRef = .ok .object := by
  rw [kindFound_of_settle settle_dam]
  rfl

theorem unambiguous_pedigree : Unambiguous pedigreeSetting where
  one v w n hmet hclass hclass' hleads := by
    clear hclass'
    rcases mem_of_met_pedigree hmet with rfl | rfl | rfl
    · cases hclass
    · induction hleads with
      | single h => exact eq_of_leadsTo_sire h
      | tail _ h ih => exact eq_of_leadsTo_sire (ih ▸ h)
    · induction hleads with
      | single h => exact eq_of_leadsTo_dam h
      | tail _ h ih => exact eq_of_leadsTo_dam (ih ▸ h)
  object v n hmet hclass _ := by
    rcases mem_of_met_pedigree hmet with rfl | rfl | rfl
    · cases hclass
    · exact kindFound_sire
    · exact kindFound_dam
  base v b ref hmet _ hbase _ := by
    rcases mem_of_met_pedigree hmet with rfl | rfl | rfl
    · cases (isBase_iff_of_settle settle_pedigree).1 hbase
    · cases (isBase_iff_of_settle settle_sire).1 hbase
    · cases (isBase_iff_of_settle settle_dam).1 hbase

theorem starts_pedigree : ∃ c, Starts pedigreeSetting c ∧ c.schema = .obj pedigree :=
  ⟨_, .intro rfl List.mem_cons_self rfl List.mem_cons_self rfl rfl
    ⟨_, _, rfl, .response rfl, _, _, rfl, rfl, rfl⟩, rfl⟩

theorem names_pedigree : Names pedigreeSetting "Pet" sireRef ∧ Names pedigreeSetting "Pet" damRef := by
  obtain ⟨c, hstarts, hschema⟩ := starts_pedigree
  have hmet : ∀ m ∈ ([("sire", sireRef), ("dam", damRef)] : Members), Met pedigreeSetting m.2 := by
    intro m hm
    refine ⟨c, hstarts, .single ?_⟩
    rw [hschema]
    exact .property settle_pedigree rfl rfl hm
  obtain ⟨hsire, hdam⟩ := List.forall_mem_cons.1 hmet
  exact ⟨⟨hsire, by decide, .inl kindFound_sire⟩,
    ⟨hdam _ List.mem_cons_self, by decide, .inl kindFound_dam⟩⟩

theorem build_pedigree : ∃ api,
    ApiModel.build Language.swiftTypes pedigreeDocument "Pedigree" "" = .ok api ∧ api.findings = .ok [] := by
  have hclean : ((ApiModel.build Language.swiftTypes pedigreeDocument "Pedigree" "").toOption.any
      fun api => api.findings.toOption.any List.isEmpty) = true := by
    decide +kernel
  obtain ⟨api, hbuild, hempty⟩ := exists_ok_of_any hclean
  exact ⟨api, hbuild, eq_ok_nil_of_any hempty⟩

theorem namesakes_same_pedigree : ∃ api,
    ApiModel.build Language.swiftTypes pedigreeDocument "Pedigree" "" = .ok api ∧ api.findings = .ok [] ∧
      (∃ d d' r r', d.schema = sireRef ∧ d'.schema = damRef ∧ Builds pedigreeSetting "Pet" d ∧
        Builds pedigreeSetting "Pet" d' ∧ Returns pedigreeSetting d r ∧ Returns pedigreeSetting d' r' ∧
        FirstSame r r') ∧
      Unambiguous pedigreeSetting ∧
      ∃ r r', infer pedigreeSetting "" sireRef = .ok r ∧ infer pedigreeSetting "" damRef = .ok r' ∧
        FirstSame r r' := by
  obtain ⟨api, hbuild, hclean⟩ := build_pedigree
  obtain ⟨_, methods, _, _, hmethods, -, -⟩ := exists_methods_of_build (s := pedigreeSetting) hbuild
  obtain ⟨hbuilt, halone⟩ := namesakes_same hbuild hclean
  obtain ⟨hsire, hdam⟩ := names_pedigree
  obtain ⟨_, d, -, -, hschema, hbuilds⟩ := hsire.exists_builds hmethods unambiguous_pedigree
  obtain ⟨_, d', -, -, hschema', hbuilds'⟩ := hdam.exists_builds hmethods unambiguous_pedigree
  obtain ⟨r, hr⟩ := hbuilds.exists_returns hmethods
  obtain ⟨r', hr'⟩ := hbuilds'.exists_returns hmethods
  have hinfer : ∃ r r', infer pedigreeSetting "" sireRef = .ok r ∧
      infer pedigreeSetting "" damRef = .ok r' := ⟨_, _, rfl, rfl⟩
  obtain ⟨alone, alone', hr₁, hr₂⟩ := hinfer
  refine ⟨api, hbuild, hclean, ⟨d, d', r, r', hschema, hschema', hbuilds, hbuilds', hr, hr',
    hbuilt _ _ _ _ _ hbuilds hbuilds' hr hr'⟩, unambiguous_pedigree, alone, alone', hr₁, hr₂, ?_⟩
  exact halone unambiguous_pedigree "Pet" _ _ "" "" _ _ hsire hdam hr₁ hr₂

/-! ## A definition that hides another one -/

def dataRef : Json := refTo "#/definitions/client_data"

def hiddenRef : Json := refTo "#/definitions/ClientData"

def clientsDocument : Document where
  members := responding dataRef
    [("definitions", .obj [("client_data", .obj (classWith "data" hiddenRef)),
      ("ClientData", .obj (classWith "id" (.obj [("type", .str "string")])))])]

def clientsSetting : Setting := ⟨clientsDocument, Language.swiftTypes⟩

theorem settle_data : settle clientsDocument dataRef = .ok (none, classWith "data" hiddenRef) := by
  cbv

theorem settle_hidden : settle clientsDocument hiddenRef =
    .ok (none, classWith "id" (.obj [("type", .str "string")])) := by
  cbv

theorem names_clients : Names clientsSetting "ClientData" dataRef ∧
    Names clientsSetting "ClientData" hiddenRef := by
  have hstarts : ∃ c, Starts clientsSetting c ∧ c.schema = dataRef :=
    ⟨_, .intro rfl List.mem_cons_self rfl List.mem_cons_self rfl rfl
      ⟨_, _, rfl, .response rfl, _, _, rfl, rfl, rfl⟩, rfl⟩
  obtain ⟨c, hstarts, hschema⟩ := hstarts
  have hobject : ∀ {v ms}, settle clientsDocument v = .ok (none, ms) → Schema.kind ms = .ok .object →
      IsModelled clientsSetting v :=
    fun hsettle hkind => .inl ((kindFound_of_settle hsettle).trans hkind)
  have hleads : LeadsTo clientsDocument dataRef hiddenRef :=
    .property settle_data rfl rfl List.mem_cons_self
  exact ⟨⟨⟨c, hstarts, hschema ▸ .refl⟩, by decide, hobject settle_data rfl⟩,
    ⟨⟨c, hstarts, hschema ▸ .single hleads⟩, by decide, hobject settle_hidden rfl⟩⟩

/-- A definition that is met only below another one of its class name is not built: nothing is
reported, though the two are different. -/
theorem conflated_below_namesake :
    (∃ api, ApiModel.build Language.swiftTypes clientsDocument "Clients" "" = .ok api ∧
      api.findings = .ok []) ∧
    Names clientsSetting "ClientData" dataRef ∧ Names clientsSetting "ClientData" hiddenRef ∧
    ∃ r r', infer clientsSetting "" dataRef = .ok r ∧ infer clientsSetting "" hiddenRef = .ok r' ∧
      ¬ FirstSame r r' := by
  have hclean : ((ApiModel.build Language.swiftTypes clientsDocument "Clients" "").toOption.any
      fun api => api.findings.toOption.any List.isEmpty) = true := by
    decide +kernel
  obtain ⟨api, hbuild, hempty⟩ := exists_ok_of_any hclean
  have hdifferent : ((infer clientsSetting "" dataRef).toOption.any fun r =>
      (infer clientsSetting "" hiddenRef).toOption.any fun r' => !decide (FirstSame r r')) = true := by
    decide +kernel
  obtain ⟨r, hr, hdifferent⟩ := exists_ok_of_any hdifferent
  obtain ⟨r', hr', hdifferent⟩ := exists_ok_of_any hdifferent
  obtain ⟨hdata, hhidden⟩ := names_clients
  exact ⟨⟨api, hbuild, eq_ok_nil_of_any hempty⟩, hdata, hhidden, r, r', hr, hr',
    by simpa using hdifferent⟩

end ClientForge
