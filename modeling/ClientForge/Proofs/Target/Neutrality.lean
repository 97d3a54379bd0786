-- SUMMARY: The target languages infer corresponding models, and methods that differ in type names only.
import ClientForge.Proofs.Api.Correspondence
import ClientForge.Proofs.Inference.Formats
import ClientForge.Proofs.Inference.Inheritance

/-!
# Neutrality of the model

What is inferred from a schema depends on the target language through the names of types
only (`Language.neutral`). These names are compared: a property that repeats an inherited one
is left out, and two types that one language tells apart may have one name in another. So the
properties that a class declares itself do depend on the language. Those that its initializer
takes do not, for a property is left out only where one of the same key is inherited; the
models of two languages are `Counterpart`s, which have the same keys there.
-/

namespace ClientForge

open Members Outcome Schema Inference

/-! ## Counterparts -/

/-- Two lists of properties that are written under the same keys. -/
def SameKeys (ps qs : List Property) : Prop := ∀ x, x ∈ specMeanings ps ↔ x ∈ specMeanings qs

/-- Two classes that differ in type names, in what is said about them, and in which of the
properties that they have are inherited. -/
structure ClassHead.Counterpart (a b : ClassHead) : Prop where
  name : a.name = b.name
  specName : a.specName = b.specName
  superclass : a.superclass = b.superclass
  discriminator : a.discriminator = b.discriminator
  handedDown : SameKeys (a.properties ++ a.inherited) (b.properties ++ b.inherited)
  initializer : SameKeys a.initializer b.initializer

/-- Two models of the same kind, nested in the same way, that differ as two classes may. -/
inductive Model.Counterpart : Model → Model → Prop
  | object {a b : ClassHead} {as bs : List Model} (head : a.Counterpart b)
    (nested : List.Forall₂ Model.Counterpart as bs) : Model.Counterpart (.object a as) (.object b bs)
  | enumeration {a b : EnumModel} (name : a.name = b.name) (cases : a.cases = b.cases) :
    Model.Counterpart (.enumeration a) (.enumeration b)

/-- A parameter without the name of its type. -/
def Param.untyped (p : Param) : Param := { p with type := none }

/-- A method without the names of the types that it takes and gives. -/
def Method.untyped (m : Method) : Method :=
  { m with params := m.params.map Param.untyped, response := m.response.untyped }

/-! ## Keys of properties -/

theorem SameKeys.own {ps ps' inherited inherited' : List Property} (h : SameKeys ps ps')
    (hinherited : SameKeys inherited inherited') :
    SameKeys (ownProperties ps inherited ++ inherited) (ownProperties ps' inherited' ++ inherited') := by
  intro x
  rw [mem_specMeanings_own, mem_specMeanings_own, h x, hinherited x]

theorem sameKeys_of_fields {free : Prop} {type : String → String → Prop} {ps qs : List Property}
    (h : List.Forall₂ (SameField free type) ps qs) : SameKeys ps qs := by
  have hkeys : specMeanings ps = specMeanings qs := by
    induction h with
    | nil => rfl
    | cons hpq _ ih =>
      unfold specMeanings at ih ⊢
      rw [List.filterMap_cons, List.filterMap_cons, hpq.specName, ih]
  intro x
  rw [hkeys]

theorem sameKeys_handedDown {ms ns : List Model} (h : List.Forall₂ Model.Counterpart ms ns) :
    SameKeys (handedDown ms) (handedDown ns) := by
  cases h with
  | nil => exact fun _ => Iff.rfl
  | cons hmn =>
    cases hmn with
    | object head => exact head.handedDown
    | enumeration => exact fun _ => Iff.rfl

/-! ## Type tables -/

namespace TypeTable

theorem exists_pick (formats : List (String × String)) (fallback : String) {format : Json}
    (h : format.IsFormat) : ∃ name, pick formats fallback format = .ok name := by
  cases format with
  | null | str => exact ⟨_, rfl⟩
  | _ => exact h.elim

/-- A table without patterns names the types that it has entries for, in any format that is a
text or null. -/
theorem exists_primitive_iff {t : TypeTable} (hplain : ∀ p ∈ t.primitives, ∀ text, p.2 ≠ .pattern text)
    (type : Option String) {format : Json} (h : format.IsFormat) :
    (∃ name, t.primitive type format = .ok name) ↔
      ∃ s ∈ t.primitives.map Prod.fst, type = some s ∧ s ≠ "" := by
  cases type with
  | none => simp [primitive, entry?]
  | some s =>
    by_cases hs : s = ""
    · simp [primitive, entry?, hs]
    · simp only [primitive, entry?, hs, if_false]
      cases hlookup : t.primitives.lookup s with
      | none =>
        have hnone : ∀ s' e, (s', e) ∈ t.primitives → s ≠ s' := by
          simpa using List.lookup_eq_none_iff.1 hlookup
        simpa [hs] using fun e he => hnone s e he rfl
      | some e =>
        obtain ⟨before, after, hsplit, -⟩ := List.lookup_eq_some_iff.1 hlookup
        have hmem : (s, e) ∈ t.primitives := by simp [hsplit]
        refine iff_of_true ?_ ⟨s, List.mem_map_of_mem hmem, rfl, hs⟩
        cases e with
        | always name => exact ⟨name, rfl⟩
        | byFormat formats fallback => exact exists_pick formats fallback h
        | pattern text => exact absurd rfl (hplain _ hmem text)

end TypeTable

namespace Language

theorem types_primitives (l : Language) :
    l.types.primitives.map Prod.fst = ["boolean", "number", "file", "integer", "string"] := by
  cases l <;> rfl

theorem not_pattern (l : Language) : ∀ p ∈ l.types.primitives, ∀ text, p.2 ≠ .pattern text := by
  cases l <;> simp [types, swiftTypes, kotlinTypes, jsTypes]

/-- All languages name the same primitive types. -/
theorem both_primitive (l l' : Language) (type : Option String) {format : Json} (h : format.IsFormat) :
    Both (fun _ _ => True) (l.types.primitive type format) (l'.types.primitive type format) := by
  apply both_of_iff
  rw [TypeTable.exists_primitive_iff l.not_pattern type h,
    TypeTable.exists_primitive_iff l'.not_pattern type h, l.types_primitives, l'.types_primitives]

/-! ## The same document in two languages -/

theorem counterpart_class {o o' : ObjectPlan} {parts parts' : List Contribution} {base base' : Base}
    (h : SameClass False (fun _ _ => True) Model.Counterpart o o' parts parts' base base') :
    Model.Counterpart (.object (o.head parts base) (parts.flatMap (·.nested)))
      (.object (o'.head parts' base') (parts'.flatMap (·.nested))) := by
  have hinherited : SameKeys base.inherited base'.inherited := by
    rw [h.inherited, h.inherited']
    exact sameKeys_handedDown h.bases
  have hkeys := (sameKeys_of_fields h.fields).own hinherited
  exact .object ⟨congrArg some h.name, congrArg some h.specName, h.superclass, h.discriminator, hkeys,
    hkeys⟩ h.nested

/-- Whatever types are called, the models of two languages are counterparts. -/
def correspondence (l l' : Language) : Correspondence False l.types l'.types where
  type _ _ := True
  model := Model.Counterpart
  type_refl _ := trivial
  type_void := trivial
  type_within _ _ _ _ := trivial
  type_arrayOf _ := trivial
  type_mapOf _ := trivial
  type_mapOf_none := trivial
  model_enumeration _ _ _ _ _ _ _ _ := .enumeration rfl rfl
  model_object := counterpart_class

theorem names_correspondence (l l' : Language) (document : Document) :
    @Correspondence.Names False ⟨document, l.types⟩ ⟨document, l'.types⟩ (correspondence l l')
      (TextFormats document) where
  step := TextFormats.step
  names h hsettle type := both_primitive l l' type (h _ _ _ .refl hsettle)

theorem untyped_of_same {s s' : Setting} {K : Correspondence False s.types s'.types} {p p' : Param}
    (h : SameParam K p p') : p.untyped = p'.untyped := by
  simp only [Param.untyped, h.name, h.serverName, h.location, h.format, h.isRequired, h.schemaType,
    alike_false_iff.1 h.description]

theorem untyped_of_sameMethod {s s' : Setting} {K : Correspondence False s.types s'.types}
    {m m' : Method} (h : SameMethod K m m') : m.untyped = m'.untyped := by
  have hparams := map_eq_map_of_forall₂ h.params fun _ _ => untyped_of_same
  simp only [Method.untyped, h.path, h.verb, h.name, hparams, untyped_of_same h.response,
    alike_false_iff.1 h.description]

/-- In two languages a schema is inferred to the same format and to models that are counterparts, and
the methods of a document differ in the names of types only; or both fail. -/
theorem neutral (l l' : Language) (document : Document) :
    (∀ trail name schema, TextFormats document schema →
      Both (fun r r' => r.type.format = r'.type.format ∧ List.Forall₂ Model.Counterpart r.models r'.models)
        (inferOn ⟨document, l.types⟩ trail name schema)
        (inferOn ⟨document, l'.types⟩ trail name schema)) ∧
    ∀ basePath, (∀ c, Starts ⟨document, l.types⟩ c → TextFormats document c.schema) →
      Both (List.Forall₂ fun b b' => b.method.untyped = b'.method.untyped ∧
          List.Forall₂ Model.Counterpart b.models b'.models)
        (Method.buildAll ⟨document, l.types⟩ basePath)
        (Method.buildAll ⟨document, l'.types⟩ basePath) := by
  have hnames := names_correspondence l l' document
  have hagree := Agreement.refl False document
  refine ⟨fun trail name schema hformats => ?_, fun basePath hformats => ?_⟩
  · have hcall : (⟨trail, name, schema⟩ : Call).Linked False (fun _ => True) ⟨trail, name, schema⟩ :=
      ⟨rfl, rfl, alike_refl _ _, fun _ _ => trivial⟩
    exact ((correspondence l l').inferWith hnames hagree maxNesting _ _ hcall hformats).mono
      fun r r' h => ⟨h.format, h.models⟩
  · have hpaths : Linked False (fun _ => True) .paths (Document.paths document)
        (Document.paths document) := ⟨alike_refl _ _, fun _ _ => trivial⟩
    exact (both_buildAll hnames hagree hpaths hformats basePath).mono fun _ _ h =>
      h.imp fun b b' hb => ⟨untyped_of_sameMethod hb.method, hb.models⟩

/-! ## A class that declares more in one language than in another -/

/-- An animal with an age in whole years. -/
def animalMembers : Members := [("properties", .obj [("age", .obj [("type", .str "integer")])])]

/-- A bird, whose age is any number. -/
def birdMembers : Members :=
  [("allOf", .arr [refTo "#/definitions/Animal",
    .obj [("properties", .obj [("age", .obj [("type", .str "number")])])]])]

def birdRef : Json := refTo "#/definitions/Bird"

def listBirds : Members :=
  [("operationId", .str "listBirds"), ("responses", .obj [("200", .obj [("schema", birdRef)])])]

def aviaryDocument : Document where
  members :=
    [("paths", .obj [("/birds", .obj [("get", .obj listBirds)])]),
      ("definitions", .obj [("Animal", .obj animalMembers), ("Bird", .obj birdMembers)])]

theorem writesFormats_aviary : (Json.obj aviaryDocument).WritesFormats := by
  simp [aviaryDocument, listBirds, birdRef, birdMembers, animalMembers, refTo, Json.WritesFormats,
    Json.writesFormatsMembers, Json.writesFormatsItems]

/-- How many properties the first of some models declares itself. -/
def ownCount : List Model → Nat
  | .object head _ :: _ => head.properties.length
  | _ => 0

/-- The age of a bird is declared again in Swift, where it has a type of its own, and inherited in
JavaScript; the models of the two languages are counterparts nevertheless. -/
theorem neutral_aviary :
    (∃ r r', infer ⟨aviaryDocument, Language.swift.types⟩ "" birdRef = .ok r ∧
      infer ⟨aviaryDocument, Language.js.types⟩ "" birdRef = .ok r' ∧
      ownCount r.models = 1 ∧ ownCount r'.models = 0 ∧
      r.type.format = r'.type.format ∧ List.Forall₂ Model.Counterpart r.models r'.models) ∧
    ∃ methods methods', Method.buildAll ⟨aviaryDocument, Language.swift.types⟩ "" = .ok methods ∧
      Method.buildAll ⟨aviaryDocument, Language.js.types⟩ "" = .ok methods' ∧
      List.Forall₂ (fun b b' => b.method.untyped = b'.method.untyped ∧
        List.Forall₂ Model.Counterpart b.models b'.models) methods methods' := by
  have hdoc := writesFormats_aviary
  have hbird : birdRef.WritesFormats := by
    simp [birdRef, refTo, Json.WritesFormats, Json.writesFormatsMembers]
  obtain ⟨hinfer, hbuild⟩ := neutral .swift .js aviaryDocument
  refine ⟨?_, ?_⟩
  · have hswift : ((infer ⟨aviaryDocument, Language.swift.types⟩ "" birdRef).toOption.any
        fun r => ownCount r.models == 1) = true := by
      decide +kernel
    have hjs : ((infer ⟨aviaryDocument, Language.js.types⟩ "" birdRef).toOption.any
        fun r => ownCount r.models == 0) = true := by
      decide +kernel
    obtain ⟨r, hr, hone⟩ := exists_ok_of_any hswift
    obtain ⟨r', hr', hzero⟩ := exists_ok_of_any hjs
    have hboth := hinfer ⟨[], []⟩ "" birdRef (textFormats_of_written hdoc hbird)
    unfold infer at hr hr'
    rw [hr, hr', Both.ok_iff] at hboth
    exact ⟨r, r', hr, hr', beq_iff_eq.1 hone, beq_iff_eq.1 hzero, hboth⟩
  · have hswift : ((Method.buildAll ⟨aviaryDocument, Language.swift.types⟩ "").toOption.any
        fun _ => true) = true := by
      decide +kernel
    obtain ⟨methods, hmethods, -⟩ := exists_ok_of_any hswift
    have hboth := hbuild "" fun c hc =>
      textFormats_of_written hdoc (hc.preserves stable_writesFormats hdoc)
    obtain ⟨methods', hmethods', hsame⟩ := hboth.exists_left hmethods
    exact ⟨methods, methods', hmethods, hmethods', hsame⟩

end Language

end ClientForge
