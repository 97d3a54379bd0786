-- SUMMARY: When the names of methods, of parameters and of nested classes are there and differ.
import ClientForge.Proofs.Api.Classes
import ClientForge.Proofs.Api.Operations
import ClientForge.Proofs.Audit.Findings
import ClientForge.Proofs.Inference.InPlace
import ClientForge.Proofs.Name.Empty

/-!
# Names side by side

The audit of an API looks at the names of its models: if it finds nothing, they are all
there and all different. The methods, the parameters of one method and the classes nested in
one class have scopes of their own, whose names the audit leaves alone. They are made from
what the document says, with case and separators lost, so they are all there and all
different exactly if what they are made from has words and is told apart by its words
(`names_clear_iff`). A document may well say nothing of that kind, and have no findings
(`clashes_without_findings`).
-/

namespace ClientForge

open Members Outcome Schema Inference Words

/-! ## Clear names -/

/-- Names that can stand side by side: all are there, and no two are the same. -/
structure Clear (names : List (Option String)) : Prop where
  given : ∀ o ∈ names, Audit.IsGiven o
  distinct : names.Nodup

instance (names : List (Option String)) : Decidable (Clear names) :=
  decidable_of_iff ((∀ o ∈ names, Audit.isNamed o = true) ∧ names.Nodup)
    ⟨fun h => ⟨fun o ho => Audit.isNamed_iff.1 (h.1 o ho), h.2⟩,
      fun h => ⟨fun o ho => Audit.isNamed_iff.2 (h.given o ho), h.distinct⟩⟩

/-- Texts that have words, and whose names differ. -/
structure TellsApart (name : String → String) (texts : List String) : Prop where
  words : ∀ s ∈ texts, HasWord s
  distinct : texts.Pairwise fun s t => name s ≠ name t

instance (name : String → String) (texts : List String) : Decidable (TellsApart name texts) :=
  decidable_of_iff ((∀ s ∈ texts, HasWord s) ∧ texts.Pairwise fun s t => name s ≠ name t)
    ⟨fun h => ⟨h.1, h.2⟩, fun h => ⟨h.words, h.distinct⟩⟩

section
variable {α β : Type} {name : String → String}

theorem clear_map_iff (hname : ∀ s, name s ≠ "" ↔ HasWord s) {texts : List String} :
    Clear (texts.map fun s => some (name s)) ↔ TellsApart name texts := by
  have hgiven : ∀ s, Audit.IsGiven (some (name s)) ↔ HasWord s := by
    simp [Audit.IsGiven, hname]
  have hdistinct : (texts.map fun s => some (name s)).Nodup ↔
      texts.Pairwise fun s t => name s ≠ name t := by
    simp [List.Nodup, List.pairwise_map]
  constructor
  · intro h
    exact ⟨fun s hs => (hgiven s).1 (h.given _ (List.mem_map_of_mem hs)), hdistinct.1 h.distinct⟩
  · intro h
    exact ⟨List.forall_mem_map.2 fun s hs => (hgiven s).2 (h.words s hs), hdistinct.2 h.distinct⟩

/-- The names of things that are made from sources with texts. -/
theorem clear_iff_of_forall₂ (hname : ∀ s, name s ≠ "" ↔ HasWord s) {source : α → Except Failure String}
    {nameOf : β → Option String} {as : List α} {bs : List β}
    (h : List.Forall₂ (fun a b => ∃ s, source a = .ok s ∧ nameOf b = some (name s)) as bs) :
    ∃ texts, as.mapM source = .ok texts ∧ (Clear (bs.map nameOf) ↔ TellsApart name texts) := by
  obtain ⟨texts, htexts, hnames⟩ := exists_mapM_of_forall₂ h
  have hmap : (texts.map fun s => some (name s)) = bs.map nameOf := by
    rw [← List.forall₂_eq_eq_eq, List.forall₂_map_left_iff, List.forall₂_map_right_iff]
    exact hnames.imp fun _ _ h => h.symm
  exact ⟨texts, htexts, hmap ▸ clear_map_iff hname⟩

theorem clear_iff_of_perm {names names' : List (Option String)} (h : names.Perm names') :
    Clear names ↔ Clear names' := by
  have hgiven : (∀ o ∈ names, Audit.IsGiven o) ↔ ∀ o ∈ names', Audit.IsGiven o := by
    simp only [h.mem_iff]
  exact ⟨fun hc => ⟨hgiven.1 hc.given, h.nodup_iff.1 hc.distinct⟩,
    fun hc => ⟨hgiven.2 hc.given, h.nodup_iff.2 hc.distinct⟩⟩

end

/-! ## Nested classes -/

namespace Inference

/-- The keys under which a schema has objects written in place. -/
def keysInPlace (document : Members) (schema : Json) : Except Failure (List String) := do
  let (_, resolved) ← settle document schema
  let properties ← propertySchemas resolved
  (properties.filter fun m => isInlineObject m.2).mapM fun m => m.1.toJson.shown

section
variable {s : Setting} {c d : Call} {r : Inferred} {o : ObjectPlan}

/-- Every object written in place as a property gives a class its one nested model, named after
the key of the property. -/
theorem forall₂_nested {properties : Members} {parts : List Contribution}
    (hwf : ∀ m ∈ properties, m.2.WellFormed) (h : List.Forall₂ (o.Contributed s) properties parts) :
    List.Forall₂ (fun m model => ∃ key, m.1.toJson.shown = .ok key ∧
        model.name = some (propertyModelName o.name key true))
      (properties.filter fun m => isInlineObject m.2) (parts.flatMap (·.nested)) := by
  induction h with
  | nil => exact .nil
  | @cons m part properties parts hpart _ ih =>
    obtain ⟨hm, hwf⟩ := List.forall_mem_cons.1 hwf
    rw [List.flatMap_cons]
    cases hinline : isInlineObject m.2 with
    | false =>
      rw [List.filter_cons_of_neg (by simp [hinline]), nested_eq_nil hinline hpart]
      exact ih hwf
    | true =>
      obtain ⟨model, key, hnested, -, hkey, hname, -⟩ := exists_placed hm hinline hpart
      rw [List.filter_cons_of_pos (by simp [hinline]), hnested]
      exact .cons ⟨key, hkey, hname⟩ (ih hwf)

/-- What the names of the classes nested in a class come down to: the keys under which the
schema of the call that makes the class has objects written in place. -/
theorem Making.clear_nested_iff (hschema : c.schema.WellFormed) (x : Making s)
    (hreached : Reaches s c x.call) :
    ∃ keys, keysInPlace s.document x.call.schema = .ok keys ∧ (Clear (x.nested.map Model.name) ↔
      TellsApart (fun key => propertyModelName x.plan.name key true) keys) := by
  have ho := plan_object x.planned
  have hwf := wellFormed_property hschema hreached x.planned
  obtain ⟨keys, hkeys, hclear⟩ := clear_iff_of_forall₂
    (fun _ => propertyModelName_ne_empty_iff) (forall₂_nested hwf x.contributed)
  refine ⟨keys, ?_, hclear⟩
  rw [keysInPlace, ho.settled, ok_bind]
  exact bind_eq_ok.2 ⟨x.plan.properties, ho.properties, hkeys⟩

end

end Inference

/-! ## The names of an API -/

section
variable {s : Setting} {basePath : String} {methods : List BuiltMethod} {objects enums : List Model}

/-- If the audit finds nothing, the names of all models are clear. -/
theorem clear_of_findings {methods : List Method} {objects enums : List Model}
    (h : Audit.findings methods objects enums = .ok []) :
    Clear ((objects ++ enums).map Model.name) := by
  have hclean := Audit.findings_eq_nil_iff.1 h
  refine ⟨List.forall_mem_map.2 fun m hm => ?_, hclean.distinct⟩
  rcases List.mem_append.1 hm with hm | hm
  · exact (hclean.classes m hm).2
  · exact (hclean.enumerations m hm).2

theorem clear_methods_iff (h : Method.buildAll s basePath = .ok methods) :
    ∃ texts, (Document.operations s.document).mapM Operation.source = .ok texts ∧
      (Clear (methods.map fun b => some b.method.name) ↔ TellsApart Name.camel texts) := by
  obtain ⟨built, hbuilt, hperm⟩ := exists_methods_of_operations h
  have hnamed : List.Forall₂ (fun op b => ∃ text, op.source = .ok text ∧
      some b.method.name = some (Name.camel text)) (Document.operations s.document) built := by
    refine hbuilt.imp fun op b hb => ?_
    obtain ⟨⟨text, htext, hname⟩, -⟩ := named_of_build hb
    exact ⟨text, htext, congrArg some hname⟩
  obtain ⟨texts, htexts, hclear⟩ := clear_iff_of_forall₂ (fun _ => Name.camel_ne_empty_iff) hnamed
  exact ⟨texts, htexts, (clear_iff_of_perm (hperm.map _)).trans hclear⟩

theorem clear_params_iff (h : Method.buildAll s basePath = .ok methods) {built : BuiltMethod}
    (hbuilt : built ∈ methods) : ∃ op ∈ Document.operations s.document, ∃ raws texts,
      op.build s basePath = .ok built ∧ op.params = .ok raws ∧
      raws.mapM (Param.source s.document) = .ok texts ∧
      (Clear (built.method.params.map Param.name) ↔ TellsApart Name.camel texts) := by
  obtain ⟨all, hall, hperm⟩ := exists_methods_of_operations h
  obtain ⟨op, hop, hbuild⟩ := exists_of_mem_right hall (hperm.mem_iff.1 hbuilt)
  obtain ⟨-, raws, hraws, hnamed⟩ := named_of_build hbuild
  obtain ⟨texts, htexts, hclear⟩ := clear_iff_of_forall₂ (fun _ => Name.camel_ne_empty_iff) hnamed
  exact ⟨op, hop, raws, texts, hbuild, hraws, htexts, hclear⟩

theorem clear_nested_iff (h : Method.buildAll s basePath = .ok methods)
    (hseparate : Assembly.separate (Assembly.modelsOf methods) = .ok (objects, enums))
    {head : ClassHead} {nested : List Model}
    (hoccurs : Occurs (Assembly.linkSubclasses objects) (.object head nested)) :
    ∃ c x keys, Starts s c ∧ Making.Gives (s := s) x c { head with subclasses := [] } nested ∧
      keysInPlace s.document x.call.schema = .ok keys ∧ (Clear (nested.map Model.name) ↔
        TellsApart (fun key => propertyModelName x.plan.name key true) keys) := by
  obtain ⟨c, hstarts, x, hx⟩ := made_of_buildAll h hseparate hoccurs
  obtain ⟨keys, hkeys, hclear⟩ := x.clear_nested_iff hstarts.wellFormed hx.reached
  exact ⟨c, x, keys, hstarts, hx, hkeys, hx.nested_eq ▸ hclear⟩

end

/-- If the audit of an API finds nothing, its models have names that are there and differ. The
names of its methods are there and differ exactly if the identifiers of the operations, or their
paths and verbs where they have none, have words and differ in camel case; those of the parameters
of a method, exactly if the names of the operation's parameters do; and those of the classes nested
in a class, at any depth, exactly if the keys have words and give different class names under which
there are objects written in place in the schema that the class is made from. -/
theorem names_clear_iff {types : TypeTable} {document : Document} {name basePath : String}
    {api : ApiModel} (hbuild : ApiModel.build types document name basePath = .ok api)
    (hnone : api.findings = .ok []) :
    Clear ((api.objects ++ api.enums).map Model.name) ∧
    (∃ texts, (Document.operations document).mapM Operation.source = .ok texts ∧
      (Clear (api.methods.map fun m => some m.name) ↔ TellsApart Name.camel texts)) ∧
    (∀ m ∈ api.methods, ∃ op ∈ Document.operations document, ∃ base models raws texts,
      op.build ⟨document, types⟩ base = .ok ⟨m, models⟩ ∧ op.params = .ok raws ∧
      raws.mapM (Param.source document) = .ok texts ∧
      (Clear (m.params.map Param.name) ↔ TellsApart Name.camel texts)) ∧
    ∀ head nested, Occurs api.objects (.object head nested) →
      ∃ c, Starts ⟨document, types⟩ c ∧ ∃ (x : Making ⟨document, types⟩) (keys : List String),
        x.Gives c { head with subclasses := [] } nested ∧
        keysInPlace document x.call.schema = .ok keys ∧ (Clear (nested.map Model.name) ↔
          TellsApart (fun key => propertyModelName x.plan.name key true) keys) := by
  obtain ⟨base, methods, objects, enums, hmethods, hseparate, rfl⟩ :=
    exists_methods_of_build (s := ⟨document, types⟩) hbuild
  refine ⟨clear_of_findings hnone, ?_, fun m hm => ?_, fun head nested hoccurs => ?_⟩
  · rw [List.map_map]
    exact clear_methods_iff hmethods
  · obtain ⟨built, hbuilt, rfl⟩ := List.mem_map.1 hm
    obtain ⟨op, hop, raws, texts, hbuild', hraws, htexts, hclear⟩ := clear_params_iff hmethods hbuilt
    exact ⟨op, hop, base, built.models, raws, texts, hbuild', hraws, htexts, hclear⟩
  · obtain ⟨c, x, keys, hstarts, hnested⟩ := clear_nested_iff hmethods hseparate hoccurs
    exact ⟨c, hstarts, x, keys, hnested⟩

/-! ## Cats and their homes -/

/-- A class with some properties. -/
def classOf (properties : Members) : Json :=
  .obj [("type", .str "object"), ("properties", .obj properties)]

/-- A class with objects written in place under some keys. -/
def withHomes (keys : List String) : Json := classOf (keys.map fun key => (.text key, classOf []))

/-- An operation that takes parameters of some names and returns a class with some homes. -/
def findCats (names keys : List String) : Json :=
  .obj [("operationId", .str "find"),
    ("parameters", .arr (names.map fun name =>
      .obj [("name", .str name), ("in", .str "query"), ("type", .str "string")])),
    ("responses", .obj [("200", .obj [("schema", withHomes keys)])])]

def homesMembers (names keys : List String) (others : Members) : Members :=
  [("paths", .obj (("/cats", .obj [("get", findCats names keys)]) :: others))]

def homes : Document where
  members := homesMembers ["pet_id", "page"] ["home_town", "den"] []

theorem names_clear_iff_homes : ∃ api,
    ApiModel.build Language.swiftTypes homes "Homes" "" = .ok api ∧ api.findings = .ok [] ∧
    Clear ((api.objects ++ api.enums).map Model.name) ∧
    Clear (api.methods.map fun m => some m.name) ∧
    (∀ m ∈ api.methods, Clear (m.params.map Param.name)) ∧
    ∃ head nested, Occurs api.objects (.object head nested) ∧ Clear (nested.map Model.name) ∧
      ∃ c, Starts ⟨homes, Language.swiftTypes⟩ c ∧
        ∃ (x : Making ⟨homes, Language.swiftTypes⟩) (keys : List String),
          x.Gives c { head with subclasses := [] } nested ∧
          keysInPlace homes x.call.schema = .ok keys ∧
          TellsApart (fun key => propertyModelName x.plan.name key true) keys := by
  have hbuilds : ((ApiModel.build Language.swiftTypes homes "Homes" "").toOption.any fun api =>
      api.findings.toOption.any List.isEmpty && api.objects.any fun m =>
        m.isObject && m.nested.length == 2 && decide (Clear (m.nested.map Model.name))) = true := by
    decide +kernel
  have hsources : (((Document.operations homes).mapM Operation.source).toOption.any
      fun texts => decide (TellsApart Name.camel texts)) = true := by
    decide +kernel
  have htaken : ∀ op ∈ Document.operations homes, (op.params.toOption.any fun raws =>
      (raws.mapM (Param.source homes)).toOption.any
        fun texts => decide (TellsApart Name.camel texts)) = true := by
    decide +kernel
  obtain ⟨api, hbuild, htest⟩ := exists_ok_of_any hbuilds
  simp only [Bool.and_eq_true, List.any_eq_true, decide_eq_true_eq] at htest
  obtain ⟨hempty, model, hmodel, ⟨hobject, -⟩, hclear⟩ := htest
  have hnone := eq_ok_nil_of_any hempty
  obtain ⟨hmodels, ⟨texts, htexts, hmethods⟩, hparams, hnested⟩ := names_clear_iff hbuild hnone
  refine ⟨api, hbuild, hnone, hmodels, hmethods.2 ?_, fun m hm => ?_, ?_⟩
  · simpa [htexts, Except.toOption] using hsources
  · obtain ⟨op, hop, _, _, raws, texts, -, hraws, htexts, hclear⟩ := hparams m hm
    exact hclear.2 (by simpa [hraws, htexts, Except.toOption] using htaken op hop)
  · cases model with
    | object head nested =>
      obtain ⟨c, hstarts, x, keys, hx, hkeys, hiff⟩ := hnested head nested (.top hmodel)
      exact ⟨head, nested, .top hmodel, hclear, c, hstarts, x, keys, hx, hkeys, hiff.1 hclear⟩
    | enumeration | property => cases hobject

/-- Homes of which two are called the same and one is not called anything, found by parameters of
which the same is true, as it is of the operations. -/
def strayHomes : Document where
  members := homesMembers ["pet_id", "petId", "-"] ["home_town", "homeTown", "-"]
    [("/dogs", .obj [("get", .obj [("operationId", .str "find")])]),
      ("/lions", .obj [("get", .obj [("operationId", .str "-")])])]

/-- Names can be missing and clash where the audit does not look. -/
theorem clashes_without_findings : ∃ api,
    ApiModel.build Language.swiftTypes strayHomes "Homes" "" = .ok api ∧ api.findings = .ok [] ∧
    ¬ Clear (api.methods.map fun m => some m.name) ∧
    (∃ m ∈ api.methods, ¬ Clear (m.params.map Param.name)) ∧
    ∃ head nested, Occurs api.objects (.object head nested) ∧ ¬ Clear (nested.map Model.name) := by
  have hbase : Assembly.fullBasePath strayHomes "" = .ok "" := by
    rfl
  obtain ⟨api, hbuild, htest⟩ := exists_build_of_sorted (s := ⟨strayHomes, Language.swiftTypes⟩) "Homes"
    (fun api => api.findings.toOption.any List.isEmpty && !decide (Clear (api.methods.map fun m => some m.name)) &&
      (api.methods.any fun m => !decide (Clear (m.params.map Param.name))) &&
      api.objects.any fun m => m.isObject && !decide (Clear (m.nested.map Model.name)))
    hbase (by decide +kernel)
  simp only [Bool.and_eq_true, List.any_eq_true, Bool.not_eq_true', decide_eq_false_iff_not] at htest
  obtain ⟨⟨⟨hempty, hmethods⟩, m, hm, hparams⟩, model, hmodel, hobject, hnested⟩ := htest
  have hnone := eq_ok_nil_of_any hempty
  cases model with
  | object head nested =>
    exact ⟨api, hbuild, hnone, hmethods, ⟨m, hm, hparams⟩, head, nested, .top hmodel, hnested⟩
  | enumeration | property => cases hobject

end ClientForge
