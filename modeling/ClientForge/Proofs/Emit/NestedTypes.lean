-- SUMMARY: The types of nested classes in TypeScript declarations are the names they are exported under at the first level only.
import ClientForge.Proofs.Api.Classes
import ClientForge.Proofs.Emit.Files
import ClientForge.Proofs.Inference.InPlace

/-!
# Types of nested classes

The declarations of a JavaScript client hold an interface for every class, however deep it is
nested (`Declares.contains`), under the names of all classes around it and its own. A property
for an object written in place has a type of two names only, those of its class and of the class
nested for it. So the type is the name of the nested class's interface if its owner is at the top,
and is not if the owner is nested itself (`nested_type_iff`).
-/

namespace ClientForge

namespace Emit

open Members Outcome Schema Inference

/-! ## Text in text -/

/-- A text stands in another one. -/
def Contains (text part : String) : Prop := part.toList <:+: text.toList

theorem Contains.refl (text : String) : Contains text text := List.infix_refl _

theorem Contains.trans {text part inner : String} (h : Contains text part)
    (h' : Contains part inner) : Contains text inner := List.IsInfix.trans h' h

theorem contains_pieces {ps : List String} {p : String} (h : p ∈ ps) : Contains (pieces ps) p := by
  obtain ⟨before, after, rfl⟩ := List.append_of_mem h
  refine ⟨(pieces before).toList, (pieces after).toList, ?_⟩
  simp [pieces, String.toList_join]

theorem contains_forEach {α : Type} {entries : List α} (write : α → String) {a : α}
    (h : a ∈ entries) : Contains (forEach entries write) (write a) :=
  contains_pieces (List.mem_map_of_mem h)

namespace JavaScript

/-! ## Interfaces -/

/-- A model whose interface is written with some names of owners in front of its own. -/
inductive Declares (models : List Model) : String → Model → Prop
  | top {m : Model} (h : m ∈ models) : Declares models "" m
  | nested {owners : String} {head : ClassHead} {nested : List Model} {m : Model}
    (h : Declares models owners (.object head nested)) (hm : m ∈ nested) :
    Declares models (ownersOf owners head.name) m

theorem Declares.occurs {models : List Model} {owners : String} {m : Model}
    (h : Declares models owners m) : Occurs models m := by
  induction h with
  | top h => exact .top h
  | nested _ hm ih => exact .nested ih hm

theorem contains_nestedInterfaces (owners : String) {models : List Model} {m : Model} (h : m ∈ models) :
    Contains (nestedInterfaces owners models) (interface owners m) := by
  induction models with
  | nil => cases h
  | cons first models ih =>
    rw [nestedInterfaces]
    rcases List.mem_cons.1 h with rfl | h
    · exact contains_pieces List.mem_cons_self
    · exact (contains_pieces (by simp)).trans (ih h)

theorem contains_interfaceHead (owners : String) (m : Model) :
    Contains (interface owners m) (interfaceHead owners (classHead m)) := by
  cases m with
  | object head nested =>
    rw [interface]
    exact contains_pieces List.mem_cons_self
  | enumeration e =>
    rw [interface]
    exact .refl _
  | property p =>
    rw [interface]
    exact .refl _

/-- The declarations hold an interface for every model, at any depth. -/
theorem Declares.contains_interface {x : EmitContext} {owners : String} {m : Model}
    (h : Declares x.model.objects owners m) : Contains (declarations x) (interface owners m) := by
  induction h with
  | @top m h =>
    have hwritten := contains_forEach (fun m => pieces [interface "" m, "\n"]) h
    refine Contains.trans (contains_pieces (by simp)) (hwritten.trans ?_)
    exact contains_pieces List.mem_cons_self
  | @nested owners head nested m _ hm ih =>
    refine ih.trans ?_
    rw [interface]
    exact (contains_pieces (by simp)).trans (contains_nestedInterfaces _ hm)

theorem Declares.contains {x : EmitContext} {owners : String} {m : Model}
    (h : Declares x.model.objects owners m) :
    Contains (declarations x) (interfaceHead owners (classHead m)) :=
  h.contains_interface.trans (contains_interfaceHead owners m)

/-! ## Names -/

theorem flatten_of_undotted {name : String} (h : Undotted name) :
    name.toList.map (fun c => if c = '.' then '_' else c) = name.toList := by
  refine (List.map_congr_left fun c hc => ?_).trans (List.map_id _)
  refine if_neg fun hdot => h ?_
  rwa [hdot] at hc

/-- A type of two names is the second under the first, if that is at the top. -/
theorem typeName_nested {owner name : String} (howner : Undotted owner) (hname : Undotted name) :
    typeName (some (String.join [owner, ".", name])) =
      exportName (ownersOf "" (some owner)) (some name) := by
  rw [← String.toList_inj]
  simp [typeName, flatName, exportName, ownersOf, showText, flatten_of_undotted howner,
    flatten_of_undotted hname]

/-- Names of more owners in front make another name. -/
theorem exportName_top_eq_iff {owners : String} {owner name : Option String} :
    exportName (ownersOf "" owner) name = exportName (ownersOf owners owner) name ↔ owners = "" := by
  rw [← String.toList_inj]
  simp [exportName, ownersOf]

/-! ## The declarations of a client -/

theorem forall₂_concat {α β : Type} {R : α → β → Prop} {as : List α} {a : α} {bs : List β}
    (h : List.Forall₂ R (as ++ [a]) bs) : ∃ before b, bs = before ++ [b] ∧ R a b := by
  induction as generalizing bs with
  | nil =>
    obtain ⟨b, rest, hab, hrest, rfl⟩ := List.forall₂_cons_left_iff.1 h
    cases hrest
    exact ⟨[], b, rfl, hab⟩
  | cons first as ih =>
    obtain ⟨b, rest, -, hrest, rfl⟩ := List.forall₂_cons_left_iff.1 h
    obtain ⟨before, last, rfl, hlast⟩ := ih hrest
    exact ⟨b :: before, last, rfl, hlast⟩

/-- The declarations of the last of some APIs are among the files. -/
theorem declarations_mem_of_last {options : EmitOptions} {apis : List Api} {api : Api}
    {clients : List (List OutputFile)} {model : ApiModel} {x : EmitContext}
    (hclients : List.Forall₂ (IsClient .js options) apis clients) (hlast : apis.getLast? = some api)
    (hmodel : modelOf .js api = .ok model) (hx : context options api model = .ok x) :
    ⟨"index.d.ts", declarations x⟩ ∈ putAll clients.flatten := by
  obtain ⟨before, rfl⟩ := List.getLast?_eq_some_iff.1 hlast
  obtain ⟨earlier, fs, rfl, hclient⟩ := forall₂_concat hclients
  obtain ⟨model', x', hmodel', -, hx', hnames, htexts⟩ := hclient
  cases hmodel.symm.trans hmodel'
  cases hx.symm.trans hx'
  have hfs : fs = [⟨"package.json", packageJson x⟩, ⟨"babel.config.js", babelConfig⟩,
      ⟨"index.js", client x⟩, ⟨"index.d.ts", declarations x⟩, ⟨"spec.json", specJson x⟩] := by
    rw [← zipWith_names_texts fs, hnames, htexts]
    rfl
  refine mem_putAll_iff.2 ⟨earlier.flatten ++ fs.take 3, [⟨"spec.json", specJson x⟩], ?_, ?_⟩
  · rw [hfs]
    simp
  · exact List.forall_mem_singleton.2 (by simp)

/-! ## Properties -/

theorem undotted_of_starts {s : Setting} {c : Call} (h : Starts s c) : Undotted c.name := by
  obtain ⟨-, -, -, -, -, -, hstarts⟩ := h
  obtain ⟨_, _, -, -, _, _, -, -, rfl⟩ := hstarts
  exact Name.undotted_ofClass _

/-- A property of a class comes from a member of the properties of the schema that the class is made
from. If that is an object written in place, the type of the property is the name under which the
interface of the model nested for it is exported when the class is at the top. -/
theorem Making.typeName_property {s : Setting} {c : Call} (hc : Starts s c) (x : Making s)
    (hreached : Reaches s c x.call) :
    ∀ p ∈ x.head.properties, ∃ m ∈ x.plan.properties, p.specName = some m.1 ∧
      (isInlineObject m.2 = true → ∃ n ∈ x.nested, x.plan.Places s m p n ∧
        typeName p.type = exportName (ownersOf "" x.head.name) n.name) := by
  have ho := plan_object x.planned
  intro p hp
  obtain ⟨part, hpart, rfl⟩ := List.mem_map.1 (List.mem_of_mem_filter hp)
  obtain ⟨m, hm, hcontributed⟩ := exists_of_mem_right x.contributed hpart
  refine ⟨m, hm, ?_, fun hinline => ?_⟩
  · obtain ⟨spoken, found, -, -, rfl⟩ := hcontributed
    rfl
  · have hwf : m.2.WellFormed := wellFormed_property hc.wellFormed hreached x.planned m hm
    obtain ⟨n, key, hnested, hplaces, -, hname, htype⟩ := exists_placed hwf hinline hcontributed
    have howner : Undotted x.plan.name :=
      ho.name ▸ Call.undotted_ownName (Reaches.undotted hreached (undotted_of_starts hc))
    have hundotted : Undotted (propertyModelName x.plan.name key true) := Name.undotted_ofClassFrom _ _
    refine ⟨n, List.mem_flatMap.2 ⟨part, hpart, hnested ▸ List.mem_singleton_self n⟩, hplaces, ?_⟩
    rw [htype, hname, typeName_nested howner hundotted]
    rfl

/-- The declarations of a JavaScript client hold an interface for every model. A class comes with its
nested models from the call that makes it, and each property that is an object written in place in
the schema of that call has a model nested in the class. The type of the property is the name of
that model's interface exactly if the class is not nested itself. -/
theorem nested_type_iff {options : EmitOptions} {apis : List Api} {outputs : List OutputFile}
    (h : render .js options apis = .ok outputs) {api : Api} (hapi : api ∈ apis) :
    ∃ x, modelOf .js api = .ok x.model ∧ context options api x.model = .ok x ∧
      (apis.getLast? = some api → ⟨"index.d.ts", declarations x⟩ ∈ outputs) ∧
      (∀ owners m, Declares x.model.objects owners m →
        Contains (declarations x) (interfaceHead owners (classHead m))) ∧
      ∀ owners head nested, Declares x.model.objects owners (.object head nested) →
        ∃ c, Starts ⟨api.document, Language.jsTypes⟩ c ∧
          ∃ x : Making ⟨api.document, Language.jsTypes⟩,
            x.Gives c { head with subclasses := [] } nested ∧
            ∀ p ∈ head.properties, ∃ m ∈ x.plan.properties, p.specName = some m.1 ∧
              (isInlineObject m.2 = true → ∃ n ∈ nested,
                x.plan.Places ⟨api.document, Language.jsTypes⟩ m p n ∧
                typeName p.type = exportName (ownersOf "" head.name) n.name ∧
                (typeName p.type = exportName (ownersOf owners head.name) n.name ↔ owners = "")) := by
  obtain ⟨clients, hclients, rfl⟩ := clients_of_render h
  obtain ⟨fs, -, model, x, hmodel, -, hx, -, -⟩ := exists_of_mem_left hclients hapi
  obtain rfl := model_of_context hx
  refine ⟨x, hmodel, hx, fun hlast => declarations_mem_of_last hclients hlast hmodel hx,
    fun owners m hm => hm.contains, fun owners head nested hdeclares => ?_⟩
  obtain ⟨base, methods, objects, enums, hmethods, hseparate, hapiModel⟩ :=
    exists_methods_of_build (s := ⟨api.document, Language.jsTypes⟩) hmodel
  have hoccurs : Occurs (Assembly.linkSubclasses objects) (.object head nested) := by
    have hobjects : x.model.objects = Assembly.linkSubclasses objects := by rw [hapiModel]
    exact hobjects ▸ hdeclares.occurs
  obtain ⟨c, hstarts, made, hmade⟩ := made_of_buildAll hmethods hseparate hoccurs
  refine ⟨c, hstarts, made, hmade, fun p hp => ?_⟩
  have hproperties : head.properties = made.head.properties := by rw [hmade.head_eq]
  have hname : head.name = made.head.name := by rw [hmade.head_eq]
  obtain ⟨m, hm, hspec, hinline⟩ :=
    Making.typeName_property hstarts made hmade.reached p (hproperties ▸ hp)
  refine ⟨m, hm, hspec, fun hin => ?_⟩
  obtain ⟨n, hn, hplaces, htype⟩ := hinline hin
  rw [← hname] at htype
  exact ⟨n, hmade.nested_eq ▸ hn, hplaces, htype, htype ▸ exportName_top_eq_iff⟩

/-! ### A gate in a yard of a kennel -/

/-- An object written in place. -/
def inPlace (properties : Members) : Json :=
  .obj [("type", .str "object"), ("properties", .obj properties)]

def kennels : Api where
  name := "Kennels"
  className := "Kennels"
  basePath := ""
  packageName := none
  document.members :=
    [("paths", .obj [("/kennel", .obj [("get", .obj [("operationId", .str "find"),
      ("responses", .obj [("200", .obj [("schema",
        inPlace [("yard", inPlace [("gate", inPlace [])])])])])])])])]

/-- The client of the kennels, with the classes that it declares. -/
theorem exists_render_kennels : ∃ outputs x yard nested gate,
    render .js plainOptions [kennels] = .ok outputs ∧
      modelOf .js kennels = .ok x.model ∧ context plainOptions kennels x.model = .ok x ∧
      Declares x.model.objects "FindResponse_" (.object yard nested) ∧ gate ∈ nested ∧
      yard.name = some "Yard" ∧ gate.name = some "Gate" ∧
      yard.properties.map (·.type) = [some "Yard.Gate"] := by
  have hbase : Assembly.fullBasePath kennels.document kennels.basePath = .ok "" := by
    rfl
  obtain ⟨outputs, x, houtputs, hmodel, hx, -, htest⟩ := exists_render_of_sorted .js plainOptions
    (fun x => x.model.objects.any fun kennel =>
      kennel.isObject && kennel.name == some "FindResponse" && kennel.nested.any fun yard =>
        yard.isObject && yard.name == some "Yard" &&
          (classHead yard).properties.map (·.type) == [some "Yard.Gate"] &&
          yard.nested.any fun gate => gate.name == some "Gate")
    hbase (by decide +kernel)
  simp only [Bool.and_eq_true, List.any_eq_true, beq_iff_eq] at htest
  obtain ⟨kennel, htop, ⟨hobject, hkennel⟩, yard, hnested, ⟨⟨hobject', hyard⟩, htypes⟩, gate, hgate,
    hname⟩ := htest
  cases kennel with
  | enumeration | property => cases hobject
  | object kennel yards =>
    cases yard with
    | enumeration | property => cases hobject'
    | object yard gates =>
      have hdeclares := (Declares.top htop).nested hnested
      rw [show kennel.name = some "FindResponse" from hkennel] at hdeclares
      exact ⟨outputs, x, yard, gates, gate, houtputs, hmodel, hx, hdeclares, hgate, hyard, hname, htypes⟩

theorem nested_type_iff_kennels : ∃ outputs x yard, ∃ nested : List Model,
    render .js plainOptions [kennels] = .ok outputs ∧
      ⟨"index.d.ts", declarations x⟩ ∈ outputs ∧
      Contains (declarations x) (interfaceHead "FindResponse_" yard) ∧
      ∃ c, Starts ⟨kennels.document, Language.jsTypes⟩ c ∧
        ∃ made : Making ⟨kennels.document, Language.jsTypes⟩,
          made.Gives c { yard with subclasses := [] } nested ∧ yard.properties ≠ [] ∧
          ∀ p ∈ yard.properties, ∃ m ∈ made.plan.properties, p.specName = some m.1 ∧
            (isInlineObject m.2 = true → ∃ n ∈ nested,
              made.plan.Places ⟨kennels.document, Language.jsTypes⟩ m p n ∧
              typeName p.type ≠ exportName (ownersOf "FindResponse_" yard.name) n.name) := by
  obtain ⟨outputs, x, yard, nested, -, hrender, hmodel, hx, hyard, -, -, -, htypes⟩ :=
    exists_render_kennels
  have hsome : yard.properties ≠ [] := by
    intro hnone
    simp [hnone] at htypes
  obtain ⟨x', hmodel', hx', hlast, hcontains, hclasses⟩ :=
    nested_type_iff hrender (List.mem_singleton_self kennels)
  have hmodels : x.model = x'.model := Except.ok.inj (hmodel.symm.trans hmodel')
  rw [hmodels] at hyard
  obtain ⟨c, hstarts, made, hmade, hproperties⟩ := hclasses _ _ _ hyard
  have hcontained := hcontains _ _ hyard
  rw [classHead] at hcontained
  refine ⟨outputs, x', yard, nested, hrender, hlast List.getLast?_singleton,
    hcontained, c, hstarts, made, hmade, hsome, fun p hp => ?_⟩
  obtain ⟨m, hm, hspec, hinline⟩ := hproperties p hp
  refine ⟨m, hm, hspec, fun hin => ?_⟩
  obtain ⟨n, hn, hplaces, -, htype⟩ := hinline hin
  exact ⟨n, hn, hplaces, fun heq => absurd (htype.1 heq) (by decide)⟩

/-- A gate is exported with the kennel in its name and referred to without. -/
theorem misnamed_below_nested : ∃ outputs x yard nested gate,
    render .js plainOptions [kennels] = .ok outputs ∧
      modelOf .js kennels = .ok x.model ∧ context plainOptions kennels x.model = .ok x ∧
      Declares x.model.objects "FindResponse_" (.object yard nested) ∧ gate ∈ nested ∧
      (yard.properties.map (·.type)).map typeName = ["Yard_Gate"] ∧
      exportName (ownersOf "FindResponse_" yard.name) gate.name = "FindResponse_Yard_Gate" := by
  obtain ⟨outputs, x, yard, nested, gate, hrender, hmodel, hx, hdeclares, hmem, hyard, hgate, htypes⟩ :=
    exists_render_kennels
  refine ⟨outputs, x, yard, nested, gate, hrender, hmodel, hx, hdeclares, hmem, ?_, ?_⟩
  · rw [htypes]
    decide +kernel
  · rw [hyard, hgate]
    rfl

end JavaScript

end Emit

end ClientForge
