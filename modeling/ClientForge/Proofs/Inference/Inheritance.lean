-- SUMMARY: A class and the classes that it extends have the properties of the flattened schema.
import Mathlib.Logic.Relation
import ClientForge.Proofs.Inference.Extension
import ClientForge.Proofs.Inference.Fuel
import ClientForge.Proofs.Schema.Kind
import ClientForge.Target.Language

/-!
# Inheritance

The initializer of a class takes its own properties and those that it inherits. Along a
chain of objects that extend one another these are the properties of all that
contributes to the schema (`covers_of_returns`), and so those of the schema flattened
with nothing left out (`initializer_covers`): modelling the base class as an edge neither
loses a property nor invents one.
-/

namespace ClientForge

namespace Inference

open Members Outcome Schema

/-! ## Keys of properties -/

/-- What the keys mean that properties are written under in the document. -/
def specMeanings (properties : List Property) : List Key.Meaning :=
  properties.filterMap fun p => p.specName.map Key.meaning

theorem specMeanings_append (ps qs : List Property) :
    specMeanings (ps ++ qs) = specMeanings ps ++ specMeanings qs :=
  List.filterMap_append

theorem specName_of_sameShape {p q : Property} (h : p.sameShape q = true) :
    p.specName.map Key.meaning = q.specName.map Key.meaning := by
  unfold Property.sameShape Property.same at h
  simp only [Bool.and_eq_true, sameSpecName, beq_iff_eq] at h
  exact h.1.1.1.2

/-- A property that is not declared again is inherited under the same key. -/
theorem mem_specMeanings_own {properties inherited : List Property} {x : Key.Meaning} :
    x ∈ specMeanings (ownProperties properties inherited ++ inherited) ↔
      x ∈ specMeanings properties ∨ x ∈ specMeanings inherited := by
  rw [specMeanings_append, List.mem_append]
  constructor
  · rintro (h | h)
    · obtain ⟨p, hp, hx⟩ := List.mem_filterMap.1 h
      exact .inl (List.mem_filterMap.2 ⟨p, List.mem_of_mem_filter hp, hx⟩)
    · exact .inr h
  · rintro (h | h)
    · obtain ⟨p, hp, hx⟩ := List.mem_filterMap.1 h
      by_cases hrepeats : inherited.any p.sameShape = true
      · obtain ⟨q, hq, hsame⟩ := List.any_eq_true.1 hrepeats
        refine .inr (List.mem_filterMap.2 ⟨q, hq, ?_⟩)
        rw [← specName_of_sameShape hsame, hx]
      · refine .inl (List.mem_filterMap.2 ⟨p, List.mem_filter.2 ⟨hp, ?_⟩, hx⟩)
        simpa using hrepeats
    · exact .inr h

section
variable {s : Setting} {recur : Recur} {o : ObjectPlan}

theorem specMeanings_parts {properties : Members} {parts : List Contribution}
    (h : List.Forall₂ (fun m part =>
      ofProperty recur o.trail.visiting o.name o.required m = .ok part) properties parts) :
    specMeanings (parts.map (·.property)) = meanings properties := by
  induction h with
  | nil => rfl
  | cons hpart _ ih =>
    obtain ⟨spoken, _, found, _, rfl⟩ := ObjectPlan.ofProperty_eq_ok.1 hpart
    unfold specMeanings at ih ⊢
    rw [meanings_cons, ← ih, List.map_cons, List.filterMap_cons]
    rfl

theorem meanings_propertySchemas {resolved properties : Members}
    (h : propertySchemas resolved = .ok properties) : meanings properties = propertyKeys resolved := by
  unfold propertySchemas Members.get at h
  unfold propertyKeys
  cases hget : get? resolved "properties" with
  | none =>
    rw [hget] at h
    cases h
    rfl
  | some v =>
    rw [hget] at h
    cases v with
    | obj held =>
      cases held with
      | nil => cases h; rfl
      | cons m ms => cases h; rfl
    | _ =>
      simp only [Option.getD_some, Json.members] at h
      split at h <;> cases h
      rfl

/-! ## The chain of classes -/

/-- The first of some models is a class whose initializer takes the properties of all that
contributes to a schema. -/
def Covers (document : Members) (schema : Json) (models : List Model) : Prop :=
  ∃ head nested rest, models = .object head nested :: rest ∧
    head.initializer = head.properties ++ head.inherited ∧
    ∀ x, x ∈ specMeanings head.initializer ↔
      ∃ part, Contributes document .null schema part ∧ x ∈ propertyKeys part

/-- The schemas that a schema extends, directly or not, itself included. -/
def Extends (document : Members) : Json → Json → Prop :=
  Relation.ReflTransGen (IsBase document)

theorem Covers.specMeanings_handedDown {document : Members} {schema : Json} {models : List Model}
    (h : Covers document schema models) (x : Key.Meaning) :
    x ∈ specMeanings (handedDown models) ↔
      ∃ part, Contributes document .null schema part ∧ x ∈ propertyKeys part := by
  obtain ⟨head, nested, rest, rfl, hinitializer, hcovers⟩ := h
  rw [← hcovers, hinitializer]
  rfl

/-- What an object covers follows from what its base class does. -/
theorem covers_of_run {c : Call} {r : Inferred} (hschema : c.schema.WellFormed)
    (hmappings : ∀ part, Contributes s.document .null c.schema part → HoldsMapping part)
    (ho : o.Of s c) (hrun : o.run recur = .ok r)
    (hbase : ∀ branch ref found, o.branch = some branch → recur.at (o.baseCall ref branch) = .ok found →
      (baseRef (some branch)).text = .ok ref → Covers s.document branch found.models) :
    Covers s.document c.schema r.models := by
  obtain ⟨parts, base, hparts, hofbase, rfl⟩ := ObjectPlan.run_eq_ok.1 hrun
  have hignoring := fun part hpart =>
    hmappings part ((contributes_settle hschema ho.settled part).2 (.inl hpart))
  obtain ⟨-, hkeys⟩ :=
    mem_propertyKeys_flatten hschema hignoring (flatten_of_settle ho.settled)
  have hown := meanings_propertySchemas ho.properties
  have hinherited : ∀ x, x ∈ specMeanings base.inherited ↔
      ∃ branch part, o.branch = some branch ∧ Contributes s.document .null branch part ∧
        x ∈ propertyKeys part := by
    intro x
    rcases ObjectPlan.ofBase_eq_ok.1 hofbase with ⟨hnone, rfl⟩ | ⟨b, ref, found, hb, href, _, hfound, rfl⟩
    · simp [hnone, Base.none, specMeanings]
    · have hcovers := (hbase b ref found hb hfound href).specMeanings_handedDown x
      simp only [hb, Option.some.injEq, exists_and_left, exists_eq_left']
      exact hcovers
  refine ⟨o.head parts base, _, _, rfl, rfl, fun x => ?_⟩
  have hinitializer : x ∈ specMeanings (o.head parts base).initializer ↔
      x ∈ propertyKeys o.schema ∨ x ∈ specMeanings base.inherited := by
    rw [← hown, ← specMeanings_parts hparts]
    exact mem_specMeanings_own
  rw [hinitializer, hkeys, hinherited]
  constructor
  · rintro (⟨part, hpart, hx⟩ | ⟨b, part, hb, hpart, hx⟩)
    · exact ⟨part, (contributes_settle hschema ho.settled part).2 (.inl hpart), hx⟩
    · exact ⟨part, (contributes_settle hschema ho.settled part).2 (.inr ⟨b, hb, hpart⟩), hx⟩
  · rintro ⟨part, hpart, hx⟩
    rcases (contributes_settle hschema ho.settled part).1 hpart with hpart | ⟨b, hb, hpart⟩
    · exact .inl ⟨part, hpart, hx⟩
    · exact .inr ⟨b, part, hb, hpart, hx⟩

/-- Along a chain of objects, a class covers all that contributes to its schema. -/
theorem covers_of_returns {fuel : Nat} {c : Call} {r : Inferred}
    (hr : (inferWith s fuel).at c = .ok r) (hfresh : ∀ n, ¬ c.IsPlaceholder n)
    (hschema : c.schema.WellFormed)
    (hmappings : ∀ part, Contributes s.document .null c.schema part → HoldsMapping part)
    (hkinds : ∀ schema, Extends s.document c.schema schema →
      kindFound s.document schema = .ok .object) :
    Covers s.document c.schema r.models := by
  induction fuel generalizing c r with
  | zero => cases hr
  | succ fuel ih =>
    rw [inferWith_succ] at hr
    obtain ⟨p, hplan, hrun⟩ := bind_eq_ok.1 hr
    obtain ⟨o, rfl, ho⟩ := plan_of_object (hkinds _ Relation.ReflTransGen.refl) hfresh hplan
    apply covers_of_run hschema hmappings ho hrun
    intro b ref found hb hfound href
    have hbase : IsBase s.document c.schema b := (isBase_iff_of_settle ho.settled).2 hb
    apply ih hfound (o.baseCall_fresh href)
    · exact hbase.preserves stable_wellFormed s.document.wellFormed hschema
    · intro part hpart
      exact hmappings part (hbase.contributes hschema hpart)
    · intro schema hextends
      exact hkinds schema (Relation.ReflTransGen.head hbase hextends)

/-- The initializer of a class takes the properties of its schema, flattened with nothing
left out, if the classes that it extends are all objects. -/
theorem initializer_covers {name ref : String} {r : Inferred} {flat : Members}
    (hreturns : Returns s ⟨⟨[], []⟩, name, refTo ref⟩ r)
    (hflat : flatten s.document (refTo ref) .null = .ok flat)
    (hmappings : ∀ part, Contributes s.document .null (refTo ref) part → HoldsMapping part)
    (hkinds : ∀ schema, Extends s.document (refTo ref) schema →
      kindFound s.document schema = .ok .object) :
    ∃ head nested rest properties, r.models = .object head nested :: rest ∧
      get? flat "properties" = some (.obj properties) ∧
      ∀ x, x ∈ specMeanings head.initializer ↔ x ∈ meanings properties := by
  have hschema := wellFormed_refTo ref
  obtain ⟨fuel, hr⟩ := hreturns
  obtain ⟨head, nested, rest, hmodels, -, hcovers⟩ := covers_of_returns hr
    (fun n hn => List.not_mem_nil hn.2) hschema hmappings hkinds
  obtain ⟨hmapping, hkeys⟩ := mem_propertyKeys_flatten hschema hmappings hflat
  have hhas : ∃ v, get? flat "properties" = some v := by
    obtain ⟨⟨branch, resolved⟩, hsettle, hkind⟩ :=
      bind_eq_ok.1 (hkinds _ Relation.ReflTransGen.refl)
    have hresolved := has_iff.1 (has_properties_of_kind hkind)
    obtain ⟨part, hpart, hmem⟩ :=
      (mem_meanings_flatten (flatten_of_settle hsettle) _).1 hresolved
    refine Option.isSome_iff_exists.1 (has_iff.2 ?_)
    exact (mem_meanings_flatten hflat _).2 ⟨part, hpart.of_ignoring, hmem⟩
  obtain ⟨v, hv⟩ := hhas
  obtain ⟨properties, rfl⟩ := hmapping v hv
  refine ⟨head, nested, rest, properties, hmodels, hv, fun x => ?_⟩
  rw [hcovers, ← hkeys]
  unfold propertyKeys
  rw [hv]

end

/-! ## A class that extends another one -/

def catProperties : Members := [("properties", .obj [("lives", .obj [("type", .str "integer")])])]

/-- A pet with properties of its own. -/
def catMembers : Members := [("allOf", .arr [petRef, .obj catProperties])]

def catDocument : Document where
  members := [("definitions", .obj [("Pet", .obj petMembers), ("Cat", .obj catMembers)])]

def catRef : Json := refTo "#/definitions/Cat"

theorem settle_catRef : settle catDocument catRef = .ok (some petRef, catProperties) := by
  have hfollowed : followRefs catDocument catRef .null = .ok catMembers := by
    cbv
  have hresolved : flatten catDocument catRef (.str "#/definitions/Pet") = .ok catProperties := by
    rfl
  exact settle_eq_ok.2 ⟨_, hfollowed, rfl, hresolved⟩

theorem settle_petRef : settle catDocument petRef = .ok (none, petMembers) := by
  cbv

/-- A chain of two objects, one of which extends the other. -/
theorem kindFound_of_extends_of_settle {document : Members} {derived base schema : Json}
    {own inherited : Members} (hderived : settle document derived = .ok (some base, own))
    (hown : Schema.kind own = .ok .object) (hbase : settle document base = .ok (none, inherited))
    (hinherited : Schema.kind inherited = .ok .object) (h : Extends document derived schema) :
    kindFound document schema = .ok .object := by
  rcases Relation.ReflTransGen.cases_head h with rfl | ⟨b, hb, h⟩
  · rw [kindFound_of_settle hderived, hown]
  · cases (isBase_iff_of_settle hderived).1 hb
    rcases Relation.ReflTransGen.cases_head h with rfl | ⟨b, hb, h⟩
    · rw [kindFound_of_settle hbase, hinherited]
    · cases (isBase_iff_of_settle hbase).1 hb

theorem kindFound_of_extends_cat {schema : Json} (h : Extends catDocument catRef schema) :
    kindFound catDocument schema = .ok .object :=
  kindFound_of_extends_of_settle settle_catRef rfl settle_petRef rfl h

theorem holdsMapping_of_get? {ms properties : Members}
    (h : get? ms "properties" = some (.obj properties)) : HoldsMapping ms := by
  intro v hv
  exact ⟨properties, Option.some.inj (hv.symm.trans h)⟩

theorem holdsMapping_of_contributes_pet {part : Members}
    (h : Contributes catDocument .null petRef part) : HoldsMapping part := by
  cases h with
  | own => exact nofun
  | target href hstart h =>
    cases href
    cases hstart
    cases h with
    | own => exact holdsMapping_of_get? rfl
    | target href => cases href
    | branch hb => cases hb
  | branch hb => cases hb

theorem holdsMapping_of_contributes_cat {part : Members}
    (h : Contributes catDocument .null catRef part) : HoldsMapping part := by
  cases h with
  | own => exact nofun
  | target href hstart h =>
    cases href
    cases hstart
    cases h with
    | own => exact nofun
    | target href => cases href
    | branch hb h =>
      rcases List.mem_pair.1 hb with rfl | rfl
      · exact holdsMapping_of_contributes_pet h
      · cases h with
        | own => exact holdsMapping_of_get? rfl
        | target href => cases href
        | branch hb => cases hb
  | branch hb => cases hb

theorem initializer_covers_cat :
    ∃ r flat, Returns ⟨catDocument, Language.swiftTypes⟩ ⟨⟨[], []⟩, "", catRef⟩ r ∧
      flatten catDocument catRef .null = .ok flat ∧
      ∃ head nested rest properties, r.models = .object head nested :: rest ∧
        get? flat "properties" = some (.obj properties) ∧
        ∀ x, x ∈ specMeanings head.initializer ↔ x ∈ meanings properties := by
  have hreturns : ∃ r, Returns ⟨catDocument, Language.swiftTypes⟩ ⟨⟨[], []⟩, "", catRef⟩ r :=
    ⟨_, 4, rfl⟩
  have hflat : ∃ flat, flatten catDocument catRef .null = .ok flat := ⟨_, rfl⟩
  obtain ⟨r, hr⟩ := hreturns
  obtain ⟨flat, hflat⟩ := hflat
  exact ⟨r, flat, hr, hflat, initializer_covers hr hflat
    (fun _ => holdsMapping_of_contributes_cat) (fun _ => kindFound_of_extends_cat)⟩

end Inference

end ClientForge
