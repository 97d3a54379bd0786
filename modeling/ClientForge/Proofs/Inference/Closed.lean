-- SUMMARY: When the types of the inferred models mention no name that is not emitted.
import ClientForge.Proofs.Inference.Emission
import ClientForge.Target.Language

/-!
# Closed types

A result is closed if its types are built from the names of the type table and of the
models that it emits, and its classes extend classes that it emits. A reference back to
a class under construction gives a name on the promise that the class is emitted. An
object keeps the promise (`emitsObject_of_reaches`), but an array or a map has no model
to emit (`not_closed_list`), and neither has a base class that is no object
(`not_closed_tag`). These are the only ways in which a result is not closed
(`closed_iff`).
-/

namespace ClientForge

/-! ## Names of a type table -/

def TypeEntry.names : TypeEntry → List String
  | .always name => [name]
  | .byFormat formats fallback => fallback :: formats.map Prod.snd
  | .pattern _ => []

/-- The names that a type table has for primitive types. -/
def TypeTable.primitiveNames (t : TypeTable) : List String := t.primitives.flatMap (·.2.names)

namespace Inference

open Members Outcome Schema

theorem mem_of_lookup {α β : Type} [BEq α] [LawfulBEq α] {pairs : List (α × β)} {a : α} {b : β}
    (h : pairs.lookup a = some b) : (a, b) ∈ pairs := by
  obtain ⟨before, after, rfl, -⟩ := List.lookup_eq_some_iff.1 h
  exact List.mem_append_right _ List.mem_cons_self

theorem mem_names_of_pick {formats : List (String × String)} {fallback name : String} {format : Json}
    (h : TypeTable.pick formats fallback format = .ok name) :
    name ∈ (TypeEntry.byFormat formats fallback).names := by
  have hpick : ∀ s, (formats.lookup s).getD fallback ∈ fallback :: formats.map Prod.snd := by
    intro s
    cases hlookup : formats.lookup s with
    | none => exact List.mem_cons_self
    | some found =>
      exact List.mem_cons_of_mem _ (List.mem_map.2 ⟨_, mem_of_lookup hlookup, rfl⟩)
  unfold TypeTable.pick at h
  split at h
  · cases h
    exact List.mem_cons_self
  · obtain ⟨v, -, h⟩ := bind_eq_ok.1 h
    split at h
    · cases h
      exact hpick _
    · cases h
      exact List.mem_cons_self

theorem mem_primitiveNames {t : TypeTable} {type : Option String} {format : Json} {name : String}
    (h : t.primitive type format = .ok name) : name ∈ t.primitiveNames := by
  unfold TypeTable.primitive at h
  cases hentry : t.entry? type with
  | none => rw [hentry] at h; cases h
  | some entry =>
    have hmem : ∃ type, (type, entry) ∈ t.primitives := by
      unfold TypeTable.entry? at hentry
      cases type with
      | none => cases hentry
      | some type =>
        dsimp only at hentry
        split at hentry
        · cases hentry
        · exact ⟨type, mem_of_lookup hentry⟩
    obtain ⟨type, hmem⟩ := hmem
    refine List.mem_flatMap.2 ⟨_, hmem, ?_⟩
    rw [hentry] at h
    cases entry with
    | always => cases h; exact List.mem_cons_self
    | byFormat => exact mem_names_of_pick h
    | pattern => cases h

/-! ## Closed results -/

/-- A type built from the names of a type table and from known ones. -/
inductive Built (types : TypeTable) (Known : String → Prop) : String → Prop
  | void : Built types Known types.void
  | any : Built types Known types.any
  | primitive {name : String} (h : name ∈ types.primitiveNames) : Built types Known name
  | known {name : String} (h : Known name) : Built types Known name
  | array {inner : String} (h : Built types Known inner) : Built types Known (types.arrayOf inner)
  | map {inner : String} (h : Built types Known inner) : Built types Known (types.mapOf (some inner))
  | anyMap : Built types Known (types.mapOf none)

theorem Built.mono {types : TypeTable} {Known Known' : String → Prop} {t : String}
    (h : Built types Known t) (hknown : ∀ n, Known n → Known' n) : Built types Known' t := by
  induction h with
  | void => exact .void
  | any => exact .any
  | primitive h => exact .primitive h
  | known h => exact .known (hknown _ h)
  | array _ ih => exact .array ih
  | map _ ih => exact .map ih
  | anyMap => exact .anyMap

/-- A model of some name is in the result. -/
def Emits (r : Inferred) (name : String) : Prop := ∃ m ∈ r.models, m.name = some name

/-- A class of some name is in the result. -/
def EmitsObject (r : Inferred) (name : String) : Prop :=
  ∃ m ∈ r.models, m.isObject = true ∧ m.name = some name

/-- The name of a model nested in a class, told with that of the class. -/
def Qualifies (head : ClassHead) (nested : List Model) (t : String) : Prop :=
  ∃ owner name, head.name = some owner ∧ (∃ m ∈ nested, m.name = some name) ∧
    t = String.join [owner, ".", name]

/-- A model that mentions no name that is not emitted, at any depth. -/
inductive ClosedModel (types : TypeTable) (r : Inferred) : Model → Prop
  | object {head : ClassHead} {nested : List Model}
    (hproperties : ∀ p ∈ head.properties, ∃ t, p.type = some t ∧
      Built types (fun n => Emits r n ∨ Qualifies head nested n) t)
    (hsuperclass : ∀ n, head.superclass = some n → EmitsObject r n)
    (hnested : ∀ m ∈ nested, ClosedModel types r m) : ClosedModel types r (.object head nested)
  | enumeration (e : EnumModel) : ClosedModel types r (.enumeration e)

structure Closed (types : TypeTable) (r : Inferred) : Prop where
  type : Built types (Emits r) r.type.name
  models : ∀ m ∈ r.models, ClosedModel types r m

/-- Every name given for a class under construction is emitted. -/
def PlaceholdersEmitted (s : Setting) (c : Call) (r : Inferred) : Prop :=
  ∀ d n, Reaches s c d → d.IsPlaceholder n → Emits r n

/-- Every array or map is emitted that is met again while it is inferred. -/
def ContainersEmitted (s : Setting) (c : Call) (r : Inferred) : Prop :=
  ∀ e d n, Reaches s c e → e.className? = some n →
    kindFound s.document e.schema = .ok .array ∨ kindFound s.document e.schema = .ok .map →
    Relation.TransGen (Nested s) e d → d.IsPlaceholder n → Emits r n

/-- A class built on the way extends a branch with some reference. -/
def BuildsOn (s : Setting) (c : Call) (branch : Json) (ref : String) : Prop :=
  ∃ d, Reaches s c d ∧ (∀ n, ¬ d.IsPlaceholder n) ∧
    kindFound s.document d.schema = .ok .object ∧ IsBase s.document d.schema branch ∧
    (baseRef (some branch)).text = .ok ref

/-- Every base class that is no object has the name of a class that is emitted. -/
def OddBasesEmitted (s : Setting) (c : Call) (r : Inferred) : Prop :=
  ∀ branch ref, BuildsOn s c branch ref → kindFound s.document branch ≠ .ok .object →
    EmitsObject r (Name.ofReference ref)

section
variable {s : Setting} {c d e : Call} {r rd : Inferred}

/-! ## Classes under construction -/

/-- A class under construction is being built by a call further out. -/
theorem exists_enclosing (hstart : c.trail.visiting = []) (h : Reaches s c d) {n : String}
    (hn : n ∈ d.trail.visiting) :
    ∃ e, Reaches s c e ∧ Relation.TransGen (Nested s) e d ∧ e.className? = some n := by
  induction h with
  | refl =>
    rw [hstart] at hn
    cases hn
  | @tail d d' hreaches hnested ih =>
    have hvisited : n ∈ d.visited := by
      rcases hnested.inside_or_above with hinside | ⟨ref, habove⟩
      · rw [hinside.trail] at hn
        exact hn
      · rw [habove.trail] at hn
        exact List.mem_of_mem_filter hn
    rcases List.mem_append.1 hvisited with hclass | hvisiting
    · exact ⟨d, hreaches, .single hnested, Option.mem_toList.1 hclass⟩
    · obtain ⟨e, he, hchain, hclass⟩ := ih hvisiting
      exact ⟨e, he, hchain.tail hnested, hclass⟩

theorem kindFound_of_nested (h : Nested s c d) :
    kindFound s.document c.schema = .ok .object ∨ kindFound s.document c.schema = .ok .array ∨
      kindFound s.document c.schema = .ok .map := by
  have hobject : ∀ {o : ObjectPlan}, plan s c = .ok (.object o) →
      kindFound s.document c.schema = .ok .object := by
    intro o hplan
    have ho := plan_object hplan
    rw [kindFound_of_settle ho.settled, ho.kind]
  cases h with
  | inner hplan => exact .inr (plan_container hplan).kindFound
  | property hplan => exact .inl (hobject hplan)
  | base hplan => exact .inl (hobject hplan)

theorem isInlineObject_of_get? {ms : Members} {v : Json} (h : get? ms "$ref" = some v) :
    isInlineObject (.obj ms) = false := by
  simp [isInlineObject, Members.has, h]

theorem isInlineObject_of_className? {n : String} (h : d.className? = some n) :
    isInlineObject d.schema = false := by
  obtain ⟨ref, href, -⟩ := Option.map_eq_some_iff.1 h
  obtain ⟨ms, hschema, hget, -⟩ := ref?_eq_some_iff.1 href
  rw [hschema]
  exact isInlineObject_of_get? hget

theorem ownName_of_isInlineObject (h : isInlineObject d.schema = true) : d.ownName = d.name := by
  cases hname : d.className? with
  | none => rw [Call.ownName, hname, Option.getD_none]
  | some n =>
    rw [isInlineObject_of_className? hname] at h
    cases h

theorem isInlineObject_of_baseRef {branch : Json} {ref : String}
    (h : (baseRef (some branch)).text = .ok ref) : isInlineObject branch = false := by
  obtain ⟨ms, v, rfl, hget⟩ := exists_of_baseRef h
  exact isInlineObject_of_get? hget

/-- A base class is named after its reference, an empty one like any other. -/
theorem ownName_baseCall (o : ObjectPlan) {branch : Json} {ref : String}
    (h : (baseRef (some branch)).text = .ok ref) :
    (o.baseCall ref branch).ownName = Name.ofReference ref := by
  have href : (o.baseCall ref branch).ref? = if ref = "" then none else some ref :=
    ref?_of_baseRef h
  unfold Call.ownName Call.className?
  rw [href]
  split
  · rename_i hempty
    have hname : Name.ofReference "" = "" := by decide
    rw [hempty, hname]
    rfl
  · rfl

/-- An object that is reached is emitted, unless it is written in place. -/
theorem emitsObject_of_reaches (hschema : c.schema.WellFormed) (hc : Returns s c r)
    (h : Reaches s c e) (hfresh : ∀ n, ¬ e.IsPlaceholder n)
    (hkind : kindFound s.document e.schema = .ok .object)
    (hinline : isInlineObject e.schema = false) : EmitsObject r e.ownName := by
  obtain ⟨re, he⟩ := Reaches.returns h hc
  obtain ⟨p, hplan⟩ := exists_plan_of_returns he
  obtain ⟨o, rfl, ho⟩ := plan_of_object hkind hfresh hplan
  obtain ⟨parts, base, -, -, rfl⟩ := he.object hplan
  have hmodels := models_of_reaches hschema h hc he hinline
  refine ⟨_, hmodels _ List.mem_cons_self, rfl, ?_⟩
  rw [← ho.name]
  rfl

/-- An object keeps the promise that it is emitted, so only arrays and maps can break it. -/
theorem placeholdersEmitted_of_containers (hschema : c.schema.WellFormed)
    (hstart : c.trail.visiting = []) (hc : Returns s c r) (hcontainers : ContainersEmitted s c r) :
    PlaceholdersEmitted s c r := by
  rintro d n hd ⟨hclass, hmem⟩
  obtain ⟨e, he, hchain, hclasse⟩ := exists_enclosing hstart hd hmem
  obtain ⟨x, hnested, -⟩ := Relation.TransGen.head'_iff.1 hchain
  rcases kindFound_of_nested hnested with hkind | hkind
  · have hinline := isInlineObject_of_className? hclasse
    obtain ⟨m, hm, -, hname⟩ := emitsObject_of_reaches hschema hc he hnested.fresh hkind hinline
    refine ⟨m, hm, hname.trans ?_⟩
    rw [Call.ownName, hclasse]
    rfl
  · exact hcontainers e d n he hclasse hkind hchain ⟨hclass, hmem⟩

/-! ## From the names to the types -/

/-- The first model of a result has some name. -/
def Heads (r : Inferred) (name : String) : Prop := ∃ m ∈ r.models.head?, m.name = some name

/-- An enumeration is named by the one model that it gives. -/
theorem exists_enumeration {resolved : Members} {name : String} {found : Inferred}
    (h : ofEnumeration s resolved name = .ok found) :
    ∃ e : EnumModel, e.name = some name ∧ found = ⟨⟨name, none⟩, [.enumeration e]⟩ := by
  unfold ofEnumeration at h
  simp only [bind_eq_ok, pure_eq, Except.ok.injEq] at h
  obtain ⟨type, -, enumType, -, entries, -, cases, -, rfl⟩ := h
  exact ⟨_, rfl, rfl⟩

/-- What is done without further calls is a type of the table, or an enumeration. -/
theorem built_of_planOfKind {trail : Trail} {name : String} {specName : Key} {branch : Option Json}
    {resolved : Members} {kind : Schema.Kind} {found : Inferred}
    (h : planOfKind s trail name specName branch resolved kind = .ok (.done found)) :
    Built s.types (Heads found) found.type.name ∧ ∀ m ∈ found.models, ClosedModel s.types r m := by
  cases kind with
  | enumeration =>
    obtain ⟨found', henum, h⟩ := map_eq_ok.1 h
    cases h
    obtain ⟨e, hname, rfl⟩ := exists_enumeration henum
    refine ⟨.known ⟨_, rfl, hname⟩, fun m hm => ?_⟩
    rw [List.mem_singleton.1 hm]
    exact .enumeration e
  | array =>
    simp only [planOfKind] at h
    split at h <;> cases h
  | object =>
    obtain ⟨required, -, h⟩ := bind_eq_ok.1 h
    obtain ⟨properties, -, h⟩ := bind_eq_ok.1 h
    cases h
  | map =>
    simp only [planOfKind] at h
    split at h
    · cases h
    · cases h
      exact ⟨.anyMap, List.forall_mem_nil _⟩
  | void =>
    cases h
    exact ⟨.void, List.forall_mem_nil _⟩
  | primitive =>
    obtain ⟨found', hprimitive, h⟩ := map_eq_ok.1 h
    cases h
    unfold ofPrimitive at hprimitive
    simp only [bind_eq_ok, pure_eq, Except.ok.injEq] at hprimitive
    obtain ⟨type, -, primitive, hname, format, -, rfl⟩ := hprimitive
    refine ⟨.primitive ?_, List.forall_mem_nil _⟩
    cases hnamed : s.types.primitive (some type) (Members.get resolved "format") with
    | ok named =>
      rw [hnamed] at hname
      cases hname
      exact mem_primitiveNames hnamed
    | error e => rw [hnamed] at hname; cases hname

/-- An object written in place has the first of its models for its type. -/
theorem exists_first_of_isInlineObject (hwf : d.schema.WellFormed)
    (hinline : isInlineObject d.schema = true) (h : Returns s d rd) :
    rd.type.name = d.ownName ∧ ∃ m rest, rd.models = m :: rest ∧ m.name = some d.ownName := by
  obtain ⟨p, hplan⟩ := exists_plan_of_returns h
  rcases plan_eq_ok hplan with ⟨hfalse, -⟩ | ⟨n, hplaceholder, -⟩ | ⟨-, branch, resolved, kind, hsettle, hkind, hp⟩
  · cases hd : d.schema with
    | obj ms =>
      cases ms with
      | nil => rw [hd] at hinline; cases hinline
      | cons => rw [hd] at hfalse; cases hfalse
    | _ => rw [hd] at hinline; cases hinline
  · rw [isInlineObject_of_className? hplaceholder.1] at hinline
    cases hinline
  · have hkindFound := (kindFound_of_settle hsettle).trans hkind
    rcases kind_of_isInlineObject hwf hinline hkindFound with rfl | rfl
    · obtain ⟨found, henum, rfl⟩ := map_eq_ok.1 hp
      obtain ⟨e, hname, rfl⟩ := exists_enumeration henum
      rw [h.done hplan]
      exact ⟨rfl, _, _, rfl, hname⟩
    · obtain ⟨required, -, hp⟩ := bind_eq_ok.1 hp
      obtain ⟨properties, -, hp⟩ := bind_eq_ok.1 hp
      cases hp
      obtain ⟨parts, base, -, -, rfl⟩ := h.object hplan
      exact ⟨rfl, _, _, rfl, rfl⟩

theorem heads_of_isInlineObject (hwf : d.schema.WellFormed) (hinline : isInlineObject d.schema = true)
    (h : Returns s d rd) : Heads rd rd.type.name := by
  obtain ⟨htype, m, rest, hmodels, hname⟩ := exists_first_of_isInlineObject hwf hinline h
  rw [htype]
  exact ⟨m, by rw [hmodels]; rfl, hname⟩

/-- All names that types and classes refer to are emitted. -/
structure NamesEmitted (s : Setting) (c : Call) (r : Inferred) : Prop where
  placeholders : PlaceholdersEmitted s c r
  bases : ∀ branch ref, BuildsOn s c branch ref → EmitsObject r (Name.ofReference ref)

/-- A result that mentions no name that is not emitted, but for that of its first model. -/
def ClosedIn (types : TypeTable) (r rd : Inferred) : Prop :=
  Built types (fun n => Emits r n ∨ Heads rd n) rd.type.name ∧
    ∀ m ∈ rd.models, ClosedModel types r m

section
variable {o : ObjectPlan} {parts : List Contribution}
  (hschema : c.schema.WellFormed) (hc : Returns s c r) (hd : Reaches s c d)
  (hplan : plan s d = .ok (.object o))
  (hparts : List.Forall₂ (o.Contributed s) o.properties parts)
  (ih : ∀ e re, Nested s d e → Returns s e re → ClosedIn s.types r re)
include hschema hc hd hplan hparts ih

/-- A property has a closed type, and so do the models that it contributes. -/
theorem closed_of_contributed {part : Contribution} (hpart : part ∈ parts) :
    (∃ t, part.property.type = some t ∧ Built s.types (fun n => Emits r n ∨
      ∃ name, (∃ m ∈ part.nested, m.name = some name) ∧ n = String.join [o.name, ".", name]) t) ∧
      ∀ m ∈ part.nested ++ part.beside, ClosedModel s.types r m := by
  obtain ⟨m, hm, spoken, found, hspoken, hfound, rfl⟩ := exists_of_mem_right hparts hpart
  have hnested := nested_property hplan hparts hm hspoken
  obtain ⟨hbuilt, hmodels⟩ := ih _ _ hnested hfound
  have hwf : (o.propertyCall spoken m.2).schema.WellFormed :=
    Reaches.wellFormed (hd.tail hnested) hschema
  by_cases hinline : isInlineObject m.2 = true
  · obtain ⟨first, hfirst, hname⟩ := heads_of_isInlineObject hwf hinline hfound
    have hmem : first ∈ found.models.take 1 := by
      cases hfound' : found.models with
      | nil => rw [hfound'] at hfirst; cases hfirst
      | cons => rw [hfound'] at hfirst; cases hfirst; exact List.mem_cons_self
    simp only [ObjectPlan.contribution, hinline, if_true, List.take_append_drop]
    exact ⟨⟨_, rfl, .known (.inr ⟨found.type.name, ⟨first, hmem, hname⟩, rfl⟩)⟩, hmodels⟩
  · have hkept := models_of_reaches hschema (hd.tail hnested) hc hfound
      (Bool.eq_false_iff.2 hinline)
    simp only [ObjectPlan.contribution, hinline, List.nil_append, Bool.false_eq_true, if_false]
    refine ⟨⟨_, rfl, hbuilt.mono fun n hn => ?_⟩, hmodels⟩
    rcases hn with hn | ⟨m', hm', hname⟩
    · exact .inl hn
    · exact .inl ⟨m', hkept m' (List.mem_of_mem_head? hm'), hname⟩

/-- An object has closed types if its properties and its base class do. -/
theorem closed_of_object {base : Base} (hbase : o.Inherits s base)
    (hbases : ∀ branch ref, BuildsOn s c branch ref → EmitsObject r (Name.ofReference ref)) :
    ClosedIn s.types r (o.assembled parts base) := by
  have ho := plan_object hplan
  have hclosed := fun (part : Contribution) (hpart : part ∈ parts) =>
    closed_of_contributed hschema hc hd hplan hparts ih hpart
  have hsuper : (∀ n, base.name = some n → EmitsObject r n) ∧
      ∀ m ∈ base.models, ClosedModel s.types r m := by
    rcases hbase with ⟨-, rfl⟩ | ⟨b, ref, found, hb, href, hcircular, hfound, rfl⟩
    · exact ⟨nofun, nofun⟩
    · refine ⟨fun n hn => ?_, (ih _ _ (nested_base hplan hparts hb href hcircular) hfound).2⟩
      rw [← Option.some.inj hn]
      refine hbases b ref ⟨d, hd, ho.fresh, ?_, (isBase_iff_of_settle ho.settled).2 hb, href⟩
      rw [kindFound_of_settle ho.settled, ho.kind]
  refine ⟨.known (.inr ⟨_, rfl, rfl⟩), ?_⟩
  intro m hm
  rcases List.mem_append.1 hm with hm | hm
  · rcases List.mem_cons.1 hm with rfl | hm
    · refine .object (fun p hp => ?_) hsuper.1 (fun m hm => ?_)
      · obtain ⟨part, hpart, rfl⟩ := List.mem_map.1 (List.mem_of_mem_filter hp)
        obtain ⟨⟨t, htype, hbuilt⟩, -⟩ := hclosed part hpart
        refine ⟨t, htype, hbuilt.mono fun n hn => ?_⟩
        rcases hn with hn | ⟨name, ⟨m, hm, hname⟩, rfl⟩
        · exact .inl hn
        · exact .inr ⟨o.name, name, rfl, ⟨m, List.mem_flatMap.2 ⟨part, hpart, hm⟩, hname⟩, rfl⟩
      · obtain ⟨part, hpart, hm⟩ := List.mem_flatMap.1 hm
        exact (hclosed part hpart).2 m (List.mem_append_left _ hm)
    · obtain ⟨part, hpart, hm⟩ := List.mem_flatMap.1 hm
      exact (hclosed part hpart).2 m (List.mem_append_right _ hm)
  · exact hsuper.2 m hm

end

/-- If all names are emitted, what a call that is reached returns is closed. -/
theorem closed_of_reaches (hschema : c.schema.WellFormed) (hc : Returns s c r)
    (hnames : NamesEmitted s c r) (hd : Reaches s c d) (h : Returns s d rd) :
    ClosedIn s.types r rd := by
  have hacc : Acc (fun d c => Nested s c d) d := by
    obtain ⟨fuel, hfuel⟩ := h
    exact ends_iff_acc.1 (ends_iff.2 ⟨fuel, hfuel ▸ settled_ok rd⟩)
  induction hacc generalizing rd with
  | intro d _ ih =>
    obtain ⟨p, hplan⟩ := exists_plan_of_returns h
    cases p with
    | done found =>
      rw [h.done hplan]
      rcases plan_eq_ok hplan with ⟨-, hvoid⟩ | ⟨n, hplaceholder, hn⟩ | ⟨-, branch, resolved, kind, -, -, hp⟩
      · cases hvoid
        exact ⟨.void, nofun⟩
      · cases hn
        exact ⟨.known (.inl (hnames.placeholders d n hd hplaceholder)), nofun⟩
      · obtain ⟨hbuilt, hmodels⟩ := built_of_planOfKind (r := r) hp
        exact ⟨hbuilt.mono fun n => .inr, hmodels⟩
    | container kind inner =>
      obtain ⟨found, hfound, rfl⟩ := h.container hplan
      have hnested : Nested s d inner := .inner hplan
      obtain ⟨hbuilt, hmodels⟩ := ih inner hnested (hd.tail hnested) hfound
      cases kind with
      | array => exact ⟨.array hbuilt, hmodels⟩
      | map => exact ⟨.map hbuilt, hmodels⟩
    | object o =>
      obtain ⟨parts, base, hparts, hbase, rfl⟩ := h.object hplan
      refine closed_of_object hschema hc hd hplan hparts ?_ hbase hnames.bases
      intro e re hnested he
      exact ih e hnested (hd.tail hnested) he

/-! ## The names that are not emitted -/

theorem ClosedModel.nested {types : TypeTable} {m : Model} (h : ClosedModel types r m) :
    ∀ m' ∈ m.nested, ClosedModel types r m' := by
  cases h with
  | object _ _ hnested => exact hnested
  | enumeration => exact nofun

/-- A class that extends a branch has returned with what its base class did. -/
theorem BuildsOn.exists_object (hc : Returns s c r) {branch : Json} {ref : String}
    (h : BuildsOn s c branch ref) :
    ∃ (d : Call) (o : ObjectPlan) (parts : List Contribution) (found : Inferred),
      Reaches s c d ∧ Nested s d (o.baseCall ref branch) ∧
      Returns s d (o.assembled parts (ObjectPlan.inheriting (Name.ofReference ref) found)) := by
  obtain ⟨d, hd, hfresh, hkind, hbase, href⟩ := h
  obtain ⟨rd, hrd⟩ := Reaches.returns hd hc
  obtain ⟨p, hplan⟩ := exists_plan_of_returns hrd
  obtain ⟨o, rfl, ho⟩ := plan_of_object hkind hfresh hplan
  obtain ⟨parts, base, hparts, hinherits, rfl⟩ := hrd.object hplan
  have hb := (isBase_iff_of_settle ho.settled).1 hbase
  rcases hinherits with ⟨hnone, -⟩ | ⟨b, ref', found, hb', href', hcircular, -, rfl⟩
  · rw [hb] at hnone
    cases hnone
  · cases hb.symm.trans hb'
    cases href.symm.trans href'
    exact ⟨d, o, parts, found, hd, nested_base hplan hparts hb href hcircular, hrd⟩

/-- Whatever a class that is built extends is the superclass of a model. -/
theorem emitsObject_of_closed (hc : Returns s c r) (hclosed : ∀ m ∈ r.models, ClosedModel s.types r m)
    {branch : Json} {ref : String} (h : BuildsOn s c branch ref) :
    EmitsObject r (Name.ofReference ref) := by
  obtain ⟨d, o, parts, found, hd, -, hrd⟩ := h.exists_object hc
  have hmodels := all_of_reaches (fun m => ClosedModel.nested) hd hc hrd hclosed
  cases hmodels _ List.mem_cons_self with
  | object _ hsuperclass => exact hsuperclass _ rfl

/-- A base class that is an object is emitted. -/
theorem emitsObject_of_base (hschema : c.schema.WellFormed)
    (hc : Returns s c r) {branch : Json} {ref : String} (h : BuildsOn s c branch ref)
    (hkind : kindFound s.document branch = .ok .object) : EmitsObject r (Name.ofReference ref) := by
  obtain ⟨d, o, parts, found, hd, hnested, -⟩ := h.exists_object hc
  obtain ⟨-, -, -, -, -, href⟩ := h
  rw [← ownName_baseCall o href]
  exact emitsObject_of_reaches hschema hc (hd.tail hnested) (o.baseCall_fresh href) hkind
    (isInlineObject_of_baseRef href)

/-- The types of a result are closed and the names of classes under construction emitted exactly
if that holds of the arrays and maps among them and of the base classes that are no objects. -/
theorem closed_iff {schema : Json} {name : String} (hschema : schema.WellFormed)
    (hreturns : Returns s ⟨⟨[], []⟩, name, schema⟩ r) :
    Closed s.types r ∧ PlaceholdersEmitted s ⟨⟨[], []⟩, name, schema⟩ r ↔
      ContainersEmitted s ⟨⟨[], []⟩, name, schema⟩ r ∧
        OddBasesEmitted s ⟨⟨[], []⟩, name, schema⟩ r := by
  constructor
  · rintro ⟨hclosed, hplaceholders⟩
    refine ⟨fun e d n he _ _ hchain hd => ?_, fun branch ref hb _ => ?_⟩
    · exact hplaceholders d n (he.trans hchain.to_reflTransGen) hd
    · exact emitsObject_of_closed hreturns hclosed.models hb
  · rintro ⟨hcontainers, hodd⟩
    have hplaceholders := placeholdersEmitted_of_containers hschema rfl hreturns hcontainers
    have hbases : ∀ branch ref, BuildsOn s ⟨⟨[], []⟩, name, schema⟩ branch ref →
        EmitsObject r (Name.ofReference ref) := by
      intro branch ref hb
      by_cases hkind : kindFound s.document branch = .ok .object
      · exact emitsObject_of_base hschema hreturns hb hkind
      · exact hodd branch ref hb hkind
    obtain ⟨hbuilt, hmodels⟩ :=
      closed_of_reaches hschema hreturns ⟨hplaceholders, hbases⟩ .refl hreturns
    refine ⟨⟨hbuilt.mono fun n hn => ?_, hmodels⟩, hplaceholders⟩
    rcases hn with hn | ⟨m, hm, hname⟩
    · exact hn
    · exact ⟨m, List.mem_of_mem_head? hm, hname⟩

end

/-! ## A class that refers to itself -/

def treeMembers : Members :=
  [("type", .str "object"), ("properties", .obj [("parent", refTo "#/definitions/Tree")])]

def treeDocument : Document where
  members := [("definitions", .obj [("Tree", .obj treeMembers)])]

theorem closed_iff_tree :
    ∃ r, Returns ⟨treeDocument, Language.swiftTypes⟩ ⟨⟨[], []⟩, "", refTo "#/definitions/Tree"⟩ r ∧
      (Closed Language.swiftTypes r ∧ PlaceholdersEmitted ⟨treeDocument, Language.swiftTypes⟩
          ⟨⟨[], []⟩, "", refTo "#/definitions/Tree"⟩ r ↔
        ContainersEmitted ⟨treeDocument, Language.swiftTypes⟩
            ⟨⟨[], []⟩, "", refTo "#/definitions/Tree"⟩ r ∧
          OddBasesEmitted ⟨treeDocument, Language.swiftTypes⟩
            ⟨⟨[], []⟩, "", refTo "#/definitions/Tree"⟩ r) := by
  have hreturns : ∃ r, Returns ⟨treeDocument, Language.swiftTypes⟩
      ⟨⟨[], []⟩, "", refTo "#/definitions/Tree"⟩ r := ⟨_, 3, rfl⟩
  obtain ⟨r, hr⟩ := hreturns
  exact ⟨r, hr, closed_iff (wellFormed_refTo _) hr⟩

/-! ## An array of itself and a class that extends a text -/

def listMembers : Members := [("type", .str "array"), ("items", refTo "#/definitions/List")]

def listDocument : Document where
  members := [("definitions", .obj [("List", .obj listMembers)])]

theorem arrayOf_swift (inner : String) :
    (Language.swiftTypes.arrayOf inner).toList = "Array<".toList ++ inner.toList ++ ">".toList := by
  unfold TypeTable.arrayOf TypeTable.fill
  rw [String.toList_ofList]
  rfl

theorem mapOf_swift (inner : Option String) :
    (Language.swiftTypes.mapOf inner).toList.head? = some 'D' := by
  unfold TypeTable.mapOf TypeTable.fill
  cases inner with
  | none => rfl
  | some inner =>
    dsimp only
    rw [String.toList_ofList]
    rfl

/-- An array of itself is inferred to be an array of a class that is nowhere emitted. -/
theorem not_closed_list :
    infer ⟨listDocument, Language.swiftTypes⟩ "" (refTo "#/definitions/List") =
        .ok ⟨⟨"Array<List>", none⟩, []⟩ ∧
      ¬ Closed Language.swiftTypes ⟨⟨"Array<List>", none⟩, []⟩ := by
  refine ⟨rfl, fun h => ?_⟩
  have hbuilt : ∀ t, Built Language.swiftTypes (Emits ⟨⟨"Array<List>", none⟩, []⟩) t →
      t ≠ "List" ∧ t ≠ "Array<List>" := by
    intro t ht
    induction ht with
    | void => decide
    | any => decide
    | primitive h =>
      have hnames : ∀ n ∈ Language.swiftTypes.primitiveNames, n ≠ "List" ∧ n ≠ "Array<List>" := by
        decide
      exact hnames _ h
    | known h =>
      obtain ⟨m, hm, -⟩ := h
      cases hm
    | @array inner _ ih =>
      have hchars := arrayOf_swift inner
      refine ⟨fun heq => ?_, fun heq => ih.1 ?_⟩
      · rw [heq] at hchars
        cases hchars
      · have hlist : "Array<List>".toList = "Array<".toList ++ "List".toList ++ ">".toList := by
          decide
        rw [heq, hlist, List.append_left_inj, List.append_right_inj] at hchars
        exact String.toList_inj.1 hchars.symm
    | @map inner _ _ =>
      have hchars := mapOf_swift (some inner)
      refine ⟨fun heq => ?_, fun heq => ?_⟩ <;> rw [heq] at hchars <;> cases hchars
    | anyMap =>
      have hchars := mapOf_swift none
      refine ⟨fun heq => ?_, fun heq => ?_⟩ <;> rw [heq] at hchars <;> cases hchars
  exact (hbuilt _ h.type).2 rfl

def tagMembers : Members :=
  [("allOf", .arr [refTo "#/definitions/Label", .obj [("properties", .obj [])]])]

def tagDocument : Document where
  members := [("definitions", .obj [("Label", .obj [("type", .str "string")]), ("Tag", .obj tagMembers)])]

/-- A class that extends a text is inferred to have a superclass that is nowhere emitted. -/
theorem not_closed_tag :
    ∃ r, infer ⟨tagDocument, Language.swiftTypes⟩ "" (refTo "#/definitions/Tag") = .ok r ∧
      ¬ Closed Language.swiftTypes r := by
  refine ⟨_, rfl, fun h => ?_⟩
  cases h.models _ List.mem_cons_self with
  | object _ hsuperclass =>
    obtain ⟨m, hm, -, hname⟩ := hsuperclass "Label" rfl
    cases List.mem_singleton.1 hm
    have hne : some "Tag" ≠ some "Label" := by decide
    exact hne hname

end Inference

end ClientForge
