-- SUMMARY: What the initializer of a class takes, and when it takes no two properties under one key.
import Mathlib.Data.List.Nodup
import ClientForge.Proofs.Inference.Inheritance
import ClientForge.Proofs.Inference.Lineage

/-!
# Initializers

The initializer of a class takes the properties that the classes of its line declare, the
nearest first (`initializer_of_line`). One class declares no two properties under one key,
and none in the shape in which a class above it declares one. But a property of another shape
is declared again, and then the initializer takes both: it takes no two properties under one
key exactly if no class of the line declares one under the key of a property that it inherits
(`initializer_distinct_iff`).
-/

namespace ClientForge

/-- Two properties that are written under different keys. -/
def Property.Apart (p q : Property) : Prop := sameSpecName p.specName q.specName = false

namespace Inference

open Members Outcome Schema

/-! ## Lines -/

/-- A class that the base class of a call's schema is inferred to be. -/
def HandsDown (s : Setting) (d : Call) (base : ClassHead) : Prop :=
  ∃ e found nested rest, Nested s d e ∧ IsBase s.document d.schema e.schema ∧ Returns s e found ∧
    found.models = .object base nested :: rest

/-- A class that a call builds and the classes above it that hand their properties down to it,
the nearest first. -/
inductive ClassLine (s : Setting) : Call → List ClassHead → Prop
  | top {d : Call} {head : ClassHead} (hbuilt : BuiltAt s d head) (hinherited : head.inherited = []) :
    ClassLine s d [head]
  | under {d e : Call} {head base : ClassHead} {above : List ClassHead} (hbuilt : BuiltAt s d head)
    (hbase : HandsDown s d base) (hinherited : head.inherited = base.properties ++ base.inherited)
    (hreaches : Relation.TransGen (Nested s) d e) (habove : ClassLine s e (base :: above)) :
    ClassLine s d (head :: base :: above)

section
variable {s : Setting} {c d : Call} {r : Inferred} {head : ClassHead} {classes : List ClassHead}

/-- A class has a line, since a class above it takes fewer nested calls. -/
theorem BuiltAt.exists_line (h : BuiltAt s d head)
    (hacc : Acc (Relation.TransGen fun d c => Nested s c d) d) :
    ∃ above, ClassLine s d (head :: above) := by
  induction hacc generalizing head with
  | intro d _ ih =>
    have hbuilt := h
    obtain ⟨x, rfl, rfl⟩ := h
    rcases x.root_or_asks with ⟨-, -, hnone⟩ | ⟨branch, ref, found, hasks⟩
    · exact ⟨[], .top hbuilt hnone⟩
    · have htop (h : handedDown found.models = []) : ∃ above, ClassLine s x.call (x.head :: above) :=
        ⟨[], .top hbuilt (hasks.inherited.trans h)⟩
      cases hmodels : found.models with
      | nil => exact htop (by rw [hmodels]; rfl)
      | cons first rest =>
        cases first with
        | object base nested =>
          have hclasses := builtBy_of_returns hasks.returns _ (hmodels ▸ List.mem_cons_self)
          cases hclasses with
          | object hclass =>
            obtain ⟨e, he, hbuiltBase⟩ := hclass
            have hreaches : Relation.TransGen (Nested s) x.call e := .head' hasks.nested he
            obtain ⟨above, habove⟩ := ih e (Relation.transGen_swap.2 hreaches) hbuiltBase
            refine ⟨base :: above, .under hbuilt ?_ ?_ hreaches habove⟩
            · exact ⟨_, found, nested, rest, hasks.nested,
                (isBase_iff_of_settle (plan_object x.planned).settled).2 hasks.planned,
                hasks.returns, hmodels⟩
            · rw [hasks.inherited, hmodels]
              rfl
        | enumeration | property => exact htop (by rw [hmodels]; rfl)

theorem ClassLine.built (h : ClassLine s d (head :: classes)) : BuiltAt s d head := by
  cases h with
  | top hbuilt => exact hbuilt
  | under hbuilt => exact hbuilt

/-- What a class inherits is what the classes above it declare. -/
theorem ClassLine.inherited (h : ClassLine s d (head :: classes)) :
    head.inherited = classes.flatMap (·.properties) := by
  generalize hline : head :: classes = line at h
  induction h generalizing head classes with
  | top _ hinherited =>
    cases hline
    exact hinherited
  | under _ _ hinherited _ _ ih =>
    cases hline
    rw [hinherited, ih rfl, List.flatMap_cons]

theorem initializer_of_line (h : ClassLine s d (head :: classes)) :
    head.initializer = (head :: classes).flatMap (·.properties) := by
  rw [h.built.initializer, h.inherited, List.flatMap_cons]

/-- No class of a line declares a property in the shape in which a class above it does. -/
theorem ClassLine.pairwise_shape (h : ClassLine s d classes) :
    classes.Pairwise fun cls base =>
      ∀ p ∈ cls.properties, ∀ q ∈ base.properties, p.sameShape q = false := by
  induction h with
  | top => exact List.pairwise_singleton _ _
  | under hbuilt hbase hinherited hreaches habove ih =>
    have hline := (ClassLine.under hbuilt hbase hinherited hreaches habove).inherited
    refine .cons (fun base hmem p hp q hq => ?_) ih
    refine hbuilt.not_sameShape p hp q ?_
    rw [hline]
    exact List.mem_flatMap.2 ⟨base, hmem, hq⟩

/-! ## Distinct keys -/

theorem pairwise_apart_iff {properties : List Property} :
    properties.Pairwise Property.Apart ↔
      (properties.map fun p => p.specName.map Key.meaning).Nodup := by
  have happart : ∀ p q : Property, p.Apart q ↔
      p.specName.map Key.meaning ≠ q.specName.map Key.meaning := by
    simp [Property.Apart, sameSpecName]
  rw [List.Nodup, List.pairwise_map]
  exact ⟨.imp (happart _ _).1, .imp (happart _ _).2⟩

theorem specNames_of_contributed {o : ObjectPlan} {properties : Members} {parts : List Contribution}
    (h : List.Forall₂ (o.Contributed s) properties parts) :
    (parts.map (·.property)).map (fun p => p.specName.map Key.meaning) =
      (meanings properties).map some := by
  induction h with
  | nil => rfl
  | cons hpart _ ih =>
    obtain ⟨spoken, found, -, -, rfl⟩ := hpart
    rw [meanings_cons, List.map_cons, List.map_cons, List.map_cons, ih]
    rfl

/-- A class declares no two properties under one key. -/
theorem BuiltAt.pairwise_apart (hschema : d.schema.WellFormed) (h : BuiltAt s d head) :
    head.properties.Pairwise Property.Apart := by
  obtain ⟨x, rfl, rfl⟩ := h
  have ho := plan_object x.planned
  have hresolved : (Json.obj x.plan.schema).WellFormed :=
    wellFormed_of_settle hschema ho.settled
  have hnodup : (meanings x.plan.properties).Nodup := by
    rcases propertySchemas_eq_ok ho.properties with hnil | hget
    · simp [hnil, meanings]
    · exact (Json.wellFormed_obj.1 (get?_wellFormed hresolved hget)).1
  have hall : (x.parts.map (·.property)).Pairwise Property.Apart := by
    rw [pairwise_apart_iff, specNames_of_contributed x.contributed]
    exact List.Nodup.map (fun _ _ => Option.some.inj) hnodup
  exact hall.sublist List.filter_sublist

theorem ClassLine.forall_pairwise_apart (hschema : d.schema.WellFormed)
    (h : ClassLine s d classes) :
    ∀ cls ∈ classes, cls.properties.Pairwise Property.Apart := by
  induction h with
  | top hbuilt => simpa using hbuilt.pairwise_apart hschema
  | under hbuilt _ _ hreaches _ ih =>
    refine List.forall_mem_cons.2 ⟨hbuilt.pairwise_apart hschema, ih ?_⟩
    exact Reaches.wellFormed hreaches.to_reflTransGen hschema

/-- Every class of a result, however deep it is nested, takes in its initializer what the classes of
its line declare. One class declares no two properties under one key, and none in the shape of a
property declared above it; so no two properties of the initializer are written under one key exactly
if no class of the line declares an inherited property again in another shape. -/
theorem initializer_distinct_iff (hschema : c.schema.WellFormed) (hr : Returns s c r)
    {nested : List Model} (h : Occurs r.models (.object head nested)) :
    ∃ d above, Reaches s c d ∧ ClassLine s d (head :: above) ∧
      head.initializer = (head :: above).flatMap (·.properties) ∧
      (∀ cls ∈ head :: above, cls.properties.Pairwise Property.Apart) ∧
      ((head :: above).Pairwise fun cls base =>
        ∀ p ∈ cls.properties, ∀ q ∈ base.properties, p.sameShape q = false) ∧
      (head.initializer.Pairwise Property.Apart ↔
        (head :: above).Pairwise fun cls base =>
          ∀ p ∈ cls.properties, ∀ q ∈ base.properties, p.Apart q) := by
  cases AllClasses.of_occurs (builtBy_of_returns hr) h with
  | object hclass =>
    obtain ⟨d, hd, hbuilt⟩ := hclass
    obtain ⟨found, fuel, hfuel⟩ := hd.returns hr
    have hacc : Acc (fun d c => Nested s c d) d :=
      ends_iff_acc.1 (ends_iff.2 ⟨fuel, hfuel ▸ settled_ok found⟩)
    obtain ⟨above, hline⟩ := hbuilt.exists_line hacc.transGen
    have hapart := hline.forall_pairwise_apart (hd.wellFormed hschema)
    refine ⟨d, above, hd, hline, initializer_of_line hline, hapart, hline.pairwise_shape, ?_⟩
    rw [initializer_of_line hline, List.pairwise_flatMap]
    exact and_iff_right hapart

end

/-! ## A class that declares a property again -/

def numberedProperties : Members :=
  [("properties", .obj [("name", .obj [("type", .str "integer")])])]

def numberedCatMembers : Members := [("allOf", .arr [petRef, .obj numberedProperties])]

/-- A pet whose name is a text and a cat whose name is a number. -/
def numberedDocument : Document where
  members := [("definitions", .obj [("Pet", .obj petMembers), ("Cat", .obj numberedCatMembers)])]

/-- A property declared again in another shape is taken twice. -/
theorem taken_twice_of_redeclared :
    ∃ r head nested rest, infer ⟨numberedDocument, Language.swiftTypes⟩ "" catRef = .ok r ∧
      r.models = .object head nested :: rest ∧ ¬ head.initializer.Pairwise Property.Apart := by
  refine ⟨_, _, _, _, rfl, rfl, fun h => ?_⟩
  have hapart : sameSpecName (some (.text "name")) (some (.text "name")) = false :=
    List.rel_of_pairwise_cons h List.mem_cons_self
  exact absurd hapart (by decide)

theorem initializer_distinct_iff_numberedCat :
    ∃ r head nested, Returns ⟨numberedDocument, Language.swiftTypes⟩ ⟨⟨[], []⟩, "", catRef⟩ r ∧
      Occurs r.models (.object head nested) ∧
      ∃ above, head.initializer = (head :: above).flatMap (·.properties) ∧
        (head.initializer.Pairwise Property.Apart ↔
          (head :: above).Pairwise fun cls base =>
            ∀ p ∈ cls.properties, ∀ q ∈ base.properties, p.Apart q) := by
  have hreturns : ∃ r head nested,
      Returns ⟨numberedDocument, Language.swiftTypes⟩ ⟨⟨[], []⟩, "", catRef⟩ r ∧
        Occurs r.models (.object head nested) :=
    ⟨_, _, _, ⟨4, rfl⟩, .top List.mem_cons_self⟩
  obtain ⟨r, head, nested, hr, hoccurs⟩ := hreturns
  obtain ⟨d, above, -, -, htakes, -, -, hiff⟩ :=
    initializer_distinct_iff (wellFormed_refTo _) hr hoccurs
  exact ⟨r, head, nested, hr, hoccurs, above, htakes, hiff⟩

end Inference

end ClientForge
