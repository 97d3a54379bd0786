-- SUMMARY: Which properties of a class are required, along the chain of classes that it extends.
import ClientForge.Proofs.Inference.Initializer

/-!
# Required properties

The initializer of a class takes, class by class, what the classes of its chain declare
(`Chain.initializer`), and a property is required exactly if the class that declares it lists it
as required: in its own schema, flattened without its base class (`Making.declaresOwn`,
`required_iff_declared`). The schema flattened with nothing left out lists what any class of the
chain lists. So a property that a subclass lists but inherits, or that a base class lists but
leaves to a subclass, is listed there and yet is not required (`not_required_of_inherited`).
-/

namespace ClientForge

namespace Schema

open Members Outcome

/-- A schema lists a key among its required properties. -/
def Requires (ms : Members) (k : Key) : Prop :=
  ∃ items, get? ms "required" = some (.arr items) ∧ k.toJson.isAmong items = true

/-- What a schema gives as its required properties, if anything, is a list. -/
def ListsRequired (ms : Members) : Prop :=
  ∀ v, get? ms "required" = some v → ∃ items, v = .arr items

theorem isAmong_toJson_congr {k k' : Key} (h : k.meaning = k'.meaning) (items : List Json) :
    k.toJson.isAmong items = k'.toJson.isAmong items := by
  have hsame : ∀ v, k.toJson.same v = k'.toJson.same v := by
    intro v
    cases k <;> cases k' <;> simp only [Key.meaning, reduceCtorEq] at h <;> cases v <;>
      simp_all [Key.toJson, Json.same, Json.number?]
  unfold Json.isAmong
  simp only [hsame]

theorem requires_congr {ms : Members} {k k' : Key} (h : k.meaning = k'.meaning) :
    Requires ms k ↔ Requires ms k' := by
  unfold Requires
  simp only [isAmong_toJson_congr h]

theorem isAmong_append {v : Json} {vs ws : List Json} :
    v.isAmong (vs ++ ws) = true ↔ v.isAmong vs = true ∨ v.isAmong ws = true := by
  simp [Json.isAmong]

theorem requires_merge {a b : Members} (hb : (meanings b).Nodup) (hlista : ListsRequired a)
    (hlistb : ListsRequired b) : ListsRequired (merge a b) ∧
      ∀ k, Requires (merge a b) k ↔ Requires a k ∨ Requires b k := by
  unfold ListsRequired Requires at *
  rw [get?_merge hb]
  cases hgetb : get? b "required" with
  | none => exact ⟨hlista, by simp⟩
  | some v =>
    obtain ⟨later, rfl⟩ := hlistb v hgetb
    cases hgeta : get? a "required" with
    | none => exact ⟨by simp [combine], by simp [combine]⟩
    | some w =>
      obtain ⟨earlier, rfl⟩ := hlista w hgeta
      exact ⟨by simp [combine], by simp [combine, isAmong_append]⟩

theorem additive_requires (k : Key) :
    Additive (fun ms => (Json.obj ms).WellFormed ∧ ListsRequired ms) fun ms => Requires ms k where
  fits_empty := ⟨stable_wellFormed.empty, nofun⟩
  fits_merge ha hb := ⟨stable_wellFormed.merge ha.1 hb.1,
    (requires_merge (Json.wellFormed_obj.1 hb.1).1 ha.2 hb.2).1⟩
  empty := by simp [Requires, get?]
  merge ha hb := (requires_merge (Json.wellFormed_obj.1 hb.1).1 ha.2 hb.2).2 k

/-- A flattened schema requires what the parts require, if these give lists. -/
theorem requires_flatten {document : Document} {ignored schema : Json} {flat : Members}
    (hschema : schema.WellFormed) (hlists : ∀ p, Contributes document ignored schema p → ListsRequired p)
    (h : flatten document schema ignored = .ok flat) (k : Key) :
    Requires flat k ↔ ∃ p, Contributes document ignored schema p ∧ Requires p k :=
  ((additive_requires k).flatten (fun p hp => ⟨hp.wellFormed hschema, hlists p hp⟩) h).2

end Schema

namespace Inference

open Members Outcome Schema

/-! ## Classes of a chain -/

/-- A property is the one under some key. -/
def IsUnder (k : Key) (p : Property) : Prop := p.specName.map Key.meaning = some k.meaning

section
variable {s : Setting}

/-- What a class declares: the properties of its own schema, flattened without its base class,
but for those that it inherits in the same shape. One is required if that schema lists it. -/
structure Making.DeclaresOwn (x : Making s) : Prop where
  settled : settle s.document x.call.schema = .ok (x.plan.branch, x.plan.schema)
  keys : ∀ k, (∃ part ∈ x.parts, IsUnder k part.property) ↔ k.meaning ∈ propertyKeys x.plan.schema
  declared : ∀ p, p ∈ x.head.properties ↔
    (∃ part ∈ x.parts, part.property = p) ∧ ∀ q ∈ x.head.inherited, p.sameShape q = false
  required : ∀ k, ∀ p ∈ x.head.properties, IsUnder k p →
    (p.isRequired = true ↔ Requires x.plan.schema k)

/-- The classes of a chain as they are made, the nearest first: each is made by the call for the
base class of the one before, which inherits what it has, and the last extends nothing. -/
inductive Chain (s : Setting) : List (Making s) → Prop
  | root {x : Making s} (hroot : x.plan.branch = none) : Chain s [x]
  | derived {x base : Making s} {above : List (Making s)} {branch : Json} {ref : String}
    (hbranch : x.plan.branch = some branch) (href : (baseRef (some branch)).text = .ok ref)
    (hcall : base.call = x.plan.baseCall ref branch)
    (hinherited : x.head.inherited = base.head.properties ++ base.head.inherited)
    (habove : Chain s (base :: above)) : Chain s (x :: base :: above)

theorem requires_iff_isAmong {resolved : Members} {required : List Json}
    (h : requiredNames resolved = .ok required) (k : Key) :
    Requires resolved k ↔ k.toJson.isAmong required = true := by
  have hkey : ∀ {v w : Json}, v.key = .ok w → v = w := by
    intro v w hv
    simp only [Json.key] at hv
    split at hv <;> simp_all
  unfold requiredNames Members.get at h
  unfold Requires
  cases hget : get? resolved "required" with
  | none =>
    rw [hget] at h
    cases h
    simp [Json.isAmong]
  | some v =>
    rw [hget] at h
    cases v with
    | arr items =>
      have heq : items = required := by
        have hforall := mapM_eq_ok.1 h
        exact List.forall₂_eq_eq_eq ▸ hforall.imp fun _ _ => hkey
      simp [heq]
    | _ =>
      cases h
      simp [Json.isAmong]

theorem requires_iff_of_contributed {o : ObjectPlan} {m : Key × Json} {part : Contribution}
    (hrequired : requiredNames o.schema = .ok o.required) (h : o.Contributed s m part) {k : Key}
    (hunder : IsUnder k part.property) : part.property.isRequired = true ↔ Requires o.schema k := by
  obtain ⟨spoken, found, -, -, rfl⟩ := h
  have hmeaning : m.1.meaning = k.meaning := Option.some.inj hunder
  rw [← requires_congr hmeaning, requires_iff_isAmong hrequired]
  rfl

theorem Making.declaresOwn (x : Making s) : x.DeclaresOwn where
  settled := (plan_object x.planned).settled
  keys k := by
    have hkeys := specNames_of_contributed x.contributed
    rw [meanings_propertySchemas (plan_object x.planned).properties] at hkeys
    have hmem : some k.meaning ∈ (x.parts.map (·.property)).map (fun p => p.specName.map Key.meaning) ↔
        k.meaning ∈ propertyKeys x.plan.schema := by
      simp [hkeys]
    rw [← hmem]
    simp [IsUnder]
  declared p := by
    simp [Making.head, ObjectPlan.head, ownProperties]
  required k p hp hunder := by
    obtain ⟨part, hpart, rfl⟩ := List.mem_map.1 (List.mem_of_mem_filter hp)
    obtain ⟨m, -, hcontributed⟩ := exists_of_mem_right x.contributed hpart
    exact requires_iff_of_contributed (plan_object x.planned).required hcontributed hunder

/-- Along a chain of objects, the first model of a result is a class that has a chain. -/
theorem exists_chain_of_returns {c : Call} {r : Inferred} (h : Returns s c r)
    (hfresh : ∀ n, ¬ c.IsPlaceholder n)
    (hkinds : ∀ schema, Extends s.document c.schema schema →
      kindFound s.document schema = .ok .object) :
    ∃ x above rest, r.models = .object x.head x.nested :: rest ∧ x.call = c ∧
      Chain s (x :: above) := by
  -- A base class takes fewer nested calls than the class that extends it.
  have hacc : Acc (fun d c => Nested s c d) c := by
    obtain ⟨fuel, hfuel⟩ := h
    exact ends_iff_acc.1 (ends_iff.2 ⟨fuel, hfuel ▸ settled_ok r⟩)
  induction hacc generalizing r with
  | intro c _ ih =>
    obtain ⟨p, hplan⟩ := exists_plan_of_returns h
    obtain ⟨o, rfl, ho⟩ := plan_of_object (hkinds _ .refl) hfresh hplan
    obtain ⟨parts, base, hparts, hbase, rfl⟩ := h.object hplan
    let x : Making s := ⟨c, o, parts, base, hplan, hparts, hbase⟩
    rcases x.root_or_asks with ⟨hroot, -, -⟩ | ⟨branch, ref, found, hasks⟩
    · exact ⟨x, [], _, rfl, rfl, .root hroot⟩
    · have hextended : IsBase s.document c.schema branch :=
        (isBase_iff_of_settle ho.settled).2 hasks.planned
      obtain ⟨y, above, rest, hmodels, hcall, hchain⟩ :=
        ih _ hasks.nested hasks.returns (o.baseCall_fresh hasks.referred)
          fun schema hextends => hkinds schema (.head hextended hextends)
      refine ⟨x, y :: above, _, rfl, rfl, .derived hasks.planned hasks.referred hcall ?_ hchain⟩
      rw [hasks.inherited, hmodels]
      rfl

/-! ## What a chain takes and requires -/

/-- What a class inherits is what the classes above it declare. -/
theorem Chain.inherited {x : Making s} {above : List (Making s)} (h : Chain s (x :: above)) :
    x.head.inherited = above.flatMap (·.head.properties) := by
  generalize hline : x :: above = line at h
  induction h generalizing x above with
  | @root x hroot =>
    cases hline
    rcases x.root_or_asks with ⟨-, -, hnone⟩ | ⟨branch, ref, found, hasks⟩
    · exact hnone
    · cases hroot.symm.trans hasks.planned
  | derived _ _ _ hinherited _ ih =>
    cases hline
    rw [hinherited, ih rfl, List.flatMap_cons]

theorem Chain.initializer {x : Making s} {above : List (Making s)} (h : Chain s (x :: above)) :
    x.head.initializer = (x :: above).flatMap (·.head.properties) := by
  rw [List.flatMap_cons, ← h.inherited]
  rfl

/-- All that contributes to a schema requires what the classes of its chain do. -/
theorem Chain.exists_requires_iff {x : Making s} {above : List (Making s)}
    (h : Chain s (x :: above)) (hschema : x.call.schema.WellFormed)
    (hlists : ∀ part, Contributes s.document .null x.call.schema part → ListsRequired part)
    (k : Key) :
    (∃ part, Contributes s.document .null x.call.schema part ∧ Requires part k) ↔
      ∃ y ∈ x :: above, Requires y.plan.schema k := by
  have hresolved : ∀ y : Making s, y.call.schema.WellFormed →
      (∀ part, Contributes s.document .null y.call.schema part → ListsRequired part) →
      (Requires y.plan.schema k ↔
        ∃ part, Contributes s.document (baseRef y.plan.branch) y.call.schema part ∧ Requires part k) := by
    intro y hschema hlists
    apply requires_flatten hschema _ (flatten_of_settle y.declaresOwn.settled)
    intro part hpart
    exact hlists part hpart.of_ignoring
  generalize hline : x :: above = line at h
  induction h generalizing x above with
  | @root x hroot =>
    cases hline
    rw [List.exists_mem_cons_iff, hresolved x hschema hlists, hroot]
    simp [baseRef]
  | @derived x base above branch ref hbranch href hcall _ _ ih =>
    cases hline
    have hsettle := x.declaresOwn.settled
    have hextended : IsBase s.document x.call.schema branch :=
      (isBase_iff_of_settle hsettle).2 hbranch
    have hbase : base.call.schema = branch := by rw [hcall]; rfl
    have habove : (∃ part, Contributes s.document .null branch part ∧ Requires part k) ↔
        ∃ y ∈ base :: above, Requires y.plan.schema k := by
      rw [← hbase] at hextended ⊢
      have hbranch := hextended.preserves stable_wellFormed s.document.wellFormed hschema
      refine ih hbranch (fun part hpart => ?_) rfl
      exact hlists part (hextended.contributes hschema hpart)
    rw [List.exists_mem_cons_iff, hresolved x hschema hlists, ← habove]
    simp only [contributes_settle hschema hsettle, hbranch, Option.some.injEq, exists_eq_left',
      or_and_right, exists_or]

/-- A property is required throughout a chain if each class that declares it lists it. -/
theorem forall_isRequired_iff (classes : List (Making s)) (k : Key) :
    (∀ p ∈ classes.flatMap (·.head.properties), IsUnder k p → p.isRequired = true) ↔
      ∀ y ∈ classes, (∃ p ∈ y.head.properties, IsUnder k p) → Requires y.plan.schema k := by
  constructor
  · rintro hrequired y hy ⟨p, hp, hunder⟩
    apply (y.declaresOwn.required k p hp hunder).1
    exact hrequired p (List.mem_flatMap.2 ⟨y, hy, hp⟩) hunder
  · intro hrequires p hp hunder
    obtain ⟨y, hy, hp⟩ := List.mem_flatMap.1 hp
    exact (y.declaresOwn.required k p hp hunder).2 (hrequires y hy ⟨p, hp, hunder⟩)

/-- The initializer of a class takes, along its chain, what the classes of the chain declare, each
the properties of its own schema but for those that it inherits in the same shape. A property that
the flattened schema has and lists as required is required throughout the initializer exactly if
each class of the chain that declares it lists it in its own schema. That it is listed says no more,
if all that contributes gives lists, than that some class lists it. -/
theorem required_iff_declared {name ref : String} {r : Inferred} {flat : Members}
    (hreturns : Returns s ⟨⟨[], []⟩, name, refTo ref⟩ r)
    (hflat : flatten s.document (refTo ref) .null = .ok flat)
    (hkinds : ∀ schema, Extends s.document (refTo ref) schema →
      kindFound s.document schema = .ok .object) :
    ∃ (x : Making s) (above : List (Making s)) (rest : List Model),
      r.models = .object x.head x.nested :: rest ∧ x.call = ⟨⟨[], []⟩, name, refTo ref⟩ ∧
      Chain s (x :: above) ∧ (∀ y ∈ x :: above, y.DeclaresOwn) ∧
      x.head.initializer = (x :: above).flatMap (·.head.properties) ∧
      (∀ k, k.meaning ∈ propertyKeys flat → Requires flat k →
        ((∀ p ∈ x.head.initializer, IsUnder k p → p.isRequired = true) ↔
          ∀ y ∈ x :: above, (∃ p ∈ y.head.properties, IsUnder k p) → Requires y.plan.schema k)) ∧
      ((∀ part, Contributes s.document .null (refTo ref) part → ListsRequired part) →
        ∀ k, Requires flat k ↔ ∃ y ∈ x :: above, Requires y.plan.schema k) := by
  obtain ⟨x, above, rest, hmodels, hcall, hchain⟩ :=
    exists_chain_of_returns hreturns (fun n hn => List.not_mem_nil hn.2) hkinds
  have hschema : x.call.schema = refTo ref := by rw [hcall]
  refine ⟨x, above, rest, hmodels, hcall, hchain, fun y _ => y.declaresOwn, hchain.initializer,
    fun k _ _ => ?_, fun hlists k => ?_⟩
  · rw [hchain.initializer]
    exact forall_isRequired_iff _ k
  · rw [requires_flatten (wellFormed_refTo ref) hlists hflat]
    have hrequires := hchain.exists_requires_iff (hschema ▸ wellFormed_refTo ref)
      (hschema ▸ hlists) k
    rwa [hschema] at hrequires

end

/-! ## A class that requires what it inherits -/

/-- What a cat that is required to have its name says besides being a pet. -/
def strictMembers (properties : Members) : Members :=
  [("required", .arr [.str "name"]), ("properties", .obj properties)]

/-- A pet and a cat that is required to have its name, with some properties of its own. -/
def strictCats (properties : Members) : Members :=
  [("definitions", .obj [("Pet", .obj petMembers),
    ("Cat", .obj [("allOf", .arr [petRef, .obj (strictMembers properties)])])])]

def strictDocument : Document where
  members := strictCats []

/-- Here the cat declares its name again. -/
def repeatingDocument : Document where
  members := strictCats petProperties

section
variable {properties : Members}

theorem settle_strictCat (h : properties = [] ∨ properties = petProperties) :
    settle (strictCats properties) catRef = .ok (some petRef, strictMembers properties) := by
  have hfollowed : followRefs (strictCats properties) catRef .null =
      .ok [("allOf", .arr [petRef, .obj (strictMembers properties)])] := by
    rcases h with rfl | rfl <;> cbv
  have hresolved : flatten (strictCats properties) catRef (.str "#/definitions/Pet") =
      .ok (strictMembers properties) := by
    rcases h with rfl | rfl <;> rfl
  exact settle_eq_ok.2 ⟨_, hfollowed, rfl, hresolved⟩

theorem settle_strictPet (h : properties = [] ∨ properties = petProperties) :
    settle (strictCats properties) petRef = .ok (none, petMembers) := by
  rcases h with rfl | rfl <;> cbv

theorem kindFound_of_extends_strictCat (hcat : properties = [] ∨ properties = petProperties)
    {schema : Json} (h : Extends (strictCats properties) catRef schema) :
    kindFound (strictCats properties) schema = .ok .object :=
  kindFound_of_extends_of_settle (settle_strictCat hcat) rfl (settle_strictPet hcat) rfl h

end

/-- A class does not require what it inherits, though its schema lists it as required. -/
theorem not_required_of_inherited :
    ∃ r flat head nested rest,
      infer ⟨strictDocument, Language.swiftTypes⟩ "" catRef = .ok r ∧
      flatten strictDocument catRef .null = .ok flat ∧
      (∀ schema, Extends strictDocument catRef schema →
        kindFound strictDocument schema = .ok .object) ∧
      r.models = .object head nested :: rest ∧
      ¬ ∀ k, k.meaning ∈ propertyKeys flat → Requires flat k →
          ∀ p ∈ head.initializer, IsUnder k p → p.isRequired = true := by
  refine ⟨_, _, _, _, _, rfl, rfl, fun _ => kindFound_of_extends_strictCat (.inl rfl), rfl, fun h => ?_⟩
  have hrequires := h "name" (List.mem_singleton.2 rfl) ⟨[.str "name"], rfl, rfl⟩
  exact absurd (hrequires _ (List.mem_singleton.2 rfl) rfl) (by decide)

/-- A name that a cat declares again as pets have it stays with the pet, which does not require it. -/
theorem required_iff_declared_strictCat :
    ∃ r flat rest, ∃ (x : Making ⟨repeatingDocument, Language.swiftTypes⟩) (above : List _),
      Returns ⟨repeatingDocument, Language.swiftTypes⟩ ⟨⟨[], []⟩, "", catRef⟩ r ∧
      flatten repeatingDocument catRef .null = .ok flat ∧
      r.models = .object x.head x.nested :: rest ∧ Chain _ (x :: above) ∧
      x.head.initializer = (x :: above).flatMap (·.head.properties) ∧ x.head.properties = [] ∧
      Requires x.plan.schema "name" ∧
      ∃ y ∈ above, (∃ p ∈ y.head.properties, IsUnder "name" p) ∧ ¬ Requires y.plan.schema "name" := by
  have hreturns : ∃ r head nested rest,
      Returns ⟨repeatingDocument, Language.swiftTypes⟩ ⟨⟨[], []⟩, "", catRef⟩ r ∧
        r.models = .object head nested :: rest ∧ head.properties = [] ∧
        ¬ ∀ p ∈ head.initializer, IsUnder "name" p → p.isRequired = true := by
    refine ⟨_, _, _, _, ⟨4, rfl⟩, rfl, rfl, fun h => ?_⟩
    exact absurd (h _ (List.mem_singleton.2 rfl) rfl) (by decide)
  have hflat : ∃ flat, flatten repeatingDocument catRef .null = .ok flat ∧
      Key.meaning "name" ∈ propertyKeys flat ∧ Requires flat "name" :=
    ⟨_, rfl, List.mem_singleton.2 rfl, [.str "name"], rfl, rfl⟩
  obtain ⟨r, head, nested, rest, hr, hmodels, hnone, hnot⟩ := hreturns
  obtain ⟨flat, hflat, hkey, hlisted⟩ := hflat
  obtain ⟨x, above, rest', hmodels', hcall, hchain, -, hinitializer, hrequired, -⟩ :=
    required_iff_declared hr hflat fun _ => kindFound_of_extends_strictCat (.inr rfl)
  obtain ⟨hhead, -⟩ := List.cons.inj (hmodels.symm.trans hmodels')
  obtain ⟨rfl, -⟩ := Model.object.inj hhead
  have hx : Requires x.plan.schema "name" := by
    have hsettled := x.declaresOwn.settled
    rw [hcall] at hsettled
    obtain ⟨-, hschema⟩ := Prod.mk.inj (Except.ok.inj (hsettled.symm.trans (settle_strictCat (.inr rfl))))
    exact hschema ▸ ⟨[.str "name"], rfl, rfl⟩
  refine ⟨r, flat, rest', x, above, hr, hflat, hmodels', hchain, hinitializer, hnone, hx, ?_⟩
  have hclass := mt (hrequired "name" hkey hlisted).2 hnot
  push Not at hclass
  obtain ⟨y, hy, hdeclares, hunlisted⟩ := hclass
  refine ⟨y, (List.mem_cons.1 hy).resolve_left fun hyx => ?_, hdeclares, hunlisted⟩
  exact hunlisted (hyx ▸ hx)

end Inference

end ClientForge
