-- SUMMARY: Which parts a schema is merged from, and what can be told of the merge from them.
import ClientForge.Proofs.Schema.Resolution

/-!
# Contributions

Flattening merges the own members of a schema, of what its references lead to and of
its branches. `Contributes` says which parts these are, without saying when each of
them is merged. What a merge has exactly if one of its parts does (`Additive`), a
flattened schema has exactly if a part that contributes to it does
(`Additive.flatten`): its keys (`mem_meanings_flatten`) and the keys of its properties
(`mem_propertyKeys_flatten`). Leaving a reference out takes away nothing but the parts
of a schema that the reference leads to (`contributes_iff`).
-/

namespace ClientForge

namespace Members

/-! ## Lookups in a merge -/

theorem combine_none (v : Json) : combine none v = v := by
  cases v <;> rfl

theorem get?_merge_of_not_mem {a b : Members} {k : Key} (hk : k.meaning ∉ meanings b) :
    get? (merge a b) k = get? a k := by
  induction b generalizing a with
  | nil => rfl
  | cons m b ih =>
    obtain ⟨k', v⟩ := m
    rw [meanings_cons, List.mem_cons, not_or] at hk
    rw [merge, ih hk.2, get?_put_of_ne (Ne.symm hk.1)]

theorem get?_merge_nil {b : Members} (hb : (meanings b).Nodup) (k : Key) :
    get? (merge [] b) k = get? b k := by
  rw [get?_merge hb]
  cases get? b k with
  | none => rfl
  | some v => exact congrArg some (combine_none v)

/-- A key that only the first of some parts has keeps its value. -/
theorem get?_mergeAll_cons {start : Members} {parts : List Members} {k : Key}
    (hstart : (meanings start).Nodup) (hparts : ∀ p ∈ parts, k.meaning ∉ meanings p) :
    get? (mergeAll (start :: parts)) k = get? start k := by
  have hfold : ∀ a, get? (parts.foldl merge a) k = get? a k := by
    induction parts with
    | nil => exact fun a => rfl
    | cons p parts ih =>
      intro a
      have hrest := ih fun q hq => hparts q (List.mem_cons_of_mem _ hq)
      rw [List.foldl_cons, hrest, get?_merge_of_not_mem (hparts p List.mem_cons_self)]
  rw [mergeAll, List.foldl_cons, hfold, get?_merge_nil hstart]

end Members

namespace Schema

open Members Outcome

theorem Mode.not_mem_meanings_own {m : Mode} {k : Key} (hk : m.keeps k = false) (ms : Members) :
    k.meaning ∉ meanings (m.own ms) := by
  intro hmem
  obtain ⟨kv, hkv, hmeaning⟩ := List.mem_map.1 hmem
  have hkept := (List.mem_filter.1 (m.own_eq ms ▸ hkv)).2
  rw [m.keeps_congr hmeaning, hk] at hkept
  cases hkept

theorem Mode.ref?_eq_some {m : Mode} {ignored : Json} {ms : Members} {ref : Json} :
    m.ref? ignored ms = some ref ↔ m.refs = true ∧ get? ms refKey = some ref ∧
      ref.truthy = true ∧ ref.same ignored = false := by
  unfold Mode.ref? Members.get
  cases hget : get? ms refKey with
  | none => simp [Json.truthy]
  | some v =>
    simp only [Option.getD_some, Option.some.injEq]
    constructor
    · intro h
      split at h
      · rename_i hcond
        cases h
        simpa [and_assoc] using hcond
      · cases h
    · rintro ⟨hrefs, rfl, htruthy, hsame⟩
      rw [if_pos (by simp [hrefs, htruthy, hsame])]

theorem Mode.mem_branches {m : Mode} {ms : Members} {b : Json} :
    b ∈ m.branches ms ↔
      m.allOf = true ∧ ∃ items, get? ms allOfKey = some (.arr items) ∧ b ∈ items := by
  simp only [Mode.branches, Members.get]
  cases m.allOf with
  | false => simp
  | true =>
    cases get? ms allOfKey with
    | none => simp
    | some v => cases v <;> simp

/-! ## Parts -/

/-- The mode of flattening. -/
def whole : Mode := ⟨true, true⟩

/-- What is merged with the target of a reference has nothing left to resolve, so the merge leads
where the target leads. -/
theorem get?_mergeAll_of_resolved {start : Members} {parts : List Members} {k : Key}
    (hstart : (meanings start).Nodup) (hparts : ∀ p ∈ parts, whole.own p = p)
    (hk : whole.keeps k = false) : get? (mergeAll (start :: parts)) k = get? start k := by
  apply get?_mergeAll_cons hstart
  intro p hp
  rw [← hparts p hp]
  exact Mode.not_mem_meanings_own hk p

theorem own_mergeAll_of_resolved (start : Members) {parts : List Members}
    (hparts : ∀ p ∈ parts, whole.own p = p) :
    whole.own (mergeAll (start :: parts)) = mergeAll (whole.own start :: parts) := by
  rw [Mode.own_mergeAll, List.map_cons, List.map_congr_left hparts, List.map_id']

/-- The parts that a schema is merged from: the members that it writes itself, and the
parts of its target and of its branches. A reference to leave out has no target. -/
inductive Contributes (document : Members) (ignored : Json) : Json → Members → Prop
  | own (ms : Members) : Contributes document ignored (.obj ms) (whole.own ms)
  | target {ms start part : Members} {ref : Json} (href : whole.ref? ignored ms = some ref)
    (hstart : Pointer.target document ref = .ok start)
    (h : Contributes document ignored (.obj start) part) : Contributes document ignored (.obj ms) part
  | branch {ms part : Members} {b : Json} (hb : b ∈ whole.branches ms)
    (h : Contributes document ignored b part) : Contributes document ignored (.obj ms) part

section
variable {document : Members} {ignored : Json}

/-- Beyond its own members, what contributes to a schema depends on its reference and
its composition alone. -/
theorem Contributes.transfer {a b part : Members} (href : get? a refKey = get? b refKey)
    (hallOf : get? a allOfKey = get? b allOfKey)
    (h : Contributes document ignored (.obj a) part) :
    part = whole.own a ∨ Contributes document ignored (.obj b) part := by
  cases h with
  | own => exact .inl rfl
  | target htarget hstart h =>
    rw [Mode.ref?_eq_some, href, ← Mode.ref?_eq_some] at htarget
    exact .inr (.target htarget hstart h)
  | branch hb h =>
    rw [Mode.mem_branches, hallOf, ← Mode.mem_branches] at hb
    exact .inr (.branch hb h)

/-! ## From the parts to the merge -/

/-- A merge of fit parts is fit, and has a property exactly if one of the parts does. -/
structure Additive (Fits V : Members → Prop) : Prop where
  fits_empty : Fits []
  fits_merge : ∀ {a b}, Fits a → Fits b → Fits (merge a b)
  empty : ¬ V []
  merge : ∀ {a b}, Fits a → Fits b → (V (merge a b) ↔ V a ∨ V b)

variable {Fits V : Members → Prop}

theorem Additive.mergeAll (hV : Additive Fits V) {parts : List Members}
    (hfits : ∀ p ∈ parts, Fits p) :
    Fits (mergeAll parts) ∧ (V (mergeAll parts) ↔ ∃ p ∈ parts, V p) := by
  have hfold : ∀ {a : Members}, Fits a →
      Fits (parts.foldl Members.merge a) ∧
        (V (parts.foldl Members.merge a) ↔ V a ∨ ∃ p ∈ parts, V p) := by
    induction parts with
    | nil => exact fun ha => ⟨ha, by simp⟩
    | cons p parts ih =>
      intro a ha
      have hp := hfits p List.mem_cons_self
      obtain ⟨hrest, hiff⟩ := ih (fun q hq => hfits q (List.mem_cons_of_mem _ hq))
        (hV.fits_merge ha hp)
      refine ⟨hrest, ?_⟩
      rw [List.foldl_cons, hiff, hV.merge ha hp, List.exists_mem_cons_iff, or_assoc]
  obtain ⟨hfits, hiff⟩ := hfold hV.fits_empty
  exact ⟨hfits, hiff.trans (or_iff_right hV.empty)⟩

/-- A resolved schema tells what the parts of the schema tell, if they are all fit. -/
def Tells (document : Members) (ignored : Json) (Fits V : Members → Prop) (m : Mode)
    (ms r : Members) : Prop :=
  m = whole → (∀ p, Contributes document ignored (.obj ms) p → Fits p) →
    whole.own r = r ∧ Fits r ∧ (V r ↔ ∃ p, Contributes document ignored (.obj ms) p ∧ V p)

/-- The resolved branches and the own members of a schema, if all its parts are fit. -/
structure Layer (document : Members) (ignored : Json) (Fits V : Members → Prop) (ms : Members)
    (parts : List Members) : Prop where
  own : ∀ p ∈ parts ++ [whole.own ms], whole.own p = p
  fits : ∀ p ∈ parts ++ [whole.own ms], Fits p
  tells : (∃ p ∈ parts ++ [whole.own ms], V p) ↔
    V (whole.own ms) ∨ ∃ b ∈ whole.branches ms, ∃ p, Contributes document ignored b p ∧ V p

theorem layer_of_branching {ms : Members} {parts : List Members}
    (hfits : ∀ p, Contributes document ignored (.obj ms) p → Fits p)
    (hparts : Branching (Tells document ignored Fits V) whole ms parts) :
    Layer document ignored Fits V ms parts := by
  have hbranch : List.Forall₂ (fun b p => whole.own p = p ∧ Fits p ∧
      (V p ↔ ∃ q, Contributes document ignored b q ∧ V q)) (whole.branches ms) parts := by
    refine List.Forall₂.imp ?_ ((List.forall₂_and_left _ _).2 ⟨fun b hb => hb, hparts⟩)
    rintro b p ⟨hb, bs, rfl, htells⟩
    exact htells rfl fun q hq => hfits q (.branch hb hq)
  refine ⟨fun p hp => ?_, fun p hp => ?_, ?_⟩
  · rcases List.mem_append.1 hp with hp | hp
    · obtain ⟨b, _, hown, _⟩ := exists_of_mem_right hbranch hp
      exact hown
    · rw [List.mem_singleton.1 hp, Mode.own_own]
  · rcases List.mem_append.1 hp with hp | hp
    · obtain ⟨b, _, _, hp, _⟩ := exists_of_mem_right hbranch hp
      exact hp
    · rw [List.mem_singleton.1 hp]
      exact hfits _ (.own ms)
  · constructor
    · rintro ⟨p, hp, hv⟩
      rcases List.mem_append.1 hp with hp | hp
      · obtain ⟨b, hb, _, _, hiff⟩ := exists_of_mem_right hbranch hp
        exact .inr ⟨b, hb, hiff.1 hv⟩
      · exact .inl (List.mem_singleton.1 hp ▸ hv)
    · rintro (hv | ⟨b, hb, hv⟩)
      · exact ⟨_, List.mem_append_right _ (List.mem_singleton.2 rfl), hv⟩
      · obtain ⟨p, hp, _, _, hiff⟩ := exists_of_mem_left hbranch hb
        exact ⟨p, List.mem_append_left _ hp, hiff.2 hv⟩

theorem Additive.plain (hV : Additive Fits V) :
    Plain ignored (Tells document ignored Fits V) := by
  rintro m ms parts hnone hparts rfl hfits
  have hlayer := layer_of_branching hfits hparts
  obtain ⟨hmerged, hiff⟩ := hV.mergeAll hlayer.fits
  refine ⟨?_, hmerged, ?_⟩
  · rw [Mode.own_mergeAll, List.map_congr_left hlayer.own, List.map_id']
  rw [hiff, hlayer.tells]
  constructor
  · rintro (hv | ⟨b, hb, p, hp, hv⟩)
    · exact ⟨_, .own ms, hv⟩
    · exact ⟨p, .branch hb hp, hv⟩
  · rintro ⟨p, hp, hv⟩
    cases hp with
    | own => exact .inl hv
    | target href => rw [hnone] at href; cases href
    | branch hb hp => exact .inr ⟨_, hb, p, hp, hv⟩

theorem Additive.through {document : Document} (hV : Additive Fits V) :
    Through document ignored (Tells document ignored Fits V) := by
  rintro m ms ref start parts r href hstart hparts hmerged rfl hfits
  have hlayer := layer_of_branching hfits hparts
  have hnodup := (Json.wellFormed_obj.1 (wellFormed_target hstart)).1
  have hlost := fun k => get?_mergeAll_of_resolved (k := k) hnodup hlayer.own
  have hown := own_mergeAll_of_resolved start hlayer.own
  set merged := Members.mergeAll (start :: (parts ++ [whole.own ms]))
  have hrefKey := hlost refKey (by decide)
  have hallOfKey := hlost allOfKey (by decide)
  have hownparts : ∀ p ∈ whole.own start :: (parts ++ [whole.own ms]), Fits p :=
    List.forall_mem_cons.2 ⟨hfits _ (.target href hstart (.own start)), hlayer.fits⟩
  obtain ⟨hownfits, howniff⟩ := hV.mergeAll hownparts
  rw [← hown, List.exists_mem_cons_iff, hlayer.tells] at howniff
  rw [← hown] at hownfits
  have hmergedfits : ∀ p, Contributes document ignored (.obj merged) p → Fits p := by
    intro p hp
    rcases hp.transfer hrefKey hallOfKey with rfl | hp
    · exact hownfits
    · exact hfits p (.target href hstart hp)
  obtain ⟨hr, hrfits, hiff⟩ := hmerged rfl hmergedfits
  refine ⟨hr, hrfits, hiff.trans ⟨?_, ?_⟩⟩
  · rintro ⟨p, hp, hv⟩
    rcases hp.transfer hrefKey hallOfKey with rfl | hp
    · rcases howniff.1 hv with hv | hv | ⟨b, hb, q, hq, hv⟩
      · exact ⟨_, .target href hstart (.own start), hv⟩
      · exact ⟨_, .own ms, hv⟩
      · exact ⟨q, .branch hb hq, hv⟩
    · exact ⟨p, .target href hstart hp, hv⟩
  · rintro ⟨p, hp, hv⟩
    cases hp with
    | own => exact ⟨_, .own merged, howniff.2 (.inr (.inl hv))⟩
    | target href' hstart' hp =>
      cases href.symm.trans href'
      cases hstart.symm.trans hstart'
      rcases hp.transfer hrefKey.symm hallOfKey.symm with rfl | hp
      · exact ⟨_, .own merged, howniff.2 (.inl hv)⟩
      · exact ⟨p, hp, hv⟩
    | branch hb hp => exact ⟨_, .own merged, howniff.2 (.inr (.inr ⟨_, hb, p, hp, hv⟩))⟩

/-- A flattened schema has what a part that contributes to it has. -/
theorem Additive.flatten {document : Document} (hV : Additive Fits V) {schema : Json} {r : Members}
    (hfits : ∀ p, Contributes document ignored schema p → Fits p)
    (h : flatten document schema ignored = .ok r) :
    Fits r ∧ (V r ↔ ∃ p, Contributes document ignored schema p ∧ V p) := by
  obtain ⟨ms, rfl, htells⟩ := resolve_induction hV.plain hV.through h
  exact (htells rfl hfits).2

/-! ## Keys -/

theorem additive_meanings (x : Key.Meaning) :
    Additive (fun _ => True) fun ms => x ∈ meanings ms where
  fits_empty := trivial
  fits_merge _ _ := trivial
  empty := List.not_mem_nil
  merge _ _ := mem_meanings_merge

theorem mem_meanings_flatten {document : Document} {schema : Json} {r : Members}
    (h : Schema.flatten document schema ignored = .ok r) (x : Key.Meaning) :
    x ∈ meanings r ↔ ∃ p, Contributes document ignored schema p ∧ x ∈ meanings p :=
  ((additive_meanings x).flatten (fun _ _ => trivial) h).2

theorem Contributes.wellFormed {document : Document} {schema : Json} {part : Members}
    (h : Contributes document ignored schema part) (hschema : schema.WellFormed) :
    (Json.obj part).WellFormed := by
  induction h with
  | own ms => exact stable_wellFormed.own whole hschema
  | target _ hstart _ ih => exact ih (wellFormed_target hstart)
  | branch hb _ ih => exact ih (hereditary_wellFormed.branch hschema hb)

/-- What the keys of the properties among some members mean. -/
def propertyKeys (ms : Members) : List Key.Meaning :=
  match get? ms "properties" with
  | some (.obj properties) => meanings properties
  | _ => []

/-- The properties among some members, if there are any, are a mapping. -/
def HoldsMapping (ms : Members) : Prop :=
  ∀ v, get? ms "properties" = some v → ∃ properties, v = .obj properties

theorem propertyKeys_merge {a b : Members} (ha : HoldsMapping a) (hb : HoldsMapping b)
    (hnodup : (meanings b).Nodup) :
    HoldsMapping (merge a b) ∧
      ∀ x, x ∈ propertyKeys (merge a b) ↔ x ∈ propertyKeys a ∨ x ∈ propertyKeys b := by
  unfold HoldsMapping propertyKeys at *
  rw [get?_merge hnodup]
  cases hgetb : get? b "properties" with
  | none => exact ⟨ha, by simp⟩
  | some v =>
    obtain ⟨properties, rfl⟩ := hb v hgetb
    cases hgeta : get? a "properties" with
    | none => exact ⟨by simp [combine], by simp [combine]⟩
    | some w =>
      obtain ⟨earlier, rfl⟩ := ha w hgeta
      refine ⟨by simp [combine], fun x => ?_⟩
      simp only [combine]
      exact mem_meanings_merge

theorem additive_propertyKeys (x : Key.Meaning) :
    Additive (fun ms => (Json.obj ms).WellFormed ∧ HoldsMapping ms)
      fun ms => x ∈ propertyKeys ms where
  fits_empty := ⟨stable_wellFormed.empty, by simp [HoldsMapping, get?]⟩
  fits_merge ha hb := ⟨stable_wellFormed.merge ha.1 hb.1,
    (propertyKeys_merge ha.2 hb.2 (Json.wellFormed_obj.1 hb.1).1).1⟩
  empty := by simp [propertyKeys, get?]
  merge ha hb := (propertyKeys_merge ha.2 hb.2 (Json.wellFormed_obj.1 hb.1).1).2 x

/-- The properties of a flattened schema are those of the parts, if these are mappings. -/
theorem mem_propertyKeys_flatten {document : Document} {schema : Json} (hschema : schema.WellFormed)
    {r : Members} (hmappings : ∀ p, Contributes document ignored schema p → HoldsMapping p)
    (h : Schema.flatten document schema ignored = .ok r) :
    HoldsMapping r ∧ ∀ x, x ∈ propertyKeys r ↔
      ∃ p, Contributes document ignored schema p ∧ x ∈ propertyKeys p := by
  have hfits : ∀ p, Contributes document ignored schema p →
      (Json.obj p).WellFormed ∧ HoldsMapping p :=
    fun p hp => ⟨hp.wellFormed hschema, hmappings p hp⟩
  have htells := fun x => (additive_propertyKeys x).flatten hfits h
  exact ⟨(htells .null).1.2, fun x => (htells x).2⟩

end

/-! ## Leaving a reference out -/

section
variable {document : Members} {ignored : Json}

/-- The branches of a schema or of what its references lead to. -/
inductive Composed (document : Members) : Members → Json → Prop
  | here {ms : Members} {b : Json} (hb : b ∈ whole.branches ms) : Composed document ms b
  | target {ms start : Members} {ref b : Json} (href : whole.ref? .null ms = some ref)
    (hstart : Pointer.target document ref = .ok start) (h : Composed document start b) :
    Composed document ms b

theorem Composed.contributes {ms part : Members} {b : Json} (h : Composed document ms b)
    (hpart : Contributes document .null b part) : Contributes document .null (.obj ms) part := by
  induction h with
  | here hb => exact .branch hb hpart
  | target href hstart _ ih => exact .target href hstart (ih hpart)

/-- The mode of following references. -/
def following : Mode := ⟨true, false⟩

/-- The branches of a schema whose references are followed come from the schema. -/
def Gathers (document : Members) (m : Mode) (ms r : Members) : Prop :=
  m = following → (meanings ms).Nodup → ∀ b ∈ whole.branches r, Composed document ms b

theorem nil_of_branching {motive : Mode → Members → Members → Prop} {ms : Members}
    {parts : List Members} (h : Branching motive following ms parts) : parts = [] := by
  cases h
  rfl

theorem nodup_meanings_own {ms : Members} (m : Mode) (h : (meanings ms).Nodup) :
    (meanings (m.own ms)).Nodup :=
  h.sublist (List.filter_sublist.map _)

theorem mem_branches_congr {a b : Members} (h : get? a allOfKey = get? b allOfKey) {v : Json} :
    v ∈ whole.branches a ↔ v ∈ whole.branches b := by
  rw [Mode.mem_branches, Mode.mem_branches, h]

theorem mem_branches_of_merge {a b : Members} (hb : (meanings b).Nodup) {v : Json}
    (hv : v ∈ whole.branches (merge a b)) : v ∈ whole.branches a ∨ v ∈ whole.branches b := by
  obtain ⟨-, items, hget, hv⟩ := Mode.mem_branches.1 hv
  rw [get?_merge hb] at hget
  cases hgetb : get? b allOfKey with
  | none =>
    rw [hgetb] at hget
    exact .inl (Mode.mem_branches.2 ⟨rfl, items, hget, hv⟩)
  | some w =>
    rw [hgetb] at hget
    cases w with
    | arr later =>
      simp only [combine] at hget
      split at hget
      · rename_i earlier hgeta
        cases hget
        rcases List.mem_append.1 hv with hv | hv
        · exact .inl (Mode.mem_branches.2 ⟨rfl, earlier, hgeta, hv⟩)
        · exact .inr (Mode.mem_branches.2 ⟨rfl, later, hgetb, hv⟩)
      · cases hget
        exact .inr (Mode.mem_branches.2 ⟨rfl, _, hgetb, hv⟩)
    | obj members =>
      simp only [combine] at hget
      split at hget <;> cases hget
    | _ => cases hget

theorem mem_branches_following (ms : Members) {v : Json} :
    v ∈ whole.branches (following.own ms) ↔ v ∈ whole.branches ms :=
  mem_branches_congr (Mode.get?_own _ (by decide) ms)

theorem gathers_plain : Plain ignored (Gathers document) := by
  rintro m ms parts - hparts rfl hnodup b hb
  rw [nil_of_branching hparts] at hb
  have hown := (mem_branches_congr (get?_merge_nil (nodup_meanings_own following hnodup) _)).1 hb
  exact .here ((mem_branches_following ms).1 hown)

theorem gathers_through {document : Document} :
    Through document .null (Gathers document) := by
  rintro m ms ref start parts r href hstart hparts hmerged rfl hnodup b hb
  have hnodups := (Json.wellFormed_obj.1 (wellFormed_target hstart)).1
  rw [nil_of_branching hparts] at hmerged
  have hrefKey : get? (mergeAll [start, following.own ms]) refKey = get? start refKey := by
    apply get?_mergeAll_cons hnodups
    intro p hp
    rw [List.mem_singleton.1 hp]
    exact Mode.not_mem_meanings_own (by decide) ms
  have htarget : whole.ref? .null ms = some (.str ref) := href
  cases hmerged rfl (nodup_meanings_merge (nodup_meanings_merge List.nodup_nil)) b hb with
  | here hb =>
    rcases mem_branches_of_merge (nodup_meanings_own following hnodup) hb with hb | hb
    · have hb := (mem_branches_congr (get?_merge_nil hnodups _)).1 hb
      exact .target htarget hstart (.here hb)
    · exact .here ((mem_branches_following ms).1 hb)
  | target href' hstart' h =>
    rw [Mode.ref?_eq_some] at href'
    have href'' := Mode.ref?_eq_some.2 (hrefKey ▸ href')
    exact .target htarget hstart (.target href'' hstart' h)

/-- Following references brings together branches of the schemas that they lead to. -/
theorem composed_of_followRefs {document : Document} {schema : Json} (hschema : schema.WellFormed)
    {r : Members} (h : followRefs document schema .null = .ok r) :
    ∃ ms, schema = .obj ms ∧ ∀ b ∈ whole.branches r, Composed document ms b := by
  obtain ⟨ms, rfl, hgathers⟩ := resolve_induction gathers_plain gathers_through h
  exact ⟨ms, rfl, hgathers rfl (Json.wellFormed_obj.1 hschema).1⟩

/-- A reference that is followed even if one is left out is followed if none is. -/
theorem ref?_of_ref?_ignoring {ms : Members} {ref : Json}
    (h : whole.ref? ignored ms = some ref) : whole.ref? .null ms = some ref := by
  rw [Mode.ref?_eq_some] at h ⊢
  obtain ⟨hrefs, hget, htruthy, -⟩ := h
  refine ⟨hrefs, hget, htruthy, ?_⟩
  cases ref <;> first | rfl | cases htruthy

theorem Contributes.of_ignoring {schema : Json} {part : Members}
    (h : Contributes document ignored schema part) : Contributes document .null schema part := by
  induction h with
  | own ms => exact .own ms
  | target href hstart _ ih => exact .target (ref?_of_ref?_ignoring href) hstart ih
  | branch hb _ ih => exact .branch hb ih

/-- Leaving out the reference of a branch that a schema is composed of takes away nothing
but what contributes to that branch. -/
theorem contributes_iff {ms branch part : Members} {ref : Json}
    (hbranch : Composed document ms (.obj branch)) (href : get? branch refKey = some ref) :
    Contributes document .null (.obj ms) part ↔
      Contributes document ref (.obj ms) part ∨ Contributes document .null (.obj branch) part := by
  constructor
  · generalize Json.obj ms = schema
    intro h
    clear hbranch
    induction h with
    | own ms => exact .inl (.own ms)
    | @target ms start part ref' href' hstart h ih =>
      obtain ⟨hrefs, hget, hnull⟩ := Mode.ref?_eq_some.1 href'
      by_cases hsame : ref'.same ref = true
      · -- Only a text leads to a target, and nothing but itself is the same as a text.
        have heq : ref' = ref := by
          cases ref' with
          | str s => cases ref <;> simp_all [Json.same, Json.number?]
          | _ => cases hstart
        subst heq
        exact .inr (.target (Mode.ref?_eq_some.2 ⟨hrefs, href, hnull⟩) hstart h)
      · refine ih.imp_left fun h => .target (Mode.ref?_eq_some.2 ?_) hstart h
        exact ⟨hrefs, hget, hnull.1, Bool.eq_false_iff.2 hsame⟩
    | branch hb _ ih => exact ih.imp_left fun h => .branch hb h
  · rintro (h | h)
    · exact h.of_ignoring
    · exact hbranch.contributes h

end

end Schema

end ClientForge
