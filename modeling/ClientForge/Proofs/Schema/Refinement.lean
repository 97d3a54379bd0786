-- SUMMARY: In merges and resolved schemas the most specific value wins, whatever the kinds of the others.
import ClientForge.Proofs.Json.Equality
import ClientForge.Proofs.Schema.Resolution

/-!
# Refinement

A value refines another one if it says all that the other one says: a list ends with the
other list, an object has every key of the other object with a refining value, and anything
else is the other value. This is a preorder (`Json.refines_self`, `Json.Refines.trans`), and
a merge refines the object that is merged last (`Json.refines_merge`). So a resolved schema
refines its own members, through any number of merges on the way (`most_specific_wins`).
-/

namespace ClientForge

namespace Json

open Members

mutual

/-- A value says all that another one says. -/
def Refines : Json → Json → Prop
  | r, .arr items => ∃ earlier, r = .arr (earlier ++ items)
  | r, .obj members => ∃ ms, r = .obj ms ∧ RefinesMembers ms members
  | r, v => r = v

/-- Every key is there with a refining value. -/
def RefinesMembers : Members → List (Key × Json) → Prop
  | _, [] => True
  | ms, (k, v) :: rest => (∃ w, get? ms k = some w ∧ Refines w v) ∧ RefinesMembers ms rest

end

theorem refinesMembers_iff {rs ms : Members} :
    RefinesMembers rs ms ↔ ∀ m ∈ ms, ∃ w, get? rs m.1 = some w ∧ w.Refines m.2 := by
  induction ms with
  | nil => simp [RefinesMembers]
  | cons m ms ih =>
    rw [List.forall_mem_cons, ← ih]
    rfl

theorem refines_obj_iff {r : Json} {ms : Members} : r.Refines (.obj ms) ↔
    ∃ rs, r = .obj rs ∧ ∀ m ∈ ms, ∃ w, get? rs m.1 = some w ∧ w.Refines m.2 := by
  simp only [Refines, refinesMembers_iff]

theorem refines_members_iff {rs ms : Members} : (obj rs).Refines (.obj ms) ↔
    ∀ m ∈ ms, ∃ w, get? rs m.1 = some w ∧ w.Refines m.2 := by
  simp [refines_obj_iff]

/-! ## A preorder -/

theorem refines_self (v : Json) (h : v.WellFormed) : v.Refines v := by
  induction v using inductionOn with
  | arr items => exact ⟨[], rfl⟩
  | obj ms ih =>
    obtain ⟨hkeys, hvalues⟩ := wellFormed_obj.1 h
    exact refines_members_iff.2 fun m hm =>
      ⟨m.2, get?_of_mem hkeys hm, ih m hm (hvalues m hm)⟩
  | _ => rfl

theorem Refines.trans {a b : Json} (hab : a.Refines b) (c : Json) (hbc : b.Refines c) :
    a.Refines c := by
  induction c using inductionOn generalizing a b with
  | arr items =>
    obtain ⟨earlier, rfl⟩ := hbc
    obtain ⟨first, rfl⟩ := hab
    exact ⟨first ++ earlier, by rw [List.append_assoc]⟩
  | obj ms ih =>
    obtain ⟨bs, rfl, hbs⟩ := refines_obj_iff.1 hbc
    obtain ⟨as, rfl, has⟩ := refines_obj_iff.1 hab
    refine refines_members_iff.2 fun m hm => ?_
    obtain ⟨w, hw, hwm⟩ := hbs m hm
    obtain ⟨n, hn, hkey, rfl⟩ := mem_of_get? hw
    obtain ⟨u, hu, hun⟩ := has n hn
    exact ⟨u, get?_congr hkey as ▸ hu, ih m hm hun hwm⟩
  | null => exact (hbc : b = .null) ▸ hab
  | bool x => exact (hbc : b = .bool x) ▸ hab
  | int n => exact (hbc : b = .int n) ▸ hab
  | float x => exact (hbc : b = .float x) ▸ hab
  | str s => exact (hbc : b = .str s) ▸ hab

/-! ## Merging -/

/-- What is under a key refines the value that was brought to it last. -/
theorem refines_combine (held : Option Json) (v : Json) (h : v.WellFormed) :
    (combine held v).Refines v := by
  induction v using inductionOn generalizing held with
  | arr items =>
    unfold combine
    split
    · exact ⟨_, rfl⟩
    · exact ⟨[], rfl⟩
  | obj ms ih =>
    obtain ⟨hkeys, hvalues⟩ := wellFormed_obj.1 h
    have hmerged : ∀ earlier, (obj (merge earlier ms)).Refines (.obj ms) := by
      refine fun earlier => refines_members_iff.2 fun m hm => ⟨combine (get? earlier m.1) m.2, ?_, ?_⟩
      · rw [get?_merge hkeys, get?_of_mem hkeys hm]
      · exact ih m hm _ (hvalues m hm)
    unfold combine
    split
    · exact hmerged _
    · exact refines_self _ h
  | _ => rfl

/-- A merge refines the object that is merged last. -/
theorem refines_merge (a : Members) {b : Members} (h : (obj b).WellFormed) :
    (obj (merge a b)).Refines (.obj b) :=
  refines_combine (some (.obj a)) (.obj b) h

theorem refines_mergeAll (parts : List Members) {last : Members} (h : (obj last).WellFormed) :
    (obj (mergeAll (parts ++ [last]))).Refines (.obj last) := by
  rw [mergeAll, List.foldl_append]
  exact refines_merge _ h

end Json

namespace Members

open Outcome

/-- Objects and nulls merge, and the last object that is not empty is refined. -/
theorem mergeValues_refines {before after : List Json} {last : Members}
    (hvalues : ∀ v ∈ before, v = .null ∨ ∃ ms, v = .obj ms)
    (hafter : ∀ v ∈ after, v = .null ∨ v = .obj []) (hlast : (Json.obj last).WellFormed)
    (hsome : last ≠ []) :
    ∃ r, mergeValues (before ++ .obj last :: after) = .ok r ∧ (Json.obj r).Refines (.obj last) := by
  have hnothing : after.filter Json.truthy = [] := by
    refine List.filter_eq_nil_iff.2 fun v hv => ?_
    rcases hafter v hv with rfl | rfl <;> exact Bool.false_ne_true
  have hkept : (Json.obj last).truthy = true := by
    cases last with
    | nil => exact absurd rfl hsome
    | cons => rfl
  obtain ⟨parts, hparts⟩ : ∃ parts, (before.filter Json.truthy).mapM Json.members = .ok parts := by
    refine exists_mapM_eq_ok.2 fun v hv => ?_
    obtain ⟨hv, htruthy⟩ := List.mem_filter.1 hv
    rcases hvalues v hv with rfl | ⟨ms, rfl⟩
    · cases htruthy
    · exact ⟨ms, rfl⟩
  refine ⟨mergeAll (parts ++ [last]), ?_, Json.refines_mergeAll parts hlast⟩
  unfold mergeValues
  rw [List.filter_append, List.filter_cons, if_pos hkept, hnothing, List.mapM_append, hparts]
  rfl

end Members

/-! ## Resolved schemas -/

namespace Schema

open Members

/-- What a schema resolves to refines the members of it that stay. -/
def RefinesOwn (m : Mode) (ms r : Members) : Prop :=
  (Json.obj ms).WellFormed → (Json.obj r).WellFormed ∧ (Json.obj r).Refines (.obj (m.own ms))

theorem wellFormed_parts {m : Mode} {ms : Members} {parts : List Members}
    (hparts : Branching RefinesOwn m ms parts) (hms : (Json.obj ms).WellFormed) :
    ∀ p ∈ parts ++ [m.own ms], (Json.obj p).WellFormed :=
  stable_wellFormed.parts hms <| hparts.imp fun _ _ h => by
    obtain ⟨bs, hb, hown⟩ := h
    exact ⟨bs, hb, fun hbs => (hown hbs).1⟩

theorem refinesOwn_plain {ignored : Json} : Plain ignored RefinesOwn := by
  intro m ms parts _ hparts hms
  exact ⟨stable_wellFormed.mergeAll (wellFormed_parts hparts hms),
    Json.refines_mergeAll parts (stable_wellFormed.own m hms)⟩

theorem refinesOwn_through {document : Document} {ignored : Json} :
    Through document ignored RefinesOwn := by
  intro m ms ref start parts r _ hstart hparts ih hms
  have hwf : ∀ p ∈ start :: parts ++ [m.own ms], (Json.obj p).WellFormed :=
    List.forall_mem_cons.2 ⟨wellFormed_target hstart, wellFormed_parts hparts hms⟩
  obtain ⟨hr, hrefines⟩ := ih (stable_wellFormed.mergeAll hwf)
  refine ⟨hr, hrefines.trans _ ?_⟩
  -- the merge that is resolved in turn has the members of this schema as its last part
  have hown : m.own (mergeAll (start :: parts ++ [m.own ms])) =
      mergeAll ((start :: parts).map m.own ++ [m.own ms]) := by
    rw [m.own_mergeAll, List.map_append, List.map_singleton, m.own_own]
  rw [hown]
  exact Json.refines_mergeAll _ (stable_wellFormed.own m hms)

theorem resolve_refines {document : Document} {ignored schema : Json} {m : Mode} {r : Members}
    (hschema : schema.WellFormed) (h : resolve document ignored m schema = .ok r) :
    ∃ ms, schema = .obj ms ∧ (Json.obj r).Refines (.obj (m.own ms)) := by
  obtain ⟨ms, rfl, hown⟩ := resolve_induction refinesOwn_plain refinesOwn_through h
  exact ⟨ms, rfl, (hown hschema).2⟩

/-- The most specific value wins, whatever the kinds of the others: a resolved schema refines
the members of the schema that are not resolved away, and a merge of objects and nulls refines
the last of them that is not empty. -/
theorem most_specific_wins {document : Document} {ignored schema : Json} {m : Mode} {r : Members}
    (hschema : schema.WellFormed) (h : resolve document ignored m schema = .ok r) :
    (∃ ms, schema = .obj ms ∧ (Json.obj r).Refines (.obj (m.own ms))) ∧
      ∀ (before after : List Json) (last : Members),
        (∀ v ∈ before, v = .null ∨ ∃ ms, v = .obj ms) → (∀ v ∈ after, v = .null ∨ v = .obj []) →
        (Json.obj last).WellFormed → last ≠ [] →
        ∃ merged, mergeValues (before ++ .obj last :: after) = .ok merged ∧
          (Json.obj merged).Refines (.obj last) := by
  refine ⟨resolve_refines hschema h, fun before after last hbefore hafter hlast hsome => ?_⟩
  exact mergeValues_refines hbefore hafter hlast hsome

/-! ### A stray cat -/

/-- A pet has a name and needs it; its age is described by a schema. -/
def strayDocument : Document where
  members :=
    [("definitions", .obj [("Pet", .obj [
      ("required", .arr [.str "name"]),
      ("properties", .obj [("name", .obj [("type", .str "string")]), ("age", .obj [])]),
      ("example", .null)])])]

/-- What is said of a stray cat differs in kind from what is said of a pet. -/
def strayCat : Members :=
  [(refKey, .str "#/definitions/Pet"),
    ("required", .arr [.str "chip"]),
    ("properties", .obj [("name", .obj [("type", .arr [])]), ("age", .bool true)]),
    ("example", .obj [])]

theorem most_specific_wins_strayCat :
    (Json.obj strayCat).WellFormed ∧
      ∃ r, resolve strayDocument .null ⟨true, true⟩ (.obj strayCat) = .ok r ∧
        Members.get r "required" = .arr [.str "name", .str "chip"] ∧
        (Json.obj r).Refines (.obj (Mode.own ⟨true, true⟩ strayCat)) ∧
        ∃ merged, mergeValues [.obj r, .null, .obj strayCat, .obj []] = .ok merged ∧
          Members.get merged "required" = .arr [.str "name", .str "chip", .str "chip"] ∧
          (Json.obj merged).Refines (.obj strayCat) := by
  have hcat : (Json.obj strayCat).WellFormed := by
    simp [strayCat, refKey, Json.WellFormed, Json.wellFormedMembers, Json.wellFormedItems, meanings,
      Key.meaning]
  have hresolve : resolve strayDocument .null ⟨true, true⟩ (.obj strayCat) = .ok
      [("required", .arr [.str "name", .str "chip"]),
        ("properties", .obj [("name", .obj [("type", .arr [])]), ("age", .bool true)]),
        ("example", .obj [])] := by
    rfl
  obtain ⟨⟨ms, hms, hrefines⟩, hmerge⟩ := most_specific_wins hcat hresolve
  cases hms
  obtain ⟨merged, hmerged, hlast⟩ :=
    hmerge [.obj _, .null] [.obj []] strayCat (by simp) (by simp) hcat
      (List.cons_ne_nil _ _)
  exact ⟨hcat, _, hresolve, rfl, hrefines, merged, hmerged,
    by cases hmerged; rfl, hlast⟩

end Schema

end ClientForge
