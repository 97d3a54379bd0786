-- SUMMARY: A flattened schema is the merge of the parts of the schema in one line.
import ClientForge.Proofs.Schema.Associativity

/-!
# Linearisation

The parts of a schema stand in a line: those of the target of its reference, those of its
branches in order, and last its own members. Flattening does not merge along this line: it
merges the target, before that is resolved, with branches that are resolved already, and
resolves the merge. If the parts are uniform, so that merging them is associative, the
result is the merge of the line all the same, with its keys in the same order
(`flatten_eq_mergeAll`); lists under a key, such as the required properties, are appended
along the line.
-/

namespace ClientForge

namespace Schema

open Members Outcome

/-- The parts of a schema in a line. A reference to leave out has no target. -/
inductive Linearisation (document : Members) (ignored : Json) : Json → List Members → Prop
  | plain {ms : Members} {groups : List (List Members)} (href : whole.ref? ignored ms = none)
    (hbranches : List.Forall₂ (Linearisation document ignored) (whole.branches ms) groups) :
    Linearisation document ignored (.obj ms) (groups.flatten ++ [whole.own ms])
  | through {ms start : Members} {ref : Json} {first : List Members} {groups : List (List Members)}
    (href : whole.ref? ignored ms = some ref) (hstart : Pointer.target document ref = .ok start)
    (hfirst : Linearisation document ignored (.obj start) first)
    (hbranches : List.Forall₂ (Linearisation document ignored) (whole.branches ms) groups) :
    Linearisation document ignored (.obj ms) (first ++ groups.flatten ++ [whole.own ms])

section
variable {document : Members} {ignored : Json}

/-- The line of a schema is the one given, and no other. -/
def HasLine (document : Members) (ignored : Json) (schema : Json) (parts : List Members) : Prop :=
  ∀ parts', Linearisation document ignored schema parts' ↔ parts' = parts

/-- But for its own members, the line of a schema depends on its reference and its composition
alone. -/
theorem Linearisation.transfer {a b : Members} {parts : List Members}
    (href : get? a refKey = get? b refKey) (hallOf : get? a allOfKey = get? b allOfKey)
    (h : Linearisation document ignored (.obj a) parts) :
    ∃ before, parts = before ++ [whole.own a] ∧
      Linearisation document ignored (.obj b) (before ++ [whole.own b]) := by
  have href? : whole.ref? ignored a = whole.ref? ignored b := by
    unfold Mode.ref? Members.get
    rw [href]
  have hbranches? : whole.branches a = whole.branches b := by
    unfold Mode.branches Members.get
    rw [hallOf]
  cases h with
  | plain hnone hbranches =>
    rw [href?] at hnone
    rw [hbranches?] at hbranches
    exact ⟨_, rfl, .plain hnone hbranches⟩
  | through hsome hstart hfirst hbranches =>
    rw [href?] at hsome
    rw [hbranches?] at hbranches
    exact ⟨_, rfl, .through hsome hstart hfirst hbranches⟩

/-! ## Branches -/

theorem forall₂_iff_of_hasLine {schemas : List Json} {groups : List (List Members)}
    (h : List.Forall₂ (HasLine document ignored) schemas groups) (groups' : List (List Members)) :
    List.Forall₂ (Linearisation document ignored) schemas groups' ↔ groups' = groups := by
  induction h generalizing groups' with
  | nil => simp
  | cons hline _ ih =>
    constructor
    · intro h
      cases h with
      | cons hfirst hrest => rw [(hline _).1 hfirst, (ih _).1 hrest]
    · rintro rfl
      exact .cons ((hline _).2 rfl) ((ih _).2 rfl)

/-- A schema has one line, and if it is uniform the schema resolves to the merge of it. -/
structure Lined (document : Members) (ignored : Json) (schema : Json) (r : Members)
    (parts : List Members) : Prop where
  line : HasLine document ignored schema parts
  wellFormed : AllWellFormed parts
  resolved : (Json.obj r).WellFormed
  own : whole.own r = r
  merged : Uniform parts → r = mergeAll parts

/-- Resolving a well-formed schema merges its line. -/
def Lines (document : Members) (ignored : Json) (m : Mode) (ms r : Members) : Prop :=
  m = whole → (Json.obj ms).WellFormed → ∃ parts, Lined document ignored (.obj ms) r parts

/-- The lines of some branches, and what the branches resolve to. -/
structure LinedBranches (document : Members) (ignored : Json) (branches : List Json)
    (parts : List Members) (groups : List (List Members)) : Prop where
  lines : List.Forall₂ (HasLine document ignored) branches groups
  wellFormed : AllWellFormed groups.flatten
  resolved : AllWellFormed parts
  own : ∀ p ∈ parts, whole.own p = p
  merged : Uniform groups.flatten → parts = groups.map mergeAll

theorem exists_linedBranches {branches : List Json} {parts : List Members}
    (h : List.Forall₂ (fun b p => ∃ group, Lined document ignored b p group) branches parts) :
    ∃ groups, LinedBranches document ignored branches parts groups := by
  induction h with
  | nil => exact ⟨[], .nil, nofun, nofun, nofun, fun _ => rfl⟩
  | cons hfirst _ ih =>
    obtain ⟨group, hgroup⟩ := hfirst
    obtain ⟨groups, hgroups⟩ := ih
    refine ⟨group :: groups, .cons hgroup.line hgroups.lines, ?_, ?_, ?_, fun huniform => ?_⟩
    · exact List.forall_mem_append.2 ⟨hgroup.wellFormed, hgroups.wellFormed⟩
    · exact List.forall_mem_cons.2 ⟨hgroup.resolved, hgroups.resolved⟩
    · exact List.forall_mem_cons.2 ⟨hgroup.own, hgroups.own⟩
    · rw [List.flatten_cons] at huniform
      rw [List.map_cons, hgroup.merged (huniform.subset (List.subset_append_left _ _)),
        hgroups.merged (huniform.subset (List.subset_append_right _ _))]

theorem linedBranches_of_branching {ms : Members} {parts : List Members}
    (hms : (Json.obj ms).WellFormed) (hparts : Branching (Lines document ignored) whole ms parts) :
    ∃ groups, LinedBranches document ignored (whole.branches ms) parts groups := by
  have hbranches : ∀ b ∈ whole.branches ms, b.WellFormed :=
    fun b hb => hereditary_wellFormed.branch hms hb
  apply exists_linedBranches
  refine List.Forall₂.imp ?_ ((List.forall₂_and_left _ _).2 ⟨hbranches, hparts⟩)
  rintro b p ⟨hb, bs, rfl, hlines⟩
  exact hlines rfl hb

/-! ## Schemas -/

theorem LinedBranches.own_last {branches : List Json} {parts : List Members}
    {groups : List (List Members)} (h : LinedBranches document ignored branches parts groups)
    (ms : Members) : ∀ p ∈ parts ++ [whole.own ms], whole.own p = p := by
  intro p hp
  rcases List.mem_append.1 hp with hp | hp
  · exact h.own p hp
  · rw [List.mem_singleton.1 hp, Mode.own_own]

theorem wellFormed_last {ms : Members} {parts : List Members} (h : AllWellFormed parts)
    (hms : (Json.obj ms).WellFormed) : AllWellFormed (parts ++ [whole.own ms]) := by
  intro p hp
  rcases List.mem_append.1 hp with hp | hp
  · exact h p hp
  · rw [List.mem_singleton.1 hp]
    exact stable_wellFormed.own whole hms

theorem lines_plain : Plain ignored (Lines document ignored) := by
  rintro m ms parts hnone hparts rfl hms
  obtain ⟨groups, hgroups⟩ := linedBranches_of_branching hms hparts
  have hresolved := wellFormed_mergeAll (wellFormed_last hgroups.resolved hms)
  refine ⟨groups.flatten ++ [whole.own ms], ?_, wellFormed_last hgroups.wellFormed hms, hresolved, ?_,
    fun huniform => ?_⟩
  · intro parts'
    constructor
    · intro h
      cases h with
      | plain _ hbranches => rw [(forall₂_iff_of_hasLine hgroups.lines _).1 hbranches]
      | through href => rw [hnone] at href; cases href
    · rintro rfl
      exact .plain hnone ((forall₂_iff_of_hasLine hgroups.lines _).2 rfl)
  · rw [Mode.own_mergeAll, List.map_congr_left (hgroups.own_last ms), List.map_id']
  · have hbranches := huniform.subset (List.subset_append_left groups.flatten [whole.own ms])
    rw [hgroups.merged hbranches]
    exact mergeAll_map_mergeAll [] _ hgroups.wellFormed hbranches

/-- What is resolved in place of a schema with a reference leads where the target leads, so the
line of one tells that of the other. -/
theorem hasLine_of_merged {ms start merged : Members} {ref : Json} {line : List Members}
    {groups : List (List Members)} (href : whole.ref? ignored ms = some ref)
    (hstart : Pointer.target document ref = .ok start)
    (hgroups : List.Forall₂ (HasLine document ignored) (whole.branches ms) groups)
    (hrefKey : get? merged refKey = get? start refKey)
    (hallOfKey : get? merged allOfKey = get? start allOfKey)
    (hline : HasLine document ignored (.obj merged) line) :
    ∃ before, line = before ++ [whole.own merged] ∧ HasLine document ignored (.obj ms)
      (before ++ (whole.own start :: groups.flatten ++ [whole.own ms])) := by
  obtain ⟨before, rfl, hbefore⟩ := ((hline line).2 rfl).transfer hrefKey hallOfKey
  have hfirst : ∀ first, Linearisation document ignored (.obj start) first →
      first = before ++ [whole.own start] := by
    intro first h
    obtain ⟨before', rfl, hbefore'⟩ := h.transfer hrefKey.symm hallOfKey.symm
    rw [List.append_cancel_right ((hline _).1 hbefore')]
  refine ⟨before, rfl, fun parts' => ⟨fun h => ?_, ?_⟩⟩
  · cases h with
    | plain hnone => rw [href] at hnone; cases hnone
    | through href' hstart' hfirst' hbranches =>
      cases href.symm.trans href'
      cases hstart.symm.trans hstart'
      rw [hfirst _ hfirst', (forall₂_iff_of_hasLine hgroups _).1 hbranches]
      simp
  · rintro rfl
    have hbranches := (forall₂_iff_of_hasLine hgroups _).2 rfl
    simpa using Linearisation.through href hstart hbefore hbranches

theorem lines_through {document : Document} :
    Through document ignored (Lines document ignored) := by
  rintro m ms ref start parts r href hstart hparts hmerged rfl hms
  obtain ⟨groups, hgroups⟩ := linedBranches_of_branching hms hparts
  have hwfstart := wellFormed_target hstart
  have hrest := wellFormed_last hgroups.resolved hms
  have hlost := fun k =>
    get?_mergeAll_of_resolved (k := k) (Json.wellFormed_obj.1 hwfstart).1 (hgroups.own_last ms)
  have hown := own_mergeAll_of_resolved start (hgroups.own_last ms)
  obtain ⟨line, hline⟩ :=
    hmerged rfl (wellFormed_mergeAll (List.forall_mem_cons.2 ⟨hwfstart, hrest⟩))
  obtain ⟨before, rfl, hhasLine⟩ := hasLine_of_merged href hstart hgroups.lines
    (hlost refKey (by decide)) (hlost allOfKey (by decide)) hline.line
  have hwf : AllWellFormed (before ++ (whole.own start :: groups.flatten ++ [whole.own ms])) := by
    refine List.forall_mem_append.2 ⟨?_, wellFormed_last ?_ hms⟩
    · exact hline.wellFormed.subset (List.subset_append_left _ _)
    · exact List.forall_mem_cons.2 ⟨stable_wellFormed.own whole hwfstart, hgroups.wellFormed⟩
  refine ⟨_, hhasLine, hwf, hline.resolved, hline.own, fun huniform => ?_⟩
  obtain ⟨hmiddle, hmergeAll⟩ := mergeAll_concat_mergeAll hwf huniform
  have hbranches : parts = groups.map mergeAll := by
    apply hgroups.merged
    apply huniform.subset
    intro p hp
    simp [hp]
  rw [hbranches] at hown
  rw [← hown, ← hbranches] at hmiddle hmergeAll
  rw [hline.merged hmiddle, hmergeAll]

/-! ## Flattening -/

/-- A flattened schema is the merge of its line, if that is uniform, and lists under a key are
appended along the line. -/
theorem flatten_eq_mergeAll {document : Document} {schema : Json} {flat : Members}
    (hschema : schema.WellFormed) (h : flatten document schema ignored = .ok flat) :
    ∃ parts, (∀ parts', Linearisation document ignored schema parts' ↔ parts' = parts) ∧
      (Uniform parts → flat = mergeAll parts ∧
        ∀ k, (∃ p ∈ parts, ∃ items, get? p k = some (.arr items)) →
          get? flat k = some (.arr (parts.flatMap (listAt k)))) := by
  obtain ⟨ms, rfl, hlines⟩ := resolve_induction lines_plain lines_through h
  obtain ⟨parts, hparts⟩ := hlines rfl hschema
  refine ⟨parts, hparts.line, fun huniform => ⟨hparts.merged huniform, ?_⟩⟩
  rintro k ⟨p, hp, items, hget⟩
  rw [hparts.merged huniform]
  rcases get?_mergeAll_of_holdLists hparts.wellFormed (holdLists_of_uniform huniform hp hget) with
    ⟨-, hnone⟩ | hsome
  · rw [hnone p hp] at hget
    cases hget
  · exact hsome

end

/-! ## Required properties along a line -/

def requiring (name : String) : Members := [("required", .arr [.str name])]

/-- A tagged thing that has the required properties of a named one. -/
def taggedMembers : Members :=
  [("allOf", .arr [.obj [("$ref", .str "#/definitions/Named")], .obj (requiring "tag")])]

def taggedDocument : Document where
  members := [("definitions", .obj [("Named", .obj (requiring "name")), ("Tagged", .obj taggedMembers)])]

/-- A tagged thing with one more required property. -/
def ownedTagged : Members :=
  ("$ref", .str "#/definitions/Tagged") :: requiring "owner"

def ownedLine : List Members := [requiring "name", [], requiring "tag", [], requiring "owner"]

theorem linearisation_requiring (name : String) :
    Linearisation taggedDocument .null (.obj (requiring name)) [requiring name] :=
  @Linearisation.plain taggedDocument .null (requiring name) [] rfl .nil

theorem linearisation_ownedTagged :
    Linearisation taggedDocument .null (.obj ownedTagged) ownedLine := by
  have hnamed : Linearisation taggedDocument .null (.obj [("$ref", .str "#/definitions/Named")])
      [requiring "name", []] :=
    @Linearisation.through taggedDocument .null [("$ref", .str "#/definitions/Named")] _ _ _ [] rfl
      rfl (linearisation_requiring "name") .nil
  have htagged : Linearisation taggedDocument .null (.obj taggedMembers)
      [requiring "name", [], requiring "tag", []] :=
    @Linearisation.plain taggedDocument .null taggedMembers [[requiring "name", []], [requiring "tag"]]
      rfl (.cons hnamed (.cons (linearisation_requiring "tag") .nil))
  exact @Linearisation.through taggedDocument .null ownedTagged _ _ _ [] rfl rfl htagged .nil

theorem uniform_ownedLine : Uniform ownedLine := by
  have hrequired : ∀ p ∈ ownedLine, ∀ k v, get? p k = some v → ∃ name, v = .arr [.str name] := by
    intro p hp k v hv
    obtain ⟨m, hm, -, rfl⟩ := mem_of_get? hv
    simp only [ownedLine, List.mem_cons, List.not_mem_nil, or_false] at hp
    rcases hp with rfl | rfl | rfl | rfl | rfl <;> simp_all [requiring]
  intro p hp q hq path v w hv hw
  match path with
  | [] =>
    cases hv
    cases hw
    rfl
  | k :: path =>
    obtain ⟨v', hv', hv⟩ := Option.bind_eq_some_iff.1 hv
    obtain ⟨w', hw', hw⟩ := Option.bind_eq_some_iff.1 hw
    obtain ⟨name, rfl⟩ := hrequired p hp k v' hv'
    obtain ⟨name', rfl⟩ := hrequired q hq k w' hw'
    cases path with
    | nil =>
      cases hv
      cases hw
      rfl
    | cons => cases hv

theorem flatten_eq_mergeAll_ownedTagged :
    ∃ flat, flatten taggedDocument (.obj ownedTagged) .null = .ok flat ∧
      flat = mergeAll ownedLine ∧
      get? flat "required" = some (.arr [.str "name", .str "tag", .str "owner"]) := by
  have hschema : (Json.obj ownedTagged).WellFormed := by
    simp [ownedTagged, requiring, Json.WellFormed, Json.wellFormedMembers, Json.wellFormedItems,
      meanings, Key.meaning]
  have hflat : ∃ flat, flatten taggedDocument (.obj ownedTagged) .null = .ok flat := ⟨_, rfl⟩
  obtain ⟨flat, hflat⟩ := hflat
  obtain ⟨parts, hline, hmerged⟩ := flatten_eq_mergeAll hschema hflat
  obtain rfl := (hline ownedLine).1 linearisation_ownedTagged
  obtain ⟨hmerge, hlists⟩ := hmerged uniform_ownedLine
  refine ⟨flat, hflat, hmerge, hlists "required" ⟨requiring "name", ?_, [.str "name"], rfl⟩⟩
  exact List.mem_cons_self

end Schema

end ClientForge
