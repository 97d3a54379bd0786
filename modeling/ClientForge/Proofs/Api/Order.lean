-- SUMMARY: The order in which a document lists its paths does not matter for its API.
import Mathlib.Data.Set.List
import Mathlib.Data.String.Basic
import ClientForge.Proofs.Api.Descriptions
import ClientForge.Proofs.Api.Superclasses
import ClientForge.Proofs.Document.Pointers
import ClientForge.Proofs.Json.Equality

/-!
# The order of paths

Methods are built path by path, in the order of the document, and then sorted by their full
path. Sorting is stable, so the methods of one path stay in the order of the verbs, and
blocks of methods whose full paths differ come out in one order, whichever they came in
(`sortedBy_flatMap_of_perm`). References lead to the same places in a document that lists
its paths in another order, unless one leads to the paths as a whole
(`target_reordered`). So the API is the same (`build_eq_of_reordered`).
-/

namespace ClientForge

open Members Outcome Schema Inference

/-! ## Sorting blocks -/

section
variable {α β : Type}

/-- Sorted lists that have the same entries of each key, in the same order, are equal. -/
theorem eq_of_sorted_of_filter {key : α → String} {as bs : List α}
    (has : as.Pairwise fun a b => key a ≤ key b) (hbs : bs.Pairwise fun a b => key a ≤ key b)
    (h : ∀ k, as.filter (key · = k) = bs.filter (key · = k)) : as = bs := by
  have hmem (c : α) : c ∈ as ↔ c ∈ bs := by
    simpa using congrArg (c ∈ ·) (h (key c))
  induction as generalizing bs with
  | nil => exact (List.eq_nil_iff_forall_not_mem.2 fun b hb => List.not_mem_nil ((hmem b).2 hb)).symm
  | cons a as ih =>
    cases bs with
    | nil => cases (hmem a).1 List.mem_cons_self
    | cons b bs =>
      obtain ⟨hfirst, htail⟩ := List.pairwise_cons.1 has
      obtain ⟨hfirst', htail'⟩ := List.pairwise_cons.1 hbs
      have hab : key a ≤ key b := by
        rcases List.mem_cons.1 ((hmem b).2 List.mem_cons_self) with rfl | hb
        · exact le_rfl
        · exact hfirst b hb
      have hba : key b ≤ key a := by
        rcases List.mem_cons.1 ((hmem a).1 List.mem_cons_self) with rfl | ha
        · exact le_rfl
        · exact hfirst' a ha
      have hheads := h (key a)
      rw [List.filter_cons_of_pos (by simp), List.filter_cons_of_pos (by simp [le_antisymm hba hab])]
        at hheads
      obtain ⟨rfl, -⟩ := List.cons.inj hheads
      have hrest (k : String) : as.filter (key · = k) = bs.filter (key · = k) := by
        have hk := h k
        rw [List.filter_cons, List.filter_cons] at hk
        split at hk
        · exact (List.cons.inj hk).2
        · exact hk
      exact congrArg _ (ih htail htail' hrest fun c => by simpa using congrArg (c ∈ ·) (hrest (key c)))

/-- Entries in the order of their keys. -/
def sortedBy (key : α → String) (as : List α) : List α :=
  as.mergeSort fun a b => decide (key a ≤ key b)

theorem le_trans_key (key : α → String) (a b c : α) (hab : decide (key a ≤ key b) = true)
    (hbc : decide (key b ≤ key c) = true) : decide (key a ≤ key c) = true :=
  decide_eq_true (le_trans (of_decide_eq_true hab) (of_decide_eq_true hbc))

theorem le_total_key (key : α → String) (a b : α) :
    (decide (key a ≤ key b) || decide (key b ≤ key a)) = true := by
  simpa using le_total (key a) (key b)

theorem pairwise_sortedBy (key : α → String) (as : List α) :
    (sortedBy key as).Pairwise fun a b => key a ≤ key b := by
  simpa [sortedBy] using List.pairwise_mergeSort (le_trans_key key) (le_total_key key) as

/-- Entries of one key keep their order. -/
theorem filter_sortedBy (key : α → String) (as : List α) (k : String) :
    (sortedBy key as).filter (key · = k) = as.filter (key · = k) := by
  have hties : (as.filter (key · = k)).Pairwise fun a b => decide (key a ≤ key b) = true := by
    refine List.pairwise_of_forall_mem_list fun a ha b hb => ?_
    simp only [List.mem_filter, decide_eq_true_eq] at ha hb
    simp [ha.2, hb.2]
  have hkept := (List.sublist_mergeSort (le_trans_key key) (le_total_key key) hties
    List.filter_sublist).filter (key · = k)
  rw [List.filter_filter] at hkept
  simp only [Bool.and_self] at hkept
  refine (hkept.eq_of_length ?_).symm
  exact ((List.mergeSort_perm as _).filter _).length_eq.symm

/-- Blocks of which at most one holds anything can be put in any order. -/
theorem flatMap_eq_of_perm {g : α → List β} {as bs : List α} (h : as.Perm bs)
    (halone : as.Pairwise fun a b => g a = [] ∨ g b = []) : as.flatMap g = bs.flatMap g := by
  induction h with
  | nil => rfl
  | cons a _ ih => rw [List.flatMap_cons, List.flatMap_cons, ih (List.pairwise_cons.1 halone).2]
  | swap a b as =>
    obtain ⟨hfirst, -⟩ := List.pairwise_cons.1 halone
    simp only [List.flatMap_cons, ← List.append_assoc]
    rcases hfirst a List.mem_cons_self with hb | ha
    · simp [hb]
    · simp [ha]
  | trans hab _ ih ih' => exact (ih halone).trans (ih' (hab.pairwise halone Or.symm))

/-- Blocks with keys of their own come out sorted in one way. -/
theorem sortedBy_flatMap_of_perm (key : β → String) {f : α → List β} {as bs : List α}
    (h : as.Perm bs) (hown : as.Pairwise fun a b => ∀ x ∈ f a, ∀ y ∈ f b, key x ≠ key y) :
    sortedBy key (as.flatMap f) = sortedBy key (bs.flatMap f) := by
  refine eq_of_sorted_of_filter (pairwise_sortedBy key _) (pairwise_sortedBy key _) fun k => ?_
  rw [filter_sortedBy, filter_sortedBy, List.filter_flatMap, List.filter_flatMap]
  refine flatMap_eq_of_perm h (hown.imp fun {a b} hab => ?_)
  by_cases ha : (f a).filter (key · = k) = []
  · exact .inl ha
  · refine .inr (List.filter_eq_nil_iff.2 fun y hy hkey => ?_)
    obtain ⟨x, hx⟩ := List.exists_mem_of_ne_nil _ ha
    obtain ⟨hx, hkey'⟩ := List.mem_filter.1 hx
    simp only [decide_eq_true_eq] at hkey hkey'
    exact hab x hx y hy (hkey'.trans hkey.symm)

/-! ## Sequences of blocks -/

theorem mapM_id_eq_ok {ε : Type} {xs : List (Except ε α)} {as : List α} :
    xs.mapM id = .ok as ↔ xs = as.map .ok := by
  rw [mapM_eq_ok, ← List.forall₂_eq_eq_eq, List.forall₂_map_right_iff]
  rfl

theorem successes_map_ok {ε : Type} (as : List α) :
    (as.map (Except.ok (ε := ε))).filterMap Except.toOption = as := by
  rw [List.filterMap_map]
  exact List.filterMap_some

/-- Blocks of computations that succeed one after another are blocks of results. -/
theorem exists_blocks_of_mapM {ε : Type} {f : α → List (Except ε β)} {as : List α} {xs : List β}
    (h : (as.flatMap f).mapM id = .ok xs) :
    ∃ g : α → List β, (∀ a ∈ as, f a = (g a).map .ok) ∧ xs = as.flatMap g := by
  rw [mapM_id_eq_ok] at h
  refine ⟨fun a => (f a).filterMap Except.toOption, fun a ha => ?_, ?_⟩
  · have hok : ∀ x ∈ f a, ∃ b, Except.ok b = x := by
      intro x hx
      have hmem : x ∈ as.flatMap f := List.mem_flatMap.2 ⟨a, ha, hx⟩
      rw [h] at hmem
      obtain ⟨b, -, rfl⟩ := List.mem_map.1 hmem
      exact ⟨b, rfl⟩
    obtain ⟨bs, hbs⟩ : f a ∈ Set.range (List.map Except.ok) := Set.range_list_map _ ▸ hok
    change f a = ((f a).filterMap Except.toOption).map .ok
    rw [← hbs, successes_map_ok]
  · rw [← List.filterMap_flatMap, h, successes_map_ok]

/-- Computations in blocks with keys of their own give one sorted list in any order of the blocks,
or fail in any order. -/
theorem sorted_mapM_of_perm {ε : Type} (key : β → String) {f : α → List (Except ε β)} {as bs : List α}
    (h : as.Perm bs)
    (hown : as.Pairwise fun a b => ∀ x y, .ok x ∈ f a → .ok y ∈ f b → key x ≠ key y) {xs : List β}
    (hxs : (as.flatMap f).mapM id = .ok xs) :
    ∃ ys, (bs.flatMap f).mapM id = .ok ys ∧ sortedBy key xs = sortedBy key ys := by
  obtain ⟨g, hg, rfl⟩ := exists_blocks_of_mapM hxs
  refine ⟨bs.flatMap g, ?_, sortedBy_flatMap_of_perm key h ?_⟩
  · rw [mapM_id_eq_ok, List.map_flatMap]
    exact List.flatMap_congr fun b hb => hg b (h.mem_iff.2 hb)
  · refine hown.imp_of_mem fun {a b} ha hb hab x hx y hy => hab x y ?_ ?_
    · rw [hg a ha]
      exact List.mem_map_of_mem hx
    · rw [hg b hb]
      exact List.mem_map_of_mem hy

theorem both_sorted_mapM {ε : Type} (key : β → String) {f : α → List (Except ε β)} {as bs : List α}
    (h : as.Perm bs)
    (hown : as.Pairwise fun a b => ∀ x y, .ok x ∈ f a → .ok y ∈ f b → key x ≠ key y) :
    Both (fun xs ys => sortedBy key xs = sortedBy key ys) ((as.flatMap f).mapM id)
      ((bs.flatMap f).mapM id) := by
  have hown' := h.pairwise hown fun hab x y hx hy heq => hab y x hy hx heq.symm
  cases hleft : (as.flatMap f).mapM id with
  | ok xs =>
    obtain ⟨ys, hys, hsame⟩ := sorted_mapM_of_perm key h hown hleft
    rw [hys]
    exact .ok hsame
  | error e =>
    cases hright : (bs.flatMap f).mapM id with
    | ok ys =>
      obtain ⟨xs, hxs, -⟩ := sorted_mapM_of_perm key h.symm hown' hright
      rw [hleft] at hxs
      cases hxs
    | error e' => exact .error e e'

end

/-! ## References into reordered paths -/

/-- The members of a document with its paths listed in another way. -/
def withPaths (document items : Members) : Members := Members.put document "paths" (.obj items)

namespace Members

theorem get?_of_perm {ms ns : Members} (h : ms.Perm ns) (hnodup : (meanings ms).Nodup) (k : Key) :
    get? ms k = get? ns k := by
  have hsome {ms : Members} (hnodup : (meanings ms).Nodup) (v : Json) :
      get? ms k = some v ↔ ∃ m ∈ ms, m.1.meaning = k.meaning ∧ m.2 = v := by
    refine ⟨mem_of_get?, ?_⟩
    rintro ⟨m, hm, hmeaning, rfl⟩
    rw [← get?_congr hmeaning, get?_of_mem hnodup hm]
  refine Option.ext fun v => ?_
  rw [hsome hnodup, hsome ((h.map _).nodup_iff.1 hnodup)]
  simp only [h.mem_iff]

end Members

section
variable {document items items' : Members}

theorem mem_references_of_perm {ms ns : Members} (h : ms.Perm ns) {ref : String} :
    ref ∈ references (.obj ms) ↔ ref ∈ references (.obj ns) := by
  simp only [mem_references_obj, h.mem_iff]

theorem mem_references_withPaths (hpaths : get? document "paths" = some (.obj items))
    (hperm : items.Perm items') {ref : String} :
    ref ∈ references (.obj (withPaths document items')) ↔ ref ∈ references (.obj document) := by
  induction document with
  | nil => cases hpaths
  | cons m rest ih =>
    obtain ⟨k, v⟩ := m
    simp only [withPaths, Members.put, get?] at hpaths ⊢
    by_cases hk : k.meaning = (Key.text "paths").meaning
    · rw [if_pos hk] at hpaths
      cases hpaths
      simp only [if_pos hk, references, referencesOfMembers, List.mem_append]
      have hitems : ref ∈ references (.obj items) ↔ ref ∈ references (.obj items') :=
        mem_references_of_perm hperm
      simp only [references] at hitems
      rw [hitems]
      rfl
    · rw [if_neg hk] at hpaths
      have := ih hpaths
      simp only [references, withPaths] at this
      simp only [if_neg hk, references, referencesOfMembers, List.mem_append, this]

theorem ne_nil_of_steps {ref : List Char} {names : List (List Char)}
    (h : Pointer.steps? ref = some names) : names ≠ [] := by
  unfold Pointer.steps? at h
  split at h
  · rename_i path
    cases h
    exact List.map_eq_nil_iff.not.2 (Text.parts_ne_nil '/' path)
  · cases h

/-- Only one reference leads to the paths as a whole. -/
theorem eq_of_steps_paths {ref : String} {name : List Char}
    (h : Pointer.steps? ref.toList = some [name]) (hname : name = "paths".toList) : ref = "#/paths" := by
  subst hname
  unfold Pointer.steps? at h
  split at h
  · rename_i path hpath
    obtain ⟨part, hpart, hunescape⟩ : ∃ part, Text.parts '/' path = [part] ∧
        Pointer.unescape part = "paths".toList := by
      simpa [List.map_eq_singleton_iff] using h
    have hplain : part = "paths".toList := by
      rw [← hunescape]
      exact (unescape_of_plain (by rw [hunescape]; decide) (by rw [hunescape]; decide)).symm
    have hwhole := Text.intercalate_parts '/' path
    rw [hpart, hplain] at hwhole
    rw [← String.ofList_toList (s := ref), hpath, ← hwhole]
    rfl
  · cases h

/-- Steps that lead into the paths lead to the same place in any order of them. -/
theorem walk_reordered (hpaths : get? document "paths" = some (.obj items))
    (hperm : items.Perm items') (hnodup : (meanings items).Nodup) (ref : Json)
    {name : List Char} {names : List (List Char)} (hdeeper : names = [] → name ≠ "paths".toList) :
    Pointer.walk ref (.obj (withPaths document items')) (name :: names) =
      Pointer.walk ref (.obj document) (name :: names) := by
  have hget := get?_put document "paths" (.text (String.ofList name)) (.obj items')
  simp only [Pointer.walk, List.foldlM_cons, Pointer.step, withPaths, hget]
  by_cases hname : name = "paths".toList
  · subst hname
    cases names with
    | nil => exact absurd rfl (hdeeper rfl)
    | cons next names =>
      rw [String.ofList_toList, if_pos rfl, hpaths]
      simp only [ok_bind, List.foldlM_cons, Pointer.step, get?_of_perm hperm hnodup]
  · have hother : ¬ (Key.text "paths").meaning = (Key.text (String.ofList name)).meaning := by
      intro h
      rw [Key.Meaning.text.inj h, String.toList_ofList] at hname
      exact hname rfl
    rw [if_neg hother]

/-- A reference that does not lead to the paths as a whole has the same target in any order of them. -/
theorem target_reordered (hpaths : get? document "paths" = some (.obj items))
    (hperm : items.Perm items') (hnodup : (meanings items).Nodup) {ref : String}
    (href : ref ≠ "#/paths") :
    Pointer.target (withPaths document items') (.str ref) = Pointer.target document (.str ref) := by
  cases hsteps : Pointer.steps? ref.toList with
  | none => simp only [Pointer.target, hsteps]
  | some names =>
    rw [target_eq_of_steps hsteps, target_eq_of_steps hsteps]
    cases names with
    | nil => exact absurd rfl (ne_nil_of_steps hsteps)
    | cons name names =>
      rw [walk_reordered hpaths hperm hnodup]
      rintro rfl hname
      exact href (eq_of_steps_paths hsteps hname)

/-- The two documents agree on every reference in them, if none leads to the paths as a whole. -/
theorem agreement_reordered (hpaths : get? document "paths" = some (.obj items))
    (hperm : items.Perm items') (hnodup : (meanings items).Nodup)
    (hnone : "#/paths" ∉ references (.obj document)) :
    Agreement False (· ∈ references (.obj document)) document (withPaths document items') where
  target ref href := by
    rw [target_reordered hpaths hperm hnodup (ne_of_mem_of_not_mem href hnone)]
    exact .refl (fun start => alike_obj_obj.1 (alike_refl _ (.obj start))) _
  closed ref start _ hstart ref' href' :=
    (hereditary_references _).target (List.Subset.refl _) hstart href'
  written ref _ := (mem_references_withPaths hpaths hperm).symm

/-! ## Reordered paths -/

theorem members_paths (hpaths : get? document "paths" = some (.obj items)) :
    (Document.paths document).members = .ok items := by
  unfold Document.paths Members.get
  rw [hpaths]
  cases items <;> rfl

/-- The full path of a path in a document. -/
def IsFullPath (basePath : String) (path : Key) (full : String) : Prop :=
  ∃ part, Method.pathPart path.toJson = .ok part ∧ full = Url.join ["/", basePath, part]

theorem isFullPath_of_pathItem {s : Setting} {basePath : String} {path : Key} {item : Json}
    {built : BuiltMethod} (h : .ok built ∈ Method.ofPathItem s basePath path item) :
    IsFullPath basePath path built.method.path := by
  obtain ⟨members, verb, operation, -, -, -, -, hbuilt⟩ := exists_operation_of_pathItem h
  unfold Method.ofOperation at hbuilt
  simp only [bind_eq_ok, pure_eq, Except.ok.injEq] at hbuilt
  obtain ⟨name, -, shared, -, listed, -, params, -, chosen, -, response, -, part, hpart, rfl⟩ := hbuilt
  exact ⟨part, hpart, rfl⟩

/-- The paths have full paths of their own. -/
def HasOwnPaths (basePath : String) (items : Members) : Prop :=
  items.Pairwise fun a b => ∀ full, IsFullPath basePath a.1 full → ¬ IsFullPath basePath b.1 full

theorem nodup_meanings_paths {document : Document}
    (hpaths : get? document "paths" = some (.obj items)) : (meanings items).Nodup :=
  (Json.wellFormed_obj.1 (get?_wellFormed document.wellFormed hpaths)).1

theorem wellFormed_withPaths {document : Document}
    (hpaths : get? document "paths" = some (.obj items)) (hperm : items.Perm items') :
    (Json.obj (withPaths document items')).WellFormed := by
  obtain ⟨hnodup, hvalues⟩ := Json.wellFormed_obj.1 (get?_wellFormed document.wellFormed hpaths)
  have hitems : (Json.obj items').WellFormed :=
    Json.wellFormed_obj.2 ⟨(hperm.map _).nodup_iff.1 hnodup, fun m hm => hvalues m (hperm.mem_iff.2 hm)⟩
  exact Json.wellFormed_put document.wellFormed hitems "paths"

/-- A document with its paths in another order. -/
def Document.reordered (document : Document) (hpaths : get? document "paths" = some (.obj items))
    (hperm : items.Perm items') : Document :=
  ⟨withPaths document items', wellFormed_withPaths hpaths hperm⟩

/-- A path gives the same methods in two documents that agree on the references in it. -/
theorem forall₂_ofPathItem_of_agreement {types : TypeTable} {document document' : Document}
    {Known : String → Prop} (hagree : Agreement False Known document document') (basePath : String)
    (path : Key) {item : Json} (hitem : ∀ ref ∈ references item, Known ref) :
    List.Forall₂ (Both Eq) (Method.ofPathItem ⟨document, types⟩ basePath path item)
      (Method.ofPathItem ⟨document', types⟩ basePath path item) := by
  have hequal : ∀ v w, Alike False .description v w → id v = id w :=
    fun _ _ h => alike_false_iff.1 h
  have hnames : @Correspondence.Names False ⟨document, types⟩ ⟨document', types⟩
      (restating id hequal types) fun _ => True :=
    ⟨fun _ _ => trivial, fun _ _ _ => .refl (fun _ => rfl) _⟩
  have hmethods : List.Forall₂ _
      (Method.ofPathItem ⟨document, types⟩ basePath path item)
      (Method.ofPathItem ⟨document', types⟩ basePath path item) :=
    forall₂_ofPathItem hnames hagree ⟨alike_refl _ item, hitem⟩ fun _ _ _ _ _ _ _ _ _ => trivial
  refine hmethods.imp fun x y hxy => hxy.mono fun b b' hb => ?_
  have hsame := redescribe_of_sameBuilt id hequal hb
  rwa [b.redescribe_id, b'.redescribe_id] at hsame

/-- The methods of a document do not depend on the order of its paths. -/
theorem both_buildAll_reordered {document : Document} (types : TypeTable)
    (hpaths : get? document "paths" = some (.obj items)) (hperm : items.Perm items')
    (hnone : "#/paths" ∉ references (.obj document)) {basePath : String}
    (hown : HasOwnPaths basePath items) :
    Both Eq (Method.buildAll ⟨document, types⟩ basePath)
      (Method.buildAll ⟨document.reordered hpaths hperm, types⟩ basePath) := by
  have hagree := agreement_reordered hpaths hperm (nodup_meanings_paths hpaths) hnone
  have hpaths' : get? (document.reordered hpaths hperm) "paths" = some (.obj items') :=
    get?_put_self document "paths" (.obj items')
  have hblocks : List.Forall₂ (Both Eq)
      (items'.flatMap fun item => Method.ofPathItem ⟨document, types⟩ basePath item.1 item.2)
      (items'.flatMap fun item =>
        Method.ofPathItem ⟨document.reordered hpaths hperm, types⟩ basePath item.1 item.2) := by
    refine List.rel_flatMap (R := fun item item' => item = item' ∧ item ∈ items')
      (List.forall₂_same.2 fun item hitem => ⟨rfl, hitem⟩) ?_
    rintro item _ ⟨rfl, hitem⟩
    refine forall₂_ofPathItem_of_agreement hagree basePath item.1 fun ref href => ?_
    have hmem : ref ∈ references (.obj items) :=
      mem_references_obj.2 ⟨item, hperm.mem_iff.2 hitem, .inr href⟩
    exact mem_references_of_get? hpaths hmem
  have hsame : Both Eq _ _ := (both_mapM hblocks).mono fun _ _ h => List.forall₂_eq_eq_eq ▸ h
  have hsorted := both_sorted_mapM (fun b : BuiltMethod => b.method.path) hperm
    (f := fun item => Method.ofPathItem ⟨document, types⟩ basePath item.1 item.2)
    (hown.imp fun {a b} hab x y hx hy hkey =>
      hab _ (isFullPath_of_pathItem hx) (hkey ▸ isFullPath_of_pathItem hy))
  unfold Method.buildAll Method.attempts
  rw [members_paths hpaths, members_paths hpaths']
  exact (hsorted.trans_eq hsame).bind fun _ _ _ _ h => .ok h

/-- The order of the paths does not matter: if the paths of a document have full paths of their own
and no reference leads to the paths as a whole, then the API is the same in any order of them, or
there is none in any. -/
theorem build_eq_of_reordered {document : Document} (types : TypeTable)
    (hpaths : get? document "paths" = some (.obj items)) (hperm : items.Perm items')
    (hnone : "#/paths" ∉ references (.obj document)) {name basePath : String}
    (hown : ∀ base, Assembly.fullBasePath document basePath = .ok base → HasOwnPaths base items) :
    Both Eq (ApiModel.build types document name basePath)
      (ApiModel.build types (document.reordered hpaths hperm) name basePath) := by
  have hbase : Document.basePath (document.reordered hpaths hperm) = Document.basePath document := by
    unfold Document.basePath Members.get Document.reordered withPaths
    rw [get?_put_of_ne (by decide)]
  have hfull : Assembly.fullBasePath (document.reordered hpaths hperm) basePath =
      Assembly.fullBasePath document basePath := by
    unfold Assembly.fullBasePath
    rw [hbase]
  unfold ApiModel.build
  rw [hfull]
  refine Both.bind_same fun base hbase => ?_
  refine (both_buildAll_reordered types hpaths hperm hnone (hown base hbase)).bind ?_
  rintro methods _ - - rfl
  exact .refl (fun _ => rfl) _

end

/-! ## Two paths in either order -/

def housePaths : Members :=
  [("/cats", .obj [("get", .obj listCats), ("delete", .obj [("operationId", .str "freeCats")])]),
    ("/pets", .obj [("post", .obj [("responses", .obj [("201", .obj [("schema", petRef)])])])])]

/-- A document with two paths that share their models. -/
def houseDocument : Document where
  members :=
    [("basePath", .str "/house"), ("paths", .obj housePaths),
      ("definitions", .obj [("Pet", .obj petMembers), ("Cat", .obj catMembers)])]

def reversedDocument : Document where
  members :=
    [("basePath", .str "/house"), ("paths", .obj housePaths.reverse),
      ("definitions", .obj [("Pet", .obj petMembers), ("Cat", .obj catMembers)])]

theorem fullBasePath_house : Assembly.fullBasePath houseDocument "" = .ok "/house" := by
  rfl

theorem hasOwnPaths_house : HasOwnPaths "/house" housePaths := by
  refine List.pairwise_pair.2 ?_
  rintro full ⟨part, hpart, rfl⟩ ⟨part', hpart', hsame⟩
  cases hpart
  cases hpart'
  exact absurd hsame (by decide +kernel)

theorem build_house : ∃ api, ApiModel.build Language.swiftTypes houseDocument "House" "" = .ok api := by
  obtain ⟨api, hapi, -⟩ := exists_build_of_sorted (s := ⟨houseDocument, Language.swiftTypes⟩) "House"
    (fun _ => true) fullBasePath_house (by decide +kernel)
  exact ⟨api, hapi⟩

theorem build_eq_house : ∃ api,
    ApiModel.build Language.swiftTypes houseDocument "House" "" = .ok api ∧
    ApiModel.build Language.swiftTypes reversedDocument "House" "" = .ok api := by
  have hnone : "#/paths" ∉ references (.obj houseDocument) := by
    decide +kernel
  have hown : ∀ base, Assembly.fullBasePath houseDocument "" = .ok base →
      HasOwnPaths base housePaths := by
    intro base hbase
    cases fullBasePath_house.symm.trans hbase
    exact hasOwnPaths_house
  obtain ⟨api, hbuild⟩ := build_house
  have hboth : Both Eq (ApiModel.build Language.swiftTypes houseDocument "House" "")
      (ApiModel.build Language.swiftTypes reversedDocument "House" "") :=
    build_eq_of_reordered Language.swiftTypes (by rfl) (List.reverse_perm housePaths).symm hnone hown
  obtain ⟨api', hbuild', rfl⟩ := hboth.exists_left hbuild
  exact ⟨api, hbuild, hbuild'⟩

end ClientForge
