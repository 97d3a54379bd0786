-- SUMMARY: What resolving a schema expands to, and exactly when resolving gives a result.
import Mathlib.Logic.Relation
import ClientForge.Proofs.Schema.Contribution
import ClientForge.Schema.Steps

/-!
# Expansion

Resolving a schema goes on to the target of its reference and to the branches that it is
composed of, and from there further (`Expands`). Nothing else counts: the merge that is
resolved in place of a target leads where the target leads (`sameLead_merged`). So what
resolving needs can be said of the expansion alone (`resolve_ok_iff`): that all that it comes
to can be resolved, and that no reference is met again below a schema that follows it. A
reference that leads back to itself is met again from its target, but a reference can also be
met again from a branch beside it, and then it is refused although it leads nowhere near
itself (`refused_beside_itself`). Where all can be resolved there is no other refusal
(`flatten_ok_iff`).
-/

namespace ClientForge

namespace Schema

open Members Outcome

/-! ## Sites -/

/-- A value to resolve and the mode to resolve it in. -/
structure Site where
  mode : Mode
  value : Json

/-- The value of a composition, if it is not false, is a list of branches. -/
def Mode.ListsBranches (m : Mode) (ms : Members) : Prop :=
  m.allOf = true → (Members.get ms allOfKey).truthy = true →
    ∃ items, Members.get ms allOfKey = .arr items

namespace Site

/-- Resolving the site follows a reference. -/
def Follows (ignored : Json) (n : Site) (ref : Json) : Prop :=
  ∃ ms, n.value = .obj ms ∧ n.mode.ref? ignored ms = some ref

/-- What a reference of the site points at. -/
def Target (document : Members) (n : Site) (ref : Json) (t : Site) : Prop :=
  ∃ start, Pointer.target document ref = .ok start ∧ t = ⟨n.mode, .obj start⟩

/-- A branch that the site is composed of. -/
def Branch (n b : Site) : Prop :=
  ∃ ms v, n.value = .obj ms ∧ v ∈ n.mode.branches ms ∧ b = ⟨n.mode.ofBranches, v⟩

/-- The site is an object with a composition that can be read, and the reference that it
follows points at an object. -/
structure Sound (document : Members) (ignored : Json) (n : Site) : Prop where
  reads : ∃ ms, n.value = .obj ms ∧ n.mode.ListsBranches ms
  leads : ∀ ref, n.Follows ignored ref → ∃ start, Pointer.target document ref = .ok start

end Site

/-- From a site to those that resolving it goes on to. -/
inductive Expands (document : Members) (ignored : Json) (n : Site) : Site → Prop
  | target {ref : Json} {t : Site} (href : n.Follows ignored ref) (h : n.Target document ref t) :
    Expands document ignored n t
  | branch {b : Site} (h : n.Branch b) : Expands document ignored n b

/-- The sites that resolving a site comes to, itself included. -/
def ExpandsTo (document : Members) (ignored : Json) : Site → Site → Prop :=
  Relation.ReflTransGen (Expands document ignored)

/-- All that resolving the site comes to can be resolved, but for references met again. -/
def AllSound (document : Members) (ignored : Json) (n : Site) : Prop :=
  ∀ n', ExpandsTo document ignored n n' → n'.Sound document ignored

/-- Resolving the site comes to a reference that it follows. -/
def Meets (document : Members) (ignored : Json) (n : Site) (ref : Json) : Prop :=
  ∃ n', ExpandsTo document ignored n n' ∧ n'.Follows ignored ref

/-- No reference that resolving the site comes to is met again from its own target. -/
def Acyclic (document : Members) (ignored : Json) (n : Site) : Prop :=
  ∀ n' ref t, ExpandsTo document ignored n n' → n'.Follows ignored ref →
    n'.Target document ref t → ¬ Meets document ignored t ref

/-- No reference that resolving the site comes to is met again from a branch beside it. -/
def ClearBeside (document : Members) (ignored : Json) (n : Site) : Prop :=
  ∀ n' ref b, ExpandsTo document ignored n n' → n'.Follows ignored ref → n'.Branch b →
    ¬ Meets document ignored b ref

/-- Resolving the site comes to sound sites alone and to fresh references, and to none again
below a site that follows it. -/
structure Clear (document : Members) (ignored : Json) (fresh : List String) (n : Site) : Prop where
  sound : AllSound document ignored n
  fresh : ∀ ref, Meets document ignored n (.str ref) → ref ∈ fresh
  once : ∀ n' ref d, ExpandsTo document ignored n n' → n'.Follows ignored ref →
    Expands document ignored n' d → ¬ Meets document ignored d ref

section
variable {document : Members} {ignored : Json} {fresh : List String} {n d : Site} {m : Mode}

theorem Site.Follows.unique {ref ref' : Json} (h : n.Follows ignored ref)
    (h' : n.Follows ignored ref') : ref = ref' := by
  obtain ⟨ms, hms, href⟩ := h
  obtain ⟨ms', hms', href'⟩ := h'
  cases hms.symm.trans hms'
  exact Option.some.inj (href.symm.trans href')

theorem follows_obj_iff {ms : Members} {ref : Json} :
    (⟨m, .obj ms⟩ : Site).Follows ignored ref ↔ m.ref? ignored ms = some ref := by
  constructor
  · rintro ⟨ms', hms, href⟩
    cases hms
    exact href
  · exact fun href => ⟨ms, rfl, href⟩

theorem branch_obj_iff {ms : Members} :
    (⟨m, .obj ms⟩ : Site).Branch d ↔ ∃ v ∈ m.branches ms, d = ⟨m.ofBranches, v⟩ := by
  constructor
  · rintro ⟨ms', v, hms, hv, rfl⟩
    cases hms
    exact ⟨v, hv, rfl⟩
  · rintro ⟨v, hv, rfl⟩
    exact ⟨ms, v, rfl, hv, rfl⟩

theorem expands_obj_iff {ms : Members} :
    Expands document ignored ⟨m, .obj ms⟩ d ↔
      (∃ ref start, m.ref? ignored ms = some ref ∧ Pointer.target document ref = .ok start ∧
        d = ⟨m, .obj start⟩) ∨ ∃ v ∈ m.branches ms, d = ⟨m.ofBranches, v⟩ := by
  constructor
  · intro h
    cases h with
    | target href h =>
      obtain ⟨start, hstart, rfl⟩ := h
      exact .inl ⟨_, start, follows_obj_iff.1 href, hstart, rfl⟩
    | branch h => exact .inr (branch_obj_iff.1 h)
  · rintro (⟨ref, start, href, hstart, rfl⟩ | h)
    · exact .target (follows_obj_iff.2 href) ⟨start, hstart, rfl⟩
    · exact .branch (branch_obj_iff.2 h)

theorem sound_obj_iff {ms : Members} :
    (⟨m, .obj ms⟩ : Site).Sound document ignored ↔ m.ListsBranches ms ∧
      ∀ ref, m.ref? ignored ms = some ref → ∃ start, Pointer.target document ref = .ok start := by
  constructor
  · rintro ⟨⟨ms', hms, hlists⟩, hleads⟩
    cases hms
    exact ⟨hlists, fun ref href => hleads ref (follows_obj_iff.2 href)⟩
  · rintro ⟨hlists, hleads⟩
    exact ⟨⟨ms, rfl, hlists⟩, fun ref href => hleads ref (follows_obj_iff.1 href)⟩

/-! ## From site to site -/

theorem meets_iff {ref : Json} : Meets document ignored n ref ↔
    n.Follows ignored ref ∨ ∃ d, Expands document ignored n d ∧ Meets document ignored d ref := by
  constructor
  · rintro ⟨n', hn', href⟩
    rcases Relation.ReflTransGen.cases_head hn' with rfl | ⟨d, hd, hn'⟩
    · exact .inl href
    · exact .inr ⟨d, hd, n', hn', href⟩
  · rintro (href | ⟨d, hd, n', hn', href⟩)
    · exact ⟨n, .refl, href⟩
    · exact ⟨n', .head hd hn', href⟩

/-- A site is clear if it is itself and all that it expands to is. -/
theorem clear_iff : Clear document ignored fresh n ↔ n.Sound document ignored ∧
    (∀ ref, n.Follows ignored (.str ref) → ref ∈ fresh) ∧
    (∀ ref d, n.Follows ignored ref → Expands document ignored n d → ¬ Meets document ignored d ref) ∧
    ∀ d, Expands document ignored n d → Clear document ignored fresh d := by
  constructor
  · rintro ⟨hsound, hfresh, honce⟩
    refine ⟨hsound n .refl, fun ref href => hfresh ref ⟨n, .refl, href⟩, fun ref d => honce n ref d .refl,
      fun d hd => ⟨fun n' hn' => hsound n' (.head hd hn'), fun ref href => ?_, fun n' ref e hn' =>
        honce n' ref e (.head hd hn')⟩⟩
    exact hfresh ref (meets_iff.2 (.inr ⟨d, hd, href⟩))
  · rintro ⟨hsound, hfresh, honce, hclear⟩
    refine ⟨fun n' hn' => ?_, fun ref href => ?_, fun n' ref e hn' href he => ?_⟩
    · rcases Relation.ReflTransGen.cases_head hn' with rfl | ⟨d, hd, hn'⟩
      · exact hsound
      · exact (hclear d hd).sound n' hn'
    · rcases meets_iff.1 href with href | ⟨d, hd, href⟩
      · exact hfresh ref href
      · exact (hclear d hd).fresh ref href
    · rcases Relation.ReflTransGen.cases_head hn' with rfl | ⟨d, hd, hn'⟩
      · exact honce ref e href he
      · exact (hclear d hd).once n' ref e hn' href he

theorem allSound_iff : AllSound document ignored n ↔ n.Sound document ignored ∧
    ∀ d, Expands document ignored n d → AllSound document ignored d := by
  constructor
  · exact fun h => ⟨h n .refl, fun d hd n' hn' => h n' (.head hd hn')⟩
  · rintro ⟨hsound, hall⟩ n' hn'
    rcases Relation.ReflTransGen.cases_head hn' with rfl | ⟨d, hd, hn'⟩
    · exact hsound
    · exact hall d hd n' hn'

/-- What the members of an object say of how it is resolved. -/
structure SameLead (m : Mode) (a b : Members) : Prop where
  ref : get? a refKey = get? b refKey
  allOf : m.allOf = true → get? a allOfKey = get? b allOfKey

namespace SameLead

variable {a b : Members}

theorem ref?_eq (h : SameLead m a b) : m.ref? ignored a = m.ref? ignored b := by
  unfold Mode.ref? Members.get
  rw [h.ref]

theorem branches_eq (h : SameLead m a b) : m.branches a = m.branches b := by
  unfold Mode.branches Members.get
  split
  · rename_i hallOf
    rw [h.allOf hallOf]
  · rfl

theorem listsBranches_iff (h : SameLead m a b) : m.ListsBranches a ↔ m.ListsBranches b := by
  unfold Mode.ListsBranches Members.get
  by_cases hallOf : m.allOf = true
  · rw [h.allOf hallOf]
  · simp [hallOf]

theorem clear_iff (h : SameLead m a b) :
    Clear document ignored fresh ⟨m, .obj a⟩ ↔ Clear document ignored fresh ⟨m, .obj b⟩ := by
  simp only [Schema.clear_iff (n := ⟨m, .obj _⟩), sound_obj_iff, follows_obj_iff, expands_obj_iff,
    h.ref?_eq, h.branches_eq, h.listsBranches_iff]

theorem allSound_iff (h : SameLead m a b) :
    AllSound document ignored ⟨m, .obj a⟩ ↔ AllSound document ignored ⟨m, .obj b⟩ := by
  simp only [Schema.allSound_iff (n := ⟨m, .obj _⟩), sound_obj_iff, expands_obj_iff,
    h.ref?_eq, h.branches_eq, h.listsBranches_iff]

end SameLead

theorem Clear.mono {fresh' : List String} (h : Clear document ignored fresh n)
    (hsub : ∀ ref, Meets document ignored n (.str ref) → ref ∈ fresh → ref ∈ fresh') :
    Clear document ignored fresh' n :=
  ⟨h.sound, fun ref href => hsub ref href (h.fresh ref href), h.once⟩

/-- Without a reference to follow, a site is clear if its branches are. -/
theorem clear_of_ref?_none {ms : Members} (hnone : m.ref? ignored ms = none) :
    Clear document ignored fresh ⟨m, .obj ms⟩ ↔
      m.ListsBranches ms ∧ ∀ v ∈ m.branches ms, Clear document ignored fresh ⟨m.ofBranches, v⟩ := by
  rw [clear_iff, sound_obj_iff]
  simp only [follows_obj_iff, expands_obj_iff, hnone, reduceCtorEq, false_and, exists_false, false_or,
    false_implies, implies_true, and_true, true_and]
  refine and_congr_right fun _ => ⟨fun h v hv => h _ ⟨v, hv, rfl⟩, ?_⟩
  rintro h d ⟨v, hv, rfl⟩
  exact h v hv

/-- With a reference to follow, a site is clear if the reference is fresh and, with the reference
used up, its target and the branches are clear. -/
theorem clear_of_ref?_some {ms start : Members} {ref : String} (href : m.ref? ignored ms = some (.str ref))
    (hstart : Pointer.target document (.str ref) = .ok start) :
    Clear document ignored fresh ⟨m, .obj ms⟩ ↔ m.ListsBranches ms ∧ ref ∈ fresh ∧
      Clear document ignored (without fresh ref) ⟨m, .obj start⟩ ∧
      ∀ v ∈ m.branches ms, Clear document ignored (without fresh ref) ⟨m.ofBranches, v⟩ := by
  have hfollows : (⟨m, .obj ms⟩ : Site).Follows ignored (.str ref) := follows_obj_iff.2 href
  have hbelow : (∀ d, Expands document ignored ⟨m, .obj ms⟩ d →
      Clear document ignored (without fresh ref) d) ↔
      Clear document ignored (without fresh ref) ⟨m, .obj start⟩ ∧
        ∀ v ∈ m.branches ms, Clear document ignored (without fresh ref) ⟨m.ofBranches, v⟩ := by
    constructor
    · intro h
      exact ⟨h _ (expands_obj_iff.2 (.inl ⟨_, start, href, hstart, rfl⟩)),
        fun v hv => h _ (expands_obj_iff.2 (.inr ⟨v, hv, rfl⟩))⟩
    · rintro ⟨htarget, hbranches⟩ d hd
      rcases expands_obj_iff.1 hd with ⟨ref', start', href', hstart', rfl⟩ | ⟨v, hv, rfl⟩
      · cases href.symm.trans href'
        cases hstart.symm.trans hstart'
        exact htarget
      · exact hbranches v hv
  rw [← hbelow, clear_iff, sound_obj_iff]
  constructor
  · rintro ⟨⟨hlists, -⟩, hfresh, honce, hclear⟩
    refine ⟨hlists, hfresh ref hfollows, fun d hd => (hclear d hd).mono fun ref' href' hmem => ?_⟩
    refine List.mem_filter.2 ⟨hmem, ?_⟩
    rw [bne_iff_ne]
    rintro rfl
    exact honce _ d hfollows hd href'
  · rintro ⟨hlists, hmem, hclear⟩
    refine ⟨⟨hlists, fun ref' href' => ?_⟩, fun ref' href' => ?_, fun ref' d href' hd hmeets => ?_,
      fun d hd => (hclear d hd).mono fun ref' _ => List.mem_of_mem_filter⟩
    · cases href.symm.trans href'
      exact ⟨start, hstart⟩
    · cases hfollows.unique href'
      exact hmem
    · cases hfollows.unique href'
      have hused := (List.mem_filter.1 ((hclear d hd).fresh ref hmeets)).2
      simp at hused

end

/-! ## One resolution -/

section
variable {document : Members} {ignored : Json} {follow : Follow} {fresh : List String} {m : Mode}

theorem noBranches_ok_iff {v : Json} : (∃ parts, noBranches v = .ok parts) ↔ v.truthy = false := by
  unfold noBranches
  cases h : v.truthy with
  | false => simp
  | true => cases v <;> simp

/-- A followed reference is fresh and points at an object, and what it leads to resolves. -/
theorem resolveBy_ok_of_ref?_some {ms : Members} {ref : Json} (href : m.ref? ignored ms = some ref) :
    (∃ r, resolveBy document ignored follow m fresh (.obj ms) = .ok r) ↔
      ∃ s start parts r, ref = .str s ∧ s ∈ fresh ∧ Pointer.target document ref = .ok start ∧
        branchParts document ignored follow m (without fresh s) ms = .ok parts ∧
        follow m (without fresh s) (.obj (mergeAll (start :: parts ++ [m.own ms]))) = .ok r := by
  simp only [resolveBy, href]
  constructor
  · rintro ⟨r, h⟩
    obtain ⟨k, hk, h⟩ := bind_eq_ok.1 h
    have hkey : k = ref := by
      unfold Json.key at hk
      split at hk <;> simp_all
    subst hkey
    cases k with
    | str s =>
      simp only at h
      split at h
      · rename_i hs
        obtain ⟨start, hstart, h⟩ := bind_eq_ok.1 h
        obtain ⟨parts, hparts, h⟩ := bind_eq_ok.1 h
        exact ⟨s, start, parts, r, rfl, hs, hstart, hparts, h⟩
      · cases h
    | _ => cases h
  · rintro ⟨s, start, parts, r, rfl, hs, hstart, hparts, h⟩
    refine ⟨r, ?_⟩
    have hkey : (Json.str s).key = .ok (.str s) := rfl
    simp only [hkey, ok_bind, if_pos hs, hstart, hparts, h]

/-- The merge that a reference leads to leads where the target of the reference does. -/
theorem sameLead_merged {document : Document} {ms start : Members} {parts : List Members} {ref : Json}
    (href : m.ref? ignored ms = some ref) (hstart : Pointer.target document ref = .ok start)
    (hparts : Branching IsResolved m ms parts) :
    SameLead m (mergeAll (start :: parts ++ [m.own ms])) start := by
  have hnodup := (Json.wellFormed_obj.1 (wellFormed_target hstart)).1
  have hlost : ∀ k, m.keeps k = false → m.ofBranches.keeps k = false →
      get? (mergeAll (start :: parts ++ [m.own ms])) k = get? start k := by
    intro k hk hk'
    apply get?_mergeAll_cons hnodup
    intro p hp
    rcases List.mem_append.1 hp with hp | hp
    · rw [← own_of_branching hparts p hp]
      exact Mode.not_mem_meanings_own hk' p
    · rw [List.mem_singleton.1 hp]
      exact Mode.not_mem_meanings_own hk ms
  have hrefs := (Mode.ref?_eq_some.1 href).1
  refine ⟨hlost refKey ?_ ?_, fun hallOf => hlost allOfKey ?_ ?_⟩
  · simp [Mode.keeps, hrefs]
  · simp [Mode.keeps, Mode.ofBranches]
  · simp [Mode.keeps, hallOf]
  · simp [Mode.keeps, Mode.ofBranches, hallOf]

/-- Going on from a reference gives a result exactly if where it goes on is clear, as long as
fewer than `n` references are fresh. -/
def FollowsClear (document : Members) (ignored : Json) (follow : Follow) (n : Nat) : Prop :=
  ∀ m fresh v, fresh.length < n →
    ((∃ r, follow m fresh v = .ok r) ↔ Clear document ignored fresh ⟨m, v⟩)

mutual

theorem resolveBy_ok_iff {document : Document} (hresolved : Holds IsResolved follow) (m : Mode)
    (fresh : List String) (hfollow : FollowsClear document ignored follow fresh.length) (v : Json) :
    (∃ r, resolveBy document ignored follow m fresh v = .ok r) ↔
      Clear document ignored fresh ⟨m, v⟩ := by
  match v with
  | .obj ms =>
    cases href : m.ref? ignored ms with
    | none =>
      rw [clear_of_ref?_none href, ← branchParts_ok_iff hresolved m fresh hfollow ms]
      simp only [resolveBy, href, bind_eq_ok, pure_eq, Except.ok.injEq]
      exact ⟨fun ⟨_, parts, h, _⟩ => ⟨parts, h⟩, fun ⟨parts, h⟩ => ⟨_, parts, h, rfl⟩⟩
    | some ref =>
      rw [resolveBy_ok_of_ref?_some href]
      constructor
      · rintro ⟨s, start, parts, r, rfl, hs, hstart, hparts, hr⟩
        have hlt := length_without_lt hs
        have hresolvedParts := branchParts_holds isResolved_plain isResolved_through hresolved m _ ms
          parts hparts
        have hbranches := (branchParts_ok_iff hresolved m _
          (fun m' fresh' v hv => hfollow m' fresh' v (Nat.lt_trans hv hlt)) ms).1 ⟨parts, hparts⟩
        have hmerged := (hfollow m _ _ hlt).1 ⟨r, hr⟩
        rw [(sameLead_merged href hstart hresolvedParts).clear_iff] at hmerged
        exact (clear_of_ref?_some href hstart).2 ⟨hbranches.1, hs, hmerged, hbranches.2⟩
      · intro hclear
        obtain ⟨start, hstart⟩ := (hclear.sound _ .refl).leads ref (follows_obj_iff.2 href)
        cases ref with
        | str s =>
          obtain ⟨hlists, hs, htarget, hbranches⟩ := (clear_of_ref?_some href hstart).1 hclear
          have hlt := length_without_lt hs
          obtain ⟨parts, hparts⟩ := (branchParts_ok_iff hresolved m _
            (fun m' fresh' v hv => hfollow m' fresh' v (Nat.lt_trans hv hlt)) ms).2 ⟨hlists, hbranches⟩
          have hresolvedParts := branchParts_holds isResolved_plain isResolved_through hresolved m _
            ms parts hparts
          rw [← (sameLead_merged href hstart hresolvedParts).clear_iff, ← hfollow m _ _ hlt] at htarget
          obtain ⟨r, hr⟩ := htarget
          exact ⟨s, start, parts, r, rfl, hs, hstart, hparts, hr⟩
        | _ => cases hstart
  | .null => exact ⟨nofun, fun h => by simpa using (h.sound _ .refl).reads⟩
  | .bool _ => exact ⟨nofun, fun h => by simpa using (h.sound _ .refl).reads⟩
  | .int _ => exact ⟨nofun, fun h => by simpa using (h.sound _ .refl).reads⟩
  | .float _ => exact ⟨nofun, fun h => by simpa using (h.sound _ .refl).reads⟩
  | .str _ => exact ⟨nofun, fun h => by simpa using (h.sound _ .refl).reads⟩
  | .arr _ => exact ⟨nofun, fun h => by simpa using (h.sound _ .refl).reads⟩

theorem branchParts_ok_iff {document : Document} (hresolved : Holds IsResolved follow) (m : Mode)
    (fresh : List String) (hfollow : FollowsClear document ignored follow fresh.length)
    (ms : List (Key × Json)) :
    (∃ parts, branchParts document ignored follow m fresh ms = .ok parts) ↔
      m.ListsBranches ms ∧ ∀ v ∈ m.branches ms, Clear document ignored fresh ⟨m.ofBranches, v⟩ := by
  match ms with
  | [] => simp [branchParts, Mode.ListsBranches, Mode.branches, Members.get, get?, Json.truthy]
  | (k, v) :: rest =>
    by_cases hkey : m.allOf = true ∧ k = allOfKey
    · obtain ⟨hallOf, rfl⟩ := hkey
      have hhere := resolveBranches_ok_iff hresolved m fresh hfollow v
      have hget : get? ((allOfKey, v) :: rest) allOfKey = some v := if_pos rfl
      simp only [branchParts, Mode.ListsBranches, Mode.mem_branches, Members.get, hallOf, hget]
      simpa using hhere
    · have hrest := branchParts_ok_iff hresolved m fresh hfollow rest
      simp only [branchParts, Mode.ListsBranches, Mode.mem_branches, Members.get] at hrest ⊢
      by_cases hallOf : m.allOf = true
      · have hne : k.meaning ≠ allOfKey.meaning := fun e =>
          hkey ⟨hallOf, Key.meaning_eq_text_iff.1 e⟩
        have hget : get? ((k, v) :: rest) allOfKey = get? rest allOfKey := if_neg hne
        have hk : k ≠ allOfKey := fun e => hkey ⟨hallOf, e⟩
        simpa [hallOf, hget, hk] using hrest
      · simpa [hallOf] using hrest

theorem resolveBranches_ok_iff {document : Document} (hresolved : Holds IsResolved follow)
    (m : Mode) (fresh : List String) (hfollow : FollowsClear document ignored follow fresh.length)
    (v : Json) : (∃ parts, resolveBranches document ignored follow m fresh v = .ok parts) ↔
      (v.truthy = true → ∃ items, v = .arr items) ∧
      ∀ b items, v = .arr items → b ∈ items → Clear document ignored fresh ⟨m.ofBranches, b⟩ := by
  match v with
  | .arr items =>
    simpa [resolveBranches] using resolveEach_ok_iff hresolved m.ofBranches fresh hfollow items
  | .null => simpa [resolveBranches] using noBranches_ok_iff
  | .bool _ => simpa [resolveBranches] using noBranches_ok_iff
  | .int _ => simpa [resolveBranches] using noBranches_ok_iff
  | .float _ => simpa [resolveBranches] using noBranches_ok_iff
  | .str _ => simpa [resolveBranches] using noBranches_ok_iff
  | .obj _ => simpa [resolveBranches] using noBranches_ok_iff

theorem resolveEach_ok_iff {document : Document} (hresolved : Holds IsResolved follow) (m : Mode)
    (fresh : List String) (hfollow : FollowsClear document ignored follow fresh.length)
    (vs : List Json) : (∃ parts, resolveEach document ignored follow m fresh vs = .ok parts) ↔
      ∀ v ∈ vs, Clear document ignored fresh ⟨m, v⟩ := by
  match vs with
  | [] => simp [resolveEach]
  | v :: rest =>
    rw [List.forall_mem_cons, ← resolveBy_ok_iff hresolved m fresh hfollow v,
      ← resolveEach_ok_iff hresolved m fresh hfollow rest]
    simp only [resolveEach, bind_eq_ok, pure_eq, Except.ok.injEq]
    constructor
    · rintro ⟨_, p, hp, ps, hps, -⟩
      exact ⟨⟨p, hp⟩, ps, hps⟩
    · rintro ⟨⟨p, hp⟩, ps, hps⟩
      exact ⟨_, p, hp, ps, hps, rfl⟩

end

/-- With as many steps as fresh references, resolving gives a result exactly for clear sites. -/
theorem resolveWith_ok_iff {document : Document} (steps : Nat) :
    FollowsClear document ignored (resolveWith document ignored steps) (steps + 1) := by
  induction steps with
  | zero =>
    intro m fresh v hle
    have hnothing : Holds IsResolved fun _ _ _ => .error .tooDeep := fun _ _ _ _ h => nomatch h
    exact resolveBy_ok_iff hnothing m fresh (fun _ _ _ hlt => by omega) v
  | succ steps ih =>
    intro m fresh v hle
    have hresolved := isResolved_resolveWith document ignored steps
    exact resolveBy_ok_iff hresolved m fresh (fun m' fresh' v' hlt => ih m' fresh' v' (by omega)) v

/-! ## Refusals -/

/-- If a computation fails, it is because of a reference that it takes to be circular. -/
def OnlyCircular {α : Type} (x : Except Failure α) : Prop :=
  ∀ e, x = .error e → ∃ ref schema, e = .reference .circular ref schema

theorem onlyCircular_ok {α : Type} (a : α) : OnlyCircular (.ok a) := nofun

theorem OnlyCircular.bind {α β : Type} {x : Except Failure α} {f : α → Except Failure β}
    (hx : OnlyCircular x) (hf : ∀ a, x = .ok a → OnlyCircular (f a)) : OnlyCircular (x >>= f) := by
  cases x with
  | error e =>
    intro e' he'
    cases he'
    exact hx e rfl
  | ok a => exact hf a rfl

/-- Going on from a reference is refused for a circular one alone if all that it comes to is sound,
as long as fewer than `n` references are fresh. -/
def FollowsSound (document : Members) (ignored : Json) (follow : Follow) (n : Nat) : Prop :=
  ∀ m fresh v, fresh.length < n → AllSound document ignored ⟨m, v⟩ → OnlyCircular (follow m fresh v)

mutual

theorem onlyCircular_resolveBy {document : Document} (hresolved : Holds IsResolved follow)
    (m : Mode) (fresh : List String) (hfollow : FollowsSound document ignored follow fresh.length)
    (v : Json) (hsound : AllSound document ignored ⟨m, v⟩) :
    OnlyCircular (resolveBy document ignored follow m fresh v) := by
  match v with
  | .obj ms =>
    obtain ⟨hhere, hbelow⟩ := allSound_iff.1 hsound
    obtain ⟨hlists, hleads⟩ := sound_obj_iff.1 hhere
    have hbranches : ∀ b ∈ m.branches ms, AllSound document ignored ⟨m.ofBranches, b⟩ :=
      fun b hb => hbelow _ (expands_obj_iff.2 (.inr ⟨b, hb, rfl⟩))
    simp only [resolveBy]
    split
    · refine (onlyCircular_branchParts hresolved m fresh hfollow ms hlists hbranches).bind ?_
      exact fun parts _ => onlyCircular_ok _
    · rename_i ref href
      obtain ⟨start, hstart⟩ := hleads ref href
      cases ref with
      | str s =>
        have hkey : (Json.str s).key = .ok (.str s) := rfl
        simp only [hkey, ok_bind, hstart]
        split
        · rename_i hs
          have hlt := length_without_lt hs
          refine (onlyCircular_branchParts hresolved m _
            (fun m' fresh' v hv => hfollow m' fresh' v (Nat.lt_trans hv hlt)) ms hlists hbranches).bind
            fun parts hparts => ?_
          have hlead := sameLead_merged href hstart (branchParts_holds isResolved_plain
            isResolved_through hresolved m _ ms parts hparts)
          refine hfollow m _ _ hlt (hlead.allSound_iff.2 (hbelow _ ?_))
          exact expands_obj_iff.2 (.inl ⟨_, start, href, hstart, rfl⟩)
        · rintro e ⟨⟩
          exact ⟨_, _, rfl⟩
      | _ => cases hstart
  | .null => simpa using (hsound _ .refl).reads
  | .bool _ => simpa using (hsound _ .refl).reads
  | .int _ => simpa using (hsound _ .refl).reads
  | .float _ => simpa using (hsound _ .refl).reads
  | .str _ => simpa using (hsound _ .refl).reads
  | .arr _ => simpa using (hsound _ .refl).reads

theorem onlyCircular_branchParts {document : Document} (hresolved : Holds IsResolved follow)
    (m : Mode) (fresh : List String) (hfollow : FollowsSound document ignored follow fresh.length)
    (ms : List (Key × Json)) (hlists : m.ListsBranches ms)
    (hbranches : ∀ b ∈ m.branches ms, AllSound document ignored ⟨m.ofBranches, b⟩) :
    OnlyCircular (branchParts document ignored follow m fresh ms) := by
  match ms with
  | [] => exact onlyCircular_ok _
  | (k, v) :: rest =>
    unfold branchParts
    split
    · rename_i hkey
      simp only [Bool.and_eq_true, beq_iff_eq] at hkey
      obtain ⟨hallOf, rfl⟩ := hkey
      have hget : get? ((allOfKey, v) :: rest) allOfKey = some v := if_pos rfl
      simp only [Mode.ListsBranches, Members.get, hget, hallOf, Option.getD_some] at hlists
      refine onlyCircular_resolveBranches hresolved m fresh hfollow v (hlists trivial) ?_
      exact fun b items hv hb => hbranches b (Mode.mem_branches.2 ⟨hallOf, items, hv ▸ hget, hb⟩)
    · rename_i hkey
      have hget : m.allOf = true → get? ((k, v) :: rest) allOfKey = get? rest allOfKey := by
        intro hallOf
        refine if_neg fun e => hkey ?_
        simp [hallOf, Key.meaning_eq_text_iff.1 e, allOfKey]
      refine onlyCircular_branchParts hresolved m fresh hfollow rest ?_ ?_
      · intro hallOf
        unfold Members.get
        rw [← hget hallOf]
        exact hlists hallOf
      · intro b hb
        obtain ⟨hallOf, items, hitems, hb⟩ := Mode.mem_branches.1 hb
        exact hbranches b (Mode.mem_branches.2 ⟨hallOf, items, (hget hallOf).trans hitems, hb⟩)

theorem onlyCircular_resolveBranches {document : Document}
    (hresolved : Holds IsResolved follow) (m : Mode) (fresh : List String)
    (hfollow : FollowsSound document ignored follow fresh.length) (v : Json)
    (hlists : v.truthy = true → ∃ items, v = .arr items)
    (hbranches : ∀ b items, v = .arr items → b ∈ items →
      AllSound document ignored ⟨m.ofBranches, b⟩) :
    OnlyCircular (resolveBranches document ignored follow m fresh v) := by
  have hnone : ∀ {v : Json}, (v.truthy = true → ∃ items, v = .arr items) →
      (∀ items, v ≠ .arr items) → OnlyCircular (noBranches v) := by
    intro v hlists hne
    have hfalse : v.truthy = false :=
      Bool.eq_false_iff.2 fun h => (hlists h).elim hne
    simp [noBranches, hfalse, onlyCircular_ok]
  match v with
  | .arr items =>
    exact onlyCircular_resolveEach hresolved m.ofBranches fresh hfollow items
      fun b hb => hbranches b items rfl hb
  | .null => exact hnone hlists nofun
  | .bool _ => exact hnone hlists nofun
  | .int _ => exact hnone hlists nofun
  | .float _ => exact hnone hlists nofun
  | .str _ => exact hnone hlists nofun
  | .obj _ => exact hnone hlists nofun

theorem onlyCircular_resolveEach {document : Document} (hresolved : Holds IsResolved follow)
    (m : Mode) (fresh : List String) (hfollow : FollowsSound document ignored follow fresh.length)
    (vs : List Json) (hsound : ∀ v ∈ vs, AllSound document ignored ⟨m, v⟩) :
    OnlyCircular (resolveEach document ignored follow m fresh vs) := by
  match vs with
  | [] => exact onlyCircular_ok _
  | v :: rest =>
    obtain ⟨hv, hrest⟩ := List.forall_mem_cons.1 hsound
    exact (onlyCircular_resolveBy hresolved m fresh hfollow v hv).bind fun p _ =>
      (onlyCircular_resolveEach hresolved m fresh hfollow rest hrest).bind fun ps _ =>
        onlyCircular_ok _

end

theorem onlyCircular_resolveWith {document : Document} (steps : Nat) :
    FollowsSound document ignored (resolveWith document ignored steps) (steps + 1) := by
  induction steps with
  | zero =>
    intro m fresh v hle
    have hnothing : Holds IsResolved fun _ _ _ => .error .tooDeep := fun _ _ _ _ h => nomatch h
    exact onlyCircular_resolveBy hnothing m fresh (fun _ _ _ hlt => by omega) v
  | succ steps ih =>
    intro m fresh v hle
    have hresolved := isResolved_resolveWith document ignored steps
    exact onlyCircular_resolveBy hresolved m fresh
      (fun m' fresh' v' hlt => ih m' fresh' v' (by omega)) v

/-! ## Every resolution -/

/-- What holds of a document and of the values in it holds of what resolving a value of it
comes to. -/
theorem Hereditary.expandsTo {P : Json → Prop} (hP : Hereditary P) (hdoc : P (.obj document))
    {n n' : Site} (h : ExpandsTo document ignored n n') (hn : P n.value) : P n'.value := by
  induction h with
  | refl => exact hn
  | tail _ hstep ih =>
    cases hstep with
    | target _ htarget =>
      obtain ⟨start, hstart, rfl⟩ := htarget
      exact hP.target hdoc hstart
    | branch hbranch =>
      obtain ⟨ms, v, hms, hv, rfl⟩ := hbranch
      rw [hms] at ih
      exact hP.branch ih hv

/-- Resolving a schema comes to no reference but those that it and the document write. -/
theorem mem_references_of_meets {schema : Json} {ref : String}
    (h : Meets document ignored ⟨m, schema⟩ (.str ref)) :
    ref ∈ references (.obj document) ++ references schema := by
  obtain ⟨n', hn', ms, hms, href⟩ := h
  have hreferences := (hereditary_references (references (.obj document) ++ references schema)).expandsTo
    (List.subset_append_left _ _) hn' (List.subset_append_right _ _)
  obtain ⟨kv, hkv, hkey, hvalue⟩ := mem_of_get? (Mode.ref?_eq_some.1 href).2.1
  rw [hms] at hreferences
  refine hreferences (mem_references_obj.2 ⟨kv, hkv, .inl ?_⟩)
  rw [hvalue, writtenRef_congr hkey]
  simp [writtenRef]

theorem once_iff {n : Site} :
    (∀ n' ref d, ExpandsTo document ignored n n' → n'.Follows ignored ref →
      Expands document ignored n' d → ¬ Meets document ignored d ref) ↔
      Acyclic document ignored n ∧ ClearBeside document ignored n := by
  constructor
  · intro h
    exact ⟨fun n' ref t hn' href ht => h n' ref t hn' href (.target href ht),
      fun n' ref b hn' href hb => h n' ref b hn' href (.branch hb)⟩
  · rintro ⟨hacyclic, hbeside⟩ n' ref d hn' href hd
    cases hd with
    | target href' ht =>
      cases href.unique href'
      exact hacyclic n' ref d hn' href ht
    | branch hb => exact hbeside n' ref d hn' href hb

theorem acyclic_iff {n : Site} : Acyclic document ignored n ↔
    (∀ ref t, n.Follows ignored ref → n.Target document ref t → ¬ Meets document ignored t ref) ∧
      ∀ d, Expands document ignored n d → Acyclic document ignored d := by
  constructor
  · intro h
    exact ⟨fun ref t => h n ref t .refl, fun d hd n' ref t hn' => h n' ref t (.head hd hn')⟩
  · rintro ⟨hhere, hbelow⟩ n' ref t hn' href ht
    rcases Relation.ReflTransGen.cases_head hn' with rfl | ⟨d, hd, hn'⟩
    · exact hhere ref t href ht
    · exact hbelow d hd n' ref t hn' href ht

/-- Resolving a schema gives a result exactly if all that it comes to can be resolved and no
reference is met again, neither from its target nor from a branch beside it. -/
theorem resolve_ok_iff {document : Document} {schema : Json} :
    (∃ r, resolve document ignored m schema = .ok r) ↔
      AllSound document ignored ⟨m, schema⟩ ∧ Acyclic document ignored ⟨m, schema⟩ ∧
        ClearBeside document ignored ⟨m, schema⟩ := by
  rw [← once_iff]
  refine (resolveWith_ok_iff _ m _ schema (Nat.lt_succ_self _)).trans ⟨fun h => ⟨h.sound, h.once⟩,
    fun h => ⟨h.1, fun ref => mem_references_of_meets, h.2⟩⟩

/-- A schema is flattened exactly if all that it comes to can be resolved and no reference is met
again, neither from its target nor from a branch beside it. If all of it can be resolved, it is
refused for such a reference and for nothing else. -/
theorem flatten_ok_iff {document : Document} (schema : Json) :
    ((∃ r, flatten document schema .null = .ok r) ↔
      AllSound document .null ⟨whole, schema⟩ ∧ Acyclic document .null ⟨whole, schema⟩ ∧
        ClearBeside document .null ⟨whole, schema⟩) ∧
    (AllSound document .null ⟨whole, schema⟩ →
      ∀ e, flatten document schema .null = .error e → ∃ ref ms, e = .reference .circular ref ms) :=
  ⟨resolve_ok_iff, onlyCircular_resolveWith _ _ _ _ (Nat.lt_succ_self _)⟩

end

/-! ## A reference met again beside itself -/

def namedMembers : Members := [("type", .str "object")]

def sharingDocument : Document where
  members :=
    [("definitions", .obj [("Named", .obj namedMembers),
      ("Pet", .obj [("allOf", .arr [.obj [("$ref", .str "#/definitions/Named")]])])])]

/-- A schema that two branches lead to is no circle. -/
def sharedByBranches : Members :=
  [("allOf", .arr [.obj [("$ref", .str "#/definitions/Named")], .obj [("$ref", .str "#/definitions/Pet")]])]

/-- The same schema, with the first branch written as its reference. -/
def sharedBeside : Members :=
  [("$ref", .str "#/definitions/Named"), ("allOf", .arr [.obj [("$ref", .str "#/definitions/Pet")]])]

theorem flatten_ok_iff_sharedByBranches :
    flatten sharingDocument (.obj sharedByBranches) .null = .ok namedMembers ∧
      AllSound sharingDocument .null ⟨whole, .obj sharedByBranches⟩ ∧
      Acyclic sharingDocument .null ⟨whole, .obj sharedByBranches⟩ ∧
      ClearBeside sharingDocument .null ⟨whole, .obj sharedByBranches⟩ :=
  have hflat : flatten sharingDocument (.obj sharedByBranches) .null = .ok namedMembers := rfl
  ⟨hflat, (flatten_ok_iff (.obj sharedByBranches)).1.1 ⟨_, hflat⟩⟩

/-- A reference beside a branch that comes to it is refused as circular, although nothing leads
back to it. -/
theorem refused_beside_itself :
    AllSound sharingDocument .null ⟨whole, .obj sharedBeside⟩ ∧
      Acyclic sharingDocument .null ⟨whole, .obj sharedBeside⟩ ∧
      flatten sharingDocument (.obj sharedBeside) .null =
        .error (.reference .circular (.str "#/definitions/Named")
          (.obj [("$ref", .str "#/definitions/Named")])) := by
  have hexpands : ∀ d, Expands sharingDocument .null ⟨whole, .obj sharedBeside⟩ d →
      d = ⟨whole, .obj namedMembers⟩ ∨ d = ⟨whole, .obj [("$ref", .str "#/definitions/Pet")]⟩ := by
    intro d hd
    rcases expands_obj_iff.1 hd with ⟨ref, start, href, hstart, rfl⟩ | ⟨v, hv, rfl⟩
    · cases href
      cases hstart
      exact .inl rfl
    · cases List.mem_singleton.1 hv
      exact .inr rfl
  have hbelow : ∀ d, Expands sharingDocument .null ⟨whole, .obj sharedBeside⟩ d →
      AllSound sharingDocument .null d ∧ Acyclic sharingDocument .null d ∧
        ClearBeside sharingDocument .null d := by
    intro d hd
    rcases hexpands d hd with rfl | rfl
    · exact resolve_ok_iff.1 ⟨namedMembers, rfl⟩
    · exact resolve_ok_iff.1 ⟨namedMembers, rfl⟩
  refine ⟨allSound_iff.2 ⟨sound_obj_iff.2 ⟨fun _ _ => ⟨_, rfl⟩, ?_⟩, fun d hd => (hbelow d hd).1⟩,
    acyclic_iff.2 ⟨?_, fun d hd => (hbelow d hd).2.1⟩, rfl⟩
  · rintro ref ⟨⟩
    exact ⟨_, rfl⟩
  · rintro ref t href ⟨start, hstart, rfl⟩ hmeets
    cases follows_obj_iff.1 href
    cases hstart
    rcases meets_iff.1 hmeets with href | ⟨d, hd, -⟩
    · cases follows_obj_iff.1 href
    · rcases expands_obj_iff.1 hd with ⟨_, _, href, -⟩ | ⟨v, hv, -⟩
      · cases href
      · cases hv

end Schema

end ClientForge
