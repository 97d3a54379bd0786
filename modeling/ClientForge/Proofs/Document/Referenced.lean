-- SUMMARY: Two documents that agree on the references a schema comes to resolve it alike.
import ClientForge.Proofs.Document.Alike
import ClientForge.Proofs.Schema.Contribution
import ClientForge.Proofs.Schema.Resolution
import ClientForge.Schema.Steps

/-!
# Referenced parts

A document comes to the references in its paths and to those in what these point to
(`Referenced`); nothing else of it is looked at. Two documents agree on a set of known
references if each of them points to alike schemas, or to none, in both, and these write
known references only (`Agreement`). Alike schemas that write known references then
resolve to alike schemas in the two documents, or in neither (`Agreement.resolve`): every
schema on the way writes known references only, for it is merged from such schemas.
-/

namespace ClientForge

open Members Outcome Schema

/-- The references that a document comes to from its paths. -/
inductive Referenced (document : Members) : String → Prop
  | written {ref : String} (h : ref ∈ references (Document.paths document)) : Referenced document ref
  | target {ref ref' : String} {start : Members} (h : Referenced document ref)
    (hstart : Pointer.target document (.str ref) = .ok start)
    (hwritten : ref' ∈ references (.obj start)) : Referenced document ref'

/-- Two documents in which known references point to alike schemas. -/
structure Agreement (free : Prop) (Known : String → Prop) (document document' : Members) : Prop where
  target : ∀ ref, Known ref → Both (AlikeMembers free .specification)
    (Pointer.target document (.str ref)) (Pointer.target document' (.str ref))
  closed : ∀ ref start, Known ref → Pointer.target document (.str ref) = .ok start →
    ∀ ref' ∈ references (.obj start), Known ref'
  written : ∀ ref, Known ref →
    (ref ∈ references (.obj document) ↔ ref ∈ references (.obj document'))

/-- Alike values that write known references only. -/
structure Linked (free : Prop) (Known : String → Prop) (ρ : Role) (v w : Json) : Prop where
  alike : Alike free ρ v w
  known : ∀ ref ∈ references v, Known ref

/-- Alike members that write known references only. -/
abbrev LinkedMembers (free : Prop) (Known : String → Prop) (ρ : Role) (ms ns : Members) : Prop :=
  Linked free Known ρ (.obj ms) (.obj ns)

/-! ## Documents that agree -/

theorem references_orElse_subset (v : Json) : references (v.orElse (.obj [])) ⊆ references v := by
  unfold Json.orElse
  split
  · exact List.Subset.refl _
  · exact List.nil_subset _

theorem Referenced.mem_references {document : Members} {ref : String}
    (h : Referenced document ref) : ref ∈ references (.obj document) := by
  have hhereditary := hereditary_references (references (.obj document))
  cases h with
  | written h =>
    have hwritten := references_orElse_subset _ h
    unfold Members.get at hwritten
    cases hget : get? document "paths" with
    | none => simp [hget, references] at hwritten
    | some v =>
      rw [hget] at hwritten
      exact mem_references_of_get? hget hwritten
  | target _ hstart hwritten => exact hhereditary.target (List.Subset.refl _) hstart hwritten

theorem Referenced.of_agreement {free : Prop} {document document' : Members}
    (hpaths : Alike free .paths (Document.paths document) (Document.paths document'))
    (htarget : ∀ ref, Referenced document ref → Both (AlikeMembers free .specification)
      (Pointer.target document (.str ref)) (Pointer.target document' (.str ref)))
    {ref : String} (h : Referenced document ref) : Referenced document' ref := by
  induction h with
  | written h => exact .written (references_of_alike _ _ hpaths ▸ h)
  | target h hstart hwritten ih =>
    obtain ⟨start', hstart', halike⟩ := (htarget _ h).exists_left hstart
    refine .target ih hstart' ?_
    rwa [← references_of_alike _ _ (alike_obj_obj.2 halike)]

/-- Two documents agree on what they come to if their paths are alike and so is what each
reference points to. -/
theorem agreement_of_referenced {free : Prop} {document document' : Members}
    (hpaths : Alike free .paths (Document.paths document) (Document.paths document'))
    (htarget : ∀ ref, Referenced document ref → Both (AlikeMembers free .specification)
      (Pointer.target document (.str ref)) (Pointer.target document' (.str ref))) :
    Agreement free (Referenced document) document document' where
  target := htarget
  closed _ _ h hstart _ hwritten := .target h hstart hwritten
  written _ h := iff_of_true h.mem_references (h.of_agreement hpaths htarget).mem_references

/-- A document agrees with itself. -/
theorem Agreement.refl (free : Prop) (document : Members) :
    Agreement free (fun _ => True) document document where
  target _ _ := .refl (fun ms => alike_obj_obj.1 (alike_refl _ (.obj ms))) _
  closed _ _ _ _ _ _ := trivial
  written _ _ := Iff.rfl

section
variable {free : Prop} {Known : String → Prop} {ρ : Role}

/-! ## Parts of linked values -/

theorem LinkedMembers.alikeMembers {ms ns : Members} (h : LinkedMembers free Known ρ ms ns) :
    AlikeMembers free ρ ms ns :=
  alike_obj_obj.1 h.alike

theorem Linked.items {vs ws : List Json} (h : Linked free Known ρ (.arr vs) (.arr ws)) :
    List.Forall₂ (Linked free Known ρ.item) vs ws := by
  obtain ⟨ws', hws, hitems⟩ := alike_arr.1 h.alike
  cases hws
  have hknown : ∀ v ∈ vs, ∀ ref ∈ references v, Known ref :=
    fun v hv => (hereditary_known Known).item h.known hv
  exact ((List.forall₂_and_left _ _).2 ⟨hknown, hitems⟩).imp fun _ _ hvw => ⟨hvw.2, hvw.1⟩

/-- The members of an object, one by one. -/
theorem LinkedMembers.forall₂ {ms ns : Members} (h : LinkedMembers free Known ρ ms ns) :
    List.Forall₂ (fun m n => m.1 = n.1 ∧ Linked free Known (ρ.member m.1) m.2 n.2) ms ns := by
  have hknown : ∀ m ∈ ms, ∀ ref ∈ references m.2, Known ref :=
    fun m hm => (hereditary_known Known).member h.known hm
  exact ((List.forall₂_and_left _ _).2 ⟨hknown, h.alikeMembers⟩).imp
    fun _ _ hmn => ⟨hmn.2.1, hmn.2.2, hmn.1⟩

/-- The specifications in an object, one by one. -/
theorem LinkedMembers.specifications {ms ns : Members} (h : LinkedMembers free Known .named ms ns) :
    List.Forall₂ (fun m n => m.1 = n.1 ∧ Linked free Known .specification m.2 n.2) ms ns :=
  h.forall₂.imp fun m _ hmn => ⟨hmn.1, Role.member_named m.1 ▸ hmn.2⟩

theorem LinkedMembers.get? {ms ns : Members} (h : LinkedMembers free Known ρ ms ns) (k : Key) :
    Option.Rel (Linked free Known (ρ.member k)) (Members.get? ms k) (Members.get? ns k) := by
  have hvalues := h.alikeMembers.get? k
  have hknown : ∀ v, Members.get? ms k = some v → ∀ ref ∈ references v, Known ref :=
    fun v hv => (hereditary_known Known).lookup h.known hv
  generalize Members.get? ms k = held, Members.get? ns k = held' at hvalues hknown
  cases hvalues with
  | none => exact .none
  | some hvalue => exact .some ⟨hvalue, hknown _ rfl⟩

theorem linked_null : Linked free Known ρ .null .null := ⟨trivial, by simp [references]⟩

theorem LinkedMembers.get {ms ns : Members} (h : LinkedMembers free Known ρ ms ns) (k : Key) :
    Linked free Known (ρ.member k) (Members.get ms k) (Members.get ns k) := by
  have hvalues := h.get? k
  unfold Members.get
  generalize Members.get? ms k = held, Members.get? ns k = held' at hvalues
  cases hvalues with
  | none => exact linked_null
  | some hvalue => exact hvalue

theorem LinkedMembers.get_exact {ms ns : Members} {k : Key} (h : LinkedMembers free Known ρ ms ns)
    (hk : ρ.member k = .exact) : Members.get ms k = Members.get ns k :=
  alike_exact_iff.1 (hk ▸ (h.get k).alike)

theorem LinkedMembers.has {ms ns : Members} (h : LinkedMembers free Known ρ ms ns) (k : Key) :
    Members.has ms k = Members.has ns k :=
  h.alikeMembers.has k

theorem Linked.orElse {v v' w w' : Json} (h : Linked free Known ρ v w)
    (h' : Linked free Known ρ v' w') : Linked free Known ρ (v.orElse v') (w.orElse w') := by
  refine ⟨h.alike.orElse h'.alike, ?_⟩
  unfold Json.orElse
  split
  · exact h.known
  · exact h'.known

theorem linked_toJson (k : Key) : Linked free Known ρ k.toJson k.toJson := by
  refine ⟨alike_refl _ _, ?_⟩
  cases k <;> simp [Key.toJson, references]

theorem Linked.bothMembers {v w : Json} (h : Linked free Known ρ v w) :
    Both (LinkedMembers free Known ρ) v.members w.members := by
  cases v with
  | obj ms =>
    obtain ⟨ns, rfl, -⟩ := alike_obj.1 h.alike
    exact .ok h
  | _ => cases w <;> first | exact .error _ _ | exact h.alike.elim

theorem Linked.bothEntries {v w : Json} (h : Linked free Known ρ v w) (hρ : ρ ≠ .description) :
    Both (List.Forall₂ (Linked free Known ρ.item)) v.entries w.entries := by
  cases v with
  | arr vs =>
    obtain ⟨ws, rfl, -⟩ := alike_arr.1 h.alike
    exact .ok h.items
  | obj ms =>
    obtain ⟨ns, rfl, -⟩ := alike_obj.1 h.alike
    refine .ok (List.forall₂_map_left_iff.2 (List.forall₂_map_right_iff.2 ?_))
    exact LinkedMembers.forall₂ h |>.imp fun m n hmn => hmn.1 ▸ linked_toJson m.1
  | str s =>
    cases w with
    | str t =>
      rcases h.alike with rfl | ⟨-, hdescription, -⟩
      · refine .ok (List.forall₂_same.2 fun v hv => ?_)
        obtain ⟨c, -, rfl⟩ := List.mem_map.1 hv
        exact linked_toJson (.text _)
      · exact absurd hdescription hρ
    | _ => exact h.alike.elim
  | _ => cases w <;> first | exact .error _ _ | exact h.alike.elim

theorem linked_empty : LinkedMembers free Known ρ [] [] :=
  ⟨alike_refl _ _, (stable_known Known).empty⟩

/-- Members chosen by their keys. -/
theorem LinkedMembers.filter {ms ns : Members} (h : LinkedMembers free Known ρ ms ns)
    (keep : Key → Bool) :
    LinkedMembers free Known ρ (ms.filter fun m => keep m.1) (ns.filter fun n => keep n.1) := by
  refine ⟨alike_obj_obj.2 (h.alikeMembers.filter keep), fun ref href => ?_⟩
  obtain ⟨m, hm, href⟩ := mem_references_obj.1 href
  exact h.known ref (mem_references_obj.2 ⟨m, List.mem_of_mem_filter hm, href⟩)

theorem linked_mergeAll {parts parts' : List Members}
    (h : List.Forall₂ (LinkedMembers free Known ρ) parts parts') :
    LinkedMembers free Known ρ (mergeAll parts) (mergeAll parts') := by
  refine ⟨alike_obj_obj.2 (AlikeMembers.mergeAll (h.imp fun _ _ hpart => hpart.alikeMembers)), ?_⟩
  refine (stable_known Known).mergeAll fun p hp => ?_
  obtain ⟨p', -, hlinked⟩ := exists_of_mem_left h hp
  exact hlinked.known

/-! ## Resolving in two documents -/

/-- A reference is fresh in both of two lists or in neither, if it is known. -/
def AgreeOn (Known : String → Prop) (fresh fresh' : List String) : Prop :=
  ∀ ref, Known ref → (ref ∈ fresh ↔ ref ∈ fresh')

theorem AgreeOn.without {fresh fresh' : List String} (h : AgreeOn Known fresh fresh')
    (ref : String) : AgreeOn Known (without fresh ref) (without fresh' ref) := by
  intro r hr
  unfold Schema.without
  rw [List.mem_filter, List.mem_filter, h r hr]

/-- Two ways to go on that come to linked schemas from linked ones, with fewer fresh references
than two bounds say. -/
def FollowBoth (free : Prop) (Known : String → Prop) (n n' : Nat) (f g : Follow) : Prop :=
  ∀ m fresh fresh' ms ns, fresh.length < n → fresh'.length < n' → AgreeOn Known fresh fresh' →
    LinkedMembers free Known .specification ms ns →
      Both (LinkedMembers free Known .specification) (f m fresh (.obj ms)) (g m fresh' (.obj ns))

theorem FollowBoth.mono {n n' k k' : Nat} {f g : Follow} (h : FollowBoth free Known n n' f g)
    (le : k ≤ n) (le' : k' ≤ n') : FollowBoth free Known k k' f g :=
  fun m fresh fresh' ms ns lt lt' => h m fresh fresh' ms ns (by omega) (by omega)

variable {document document' : Members} {ignored : Json} {f g : Follow}

/-- The reference to follow is exact. -/
theorem LinkedMembers.ref? {ms ns : Members}
    (h : LinkedMembers free Known .specification ms ns) (m : Mode) (ignored : Json) :
    m.ref? ignored ms = m.ref? ignored ns := by
  unfold Mode.ref?
  rw [h.get_exact rfl]

theorem LinkedMembers.known_of_ref? {ms ns : Members} (h : LinkedMembers free Known ρ ms ns)
    {m : Mode} {ref : String} (href : m.ref? ignored ms = some (.str ref)) : Known ref := by
  obtain ⟨k, hk, hmeaning, hvalue⟩ := mem_of_get? (Mode.ref?_eq_some.1 href).2.1
  refine h.known ref (mem_references_obj.2 ⟨k, hk, .inl ?_⟩)
  rw [hvalue, writtenRef_congr hmeaning]
  simp [writtenRef]

theorem both_noBranches {R : Members → Members → Prop} {v w : Json} (h : v.truthy = w.truthy) :
    Both (List.Forall₂ R) (noBranches v) (noBranches w) := by
  have hfails : ∀ u : Json, u.truthy = true → ∃ e, noBranches u = .error e := by
    intro u hu
    cases u <;> simp [noBranches, hu]
  cases hv : v.truthy with
  | false =>
    have hw : w.truthy = false := h ▸ hv
    simp only [noBranches, hv, hw]
    exact .ok .nil
  | true =>
    obtain ⟨e, he⟩ := hfails v hv
    obtain ⟨e', he'⟩ := hfails w (h ▸ hv)
    rw [he, he']
    exact .error e e'

mutual

theorem Agreement.resolveBy (h : Agreement free Known document document') (m : Mode)
    (fresh fresh' : List String) (hfresh : AgreeOn Known fresh fresh')
    (hfollow : FollowBoth free Known fresh.length fresh'.length f g) (v w : Json)
    (hlinked : Linked free Known .specification v w) :
    Both (LinkedMembers free Known .specification) (Schema.resolveBy document ignored f m fresh v)
      (Schema.resolveBy document' ignored g m fresh' w) := by
  match v with
  | .obj ms =>
    obtain ⟨ns, rfl, -⟩ := alike_obj.1 hlinked.alike
    have hms : LinkedMembers free Known .specification ms ns := hlinked
    have hown : LinkedMembers free Known .specification (m.own ms) (m.own ns) := by
      rw [m.own_eq, m.own_eq]
      exact hms.filter m.keeps
    simp only [Schema.resolveBy, ← hms.ref? m ignored]
    split
    · refine (h.branchParts m fresh fresh' hfresh hfollow ms ns hms).bind fun parts parts' _ _ hparts => ?_
      exact .ok (linked_mergeAll (List.rel_append hparts (.cons hown .nil)))
    · rename_i ref href
      cases ref with
      | str s =>
        have hknown := hms.known_of_ref? href
        change Both _ (if s ∈ fresh then _ else _) (if s ∈ fresh' then _ else _)
        by_cases hs : s ∈ fresh
        · have hs' := (hfresh s hknown).1 hs
          have hlt := length_without_lt hs
          have hlt' := length_without_lt hs'
          rw [if_pos hs, if_pos hs']
          refine (h.target s hknown).bind fun start start' hstart _ halike => ?_
          have htarget : LinkedMembers free Known .specification start start' :=
            ⟨alike_obj_obj.2 halike, h.closed s start hknown hstart⟩
          have hbranches := h.branchParts m _ _ (hfresh.without s)
            (hfollow.mono (Nat.le_of_lt hlt) (Nat.le_of_lt hlt')) ms ns hms
          refine hbranches.bind fun parts parts' _ _ hparts => ?_
          refine hfollow m _ _ _ _ hlt hlt' (hfresh.without s) (linked_mergeAll ?_)
          exact .cons htarget (List.rel_append hparts (.cons hown .nil))
        · rw [if_neg hs, if_neg fun hs' => hs ((hfresh s hknown).2 hs')]
          exact .error _ _
      | _ => simp only [Json.key]; split <;> exact .error _ _
  | .null => cases w <;> first | exact .error _ _ | exact hlinked.alike.elim
  | .bool _ => cases w <;> first | exact .error _ _ | exact hlinked.alike.elim
  | .int _ => cases w <;> first | exact .error _ _ | exact hlinked.alike.elim
  | .float _ => cases w <;> first | exact .error _ _ | exact hlinked.alike.elim
  | .str _ => cases w <;> first | exact .error _ _ | exact hlinked.alike.elim
  | .arr _ => cases w <;> first | exact .error _ _ | exact hlinked.alike.elim

theorem Agreement.branchParts (h : Agreement free Known document document') (m : Mode)
    (fresh fresh' : List String) (hfresh : AgreeOn Known fresh fresh')
    (hfollow : FollowBoth free Known fresh.length fresh'.length f g) (ms ns : List (Key × Json))
    (hlinked : LinkedMembers free Known .specification ms ns) :
    Both (List.Forall₂ (LinkedMembers free Known .specification))
      (Schema.branchParts document ignored f m fresh ms)
      (Schema.branchParts document' ignored g m fresh' ns) := by
  match ms with
  | [] =>
    cases hlinked.alikeMembers
    exact .ok .nil
  | (k, v) :: rest =>
    obtain _ | ⟨⟨hkey, hvalue⟩, hrest⟩ := hlinked.alikeMembers
    rename_i n rest'
    obtain ⟨l, w⟩ := n
    cases hkey
    have hknown := hlinked.known
    have hlinked' : LinkedMembers free Known .specification rest rest' := by
      refine ⟨alike_obj_obj.2 hrest, fun ref href => hknown ref ?_⟩
      obtain ⟨m, hm, href⟩ := mem_references_obj.1 href
      exact mem_references_obj.2 ⟨m, List.mem_cons_of_mem _ hm, href⟩
    simp only [Schema.branchParts]
    split
    · rename_i hk
      simp only [Bool.and_eq_true, beq_iff_eq] at hk
      obtain ⟨-, rfl⟩ := hk
      exact h.resolveBranches m fresh fresh' hfresh hfollow v w
        ⟨hvalue, (hereditary_known Known).member hknown List.mem_cons_self⟩
    · exact h.branchParts m fresh fresh' hfresh hfollow rest rest' hlinked'

theorem Agreement.resolveBranches (h : Agreement free Known document document') (m : Mode)
    (fresh fresh' : List String) (hfresh : AgreeOn Known fresh fresh')
    (hfollow : FollowBoth free Known fresh.length fresh'.length f g) (v w : Json)
    (hlinked : Linked free Known .listed v w) :
    Both (List.Forall₂ (LinkedMembers free Known .specification))
      (Schema.resolveBranches document ignored f m fresh v)
      (Schema.resolveBranches document' ignored g m fresh' w) := by
  have htruthy := hlinked.alike.truthy
  match v with
  | .arr items =>
    obtain ⟨items', rfl, -⟩ := alike_arr.1 hlinked.alike
    exact h.resolveEach m.ofBranches fresh fresh' hfresh hfollow items items' hlinked.items
  | .null => cases w <;> first | exact both_noBranches htruthy | exact hlinked.alike.elim
  | .bool _ => cases w <;> first | exact both_noBranches htruthy | exact hlinked.alike.elim
  | .int _ => cases w <;> first | exact both_noBranches htruthy | exact hlinked.alike.elim
  | .float _ => cases w <;> first | exact both_noBranches htruthy | exact hlinked.alike.elim
  | .str _ => cases w <;> first | exact both_noBranches htruthy | exact hlinked.alike.elim
  | .obj _ => cases w <;> first | exact both_noBranches htruthy | exact hlinked.alike.elim

theorem Agreement.resolveEach (h : Agreement free Known document document') (m : Mode)
    (fresh fresh' : List String) (hfresh : AgreeOn Known fresh fresh')
    (hfollow : FollowBoth free Known fresh.length fresh'.length f g) (vs ws : List Json)
    (hlinked : List.Forall₂ (Linked free Known .specification) vs ws) :
    Both (List.Forall₂ (LinkedMembers free Known .specification))
      (Schema.resolveEach document ignored f m fresh vs)
      (Schema.resolveEach document' ignored g m fresh' ws) := by
  match vs with
  | [] =>
    cases hlinked
    exact .ok .nil
  | v :: rest =>
    obtain _ | ⟨hv, hrest⟩ := hlinked
    rename_i w rest'
    simp only [Schema.resolveEach]
    refine (h.resolveBy m fresh fresh' hfresh hfollow v w hv).bind fun p p' _ _ hp => ?_
    refine (h.resolveEach m fresh fresh' hfresh hfollow rest rest' hrest).bind fun ps ps' _ _ hps => ?_
    exact .ok (.cons hp hps)

end

theorem Agreement.resolveWith (h : Agreement free Known document document') (steps steps' : Nat) :
    FollowBoth free Known (steps + 1) (steps' + 1) (Schema.resolveWith document ignored steps)
      (Schema.resolveWith document' ignored steps') := by
  intro m fresh
  induction hn : fresh.length using Nat.strongRecOn generalizing m fresh with
  | ind n ih =>
    subst hn
    intro fresh' ms ns hle hle' hfresh hlinked
    rw [resolveWith_eq_resolveBy (by omega), resolveWith_eq_resolveBy (by omega)]
    refine h.resolveBy m fresh fresh' hfresh ?_ _ _ hlinked
    exact fun m' fresh₁ fresh₁' ms' ns' hlt hlt' hfresh' hlinked' =>
      ih _ hlt m' fresh₁ rfl fresh₁' ms' ns' (by omega) (by omega) hfresh' hlinked'

/-- Linked schemas resolve to linked ones in both documents, or in neither. -/
theorem Agreement.resolve (h : Agreement free Known document document') (ignored : Json) (m : Mode)
    {v w : Json} (hlinked : Linked free Known .specification v w) :
    Both (LinkedMembers free Known .specification) (Schema.resolve document ignored m v)
      (Schema.resolve document' ignored m w) := by
  have hfresh : AgreeOn Known (references (.obj document) ++ references v)
      (references (.obj document') ++ references w) := by
    intro ref href
    rw [List.mem_append, List.mem_append, h.written ref href, references_of_alike v w hlinked.alike]
  by_cases hobject : ∃ ms, v = .obj ms
  · obtain ⟨ms, rfl⟩ := hobject
    obtain ⟨ns, rfl, -⟩ := alike_obj.1 hlinked.alike
    exact h.resolveWith _ _ m _ _ ms ns (Nat.lt_succ_self _) (Nat.lt_succ_self _) hfresh hlinked
  · have hobject' : ¬ ∃ ns, w = .obj ns := fun h => hobject (hlinked.alike.exists_members_iff.2 h)
    obtain ⟨e, he⟩ := resolve_eq_error document ignored m hobject
    obtain ⟨e', he'⟩ := resolve_eq_error document' ignored m hobject'
    rw [he, he']
    exact .error e e'

end

end ClientForge
