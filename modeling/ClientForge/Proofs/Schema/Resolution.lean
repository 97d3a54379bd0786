-- SUMMARY: Induction along the resolution of a schema, and what every resolved schema is like.
import ClientForge.Proofs.Outcome
import ClientForge.Proofs.Schema.Merge

/-!
# Resolution

A schema that resolves does so in one of two ways: it has no reference to follow and
is merged with its resolved branches, or its reference leads to a target, and the merge
of target, branches and own members resolves in turn. `resolve_induction` is the
induction along these steps; it needs to know nothing of fresh references or of fuel.
By it a resolved schema has none of the members that are resolved away
(`own_of_resolve`), and what the document and the schema have in common it has too, if
leaving members out and merging preserve it (`Stable.resolve`): distinct keys
(`stable_wellFormed`) and the references that may occur (`stable_references`). Resolving
never runs out of fuel (`settled_resolve`).
-/

namespace ClientForge

namespace Schema

open Members Outcome

/-! ## Induction along a resolution -/

/-- The schemas that are resolved as the branches of a composition. -/
def Mode.branches (m : Mode) (ms : Members) : List Json :=
  if m.allOf then
    match Members.get ms allOfKey with
    | .arr items => items
    | _ => []
  else []

/-- The parts that the branches among some members resolve to, each in the given sense. -/
def Branching (motive : Mode → Members → Members → Prop) (m : Mode) (ms : Members)
    (parts : List Members) : Prop :=
  List.Forall₂ (fun b p => ∃ bs, b = .obj bs ∧ motive m.ofBranches bs p) (m.branches ms) parts

section
variable {document : Members} {ignored : Json} {follow : Follow}
  {motive : Mode → Members → Members → Prop}

/-- The motive holds of a schema without a reference to follow once it holds of its branches. -/
def Plain (ignored : Json) (motive : Mode → Members → Members → Prop) : Prop :=
  ∀ m ms parts, m.ref? ignored ms = none → Branching motive m ms parts →
    motive m ms (mergeAll (parts ++ [m.own ms]))

/-- The motive holds of a schema with a reference once it holds of its branches and of
the merge that the reference leads to. -/
def Through (document : Members) (ignored : Json)
    (motive : Mode → Members → Members → Prop) : Prop :=
  ∀ m ms ref start parts r, m.ref? ignored ms = some (.str ref) →
    Pointer.target document (.str ref) = .ok start → Branching motive m ms parts →
    motive m (mergeAll (start :: parts ++ [m.own ms])) r → motive m ms r

/-- The motive holds of whatever is followed successfully. -/
def Holds (motive : Mode → Members → Members → Prop) (follow : Follow) : Prop :=
  ∀ m fresh v r, follow m fresh v = .ok r → ∃ ms, v = .obj ms ∧ motive m ms r

mutual

theorem resolveBy_holds (hplain : Plain ignored motive) (hthrough : Through document ignored motive)
    (hfollow : Holds motive follow) (m : Mode) (fresh : List String) (v : Json) (r : Members)
    (h : resolveBy document ignored follow m fresh v = .ok r) :
    ∃ ms, v = .obj ms ∧ motive m ms r := by
  match v with
  | .obj ms =>
    refine ⟨ms, rfl, ?_⟩
    simp only [resolveBy] at h
    split at h
    · rename_i hnone
      obtain ⟨parts, hparts, h⟩ := bind_eq_ok.1 h
      cases h
      exact hplain m ms parts hnone
        (branchParts_holds hplain hthrough hfollow m fresh ms parts hparts)
    · rename_i ref href
      obtain ⟨k, hk, h⟩ := bind_eq_ok.1 h
      have hkey : k = ref := by
        simp only [Json.key] at hk
        split at hk <;> simp_all
      subst hkey
      cases k with
      | str s =>
        simp only at h
        split at h
        · obtain ⟨start, hstart, h⟩ := bind_eq_ok.1 h
          obtain ⟨parts, hparts, h⟩ := bind_eq_ok.1 h
          obtain ⟨ms', hms', hmotive⟩ := hfollow _ _ _ _ h
          cases hms'
          exact hthrough m ms s start parts r href hstart
            (branchParts_holds hplain hthrough hfollow m _ ms parts hparts) hmotive
        · simp at h
      | _ => simp at h
  | .null => simp [resolveBy] at h
  | .bool _ => simp [resolveBy] at h
  | .int _ => simp [resolveBy] at h
  | .float _ => simp [resolveBy] at h
  | .str _ => simp [resolveBy] at h
  | .arr _ => simp [resolveBy] at h

theorem branchParts_holds (hplain : Plain ignored motive)
    (hthrough : Through document ignored motive) (hfollow : Holds motive follow) (m : Mode)
    (fresh : List String) (ms : List (Key × Json)) (parts : List Members)
    (h : branchParts document ignored follow m fresh ms = .ok parts) :
    Branching motive m ms parts := by
  match ms with
  | [] =>
    simp only [branchParts, Except.ok.injEq] at h
    subst h
    simp [Branching, Mode.branches, Members.get, get?]
  | (k, v) :: rest =>
    simp only [branchParts] at h
    split at h
    · rename_i hk
      simp only [Bool.and_eq_true, beq_iff_eq] at hk
      have := resolveBranches_holds hplain hthrough hfollow m fresh v parts h
      simpa [Branching, Mode.branches, Members.get, get?, hk] using this
    · rename_i hk
      have := branchParts_holds hplain hthrough hfollow m fresh rest parts h
      by_cases hm : m.allOf = true
      · have hne : k.meaning ≠ allOfKey.meaning := fun e => hk (by
          simp [hm, Key.meaning_eq_text_iff.1 (e.trans rfl), allOfKey])
        simpa [Branching, Mode.branches, Members.get, get?, hne] using this
      · simpa [Branching, Mode.branches, hm] using this

theorem resolveBranches_holds (hplain : Plain ignored motive)
    (hthrough : Through document ignored motive) (hfollow : Holds motive follow) (m : Mode)
    (fresh : List String) (v : Json) (parts : List Members)
    (h : resolveBranches document ignored follow m fresh v = .ok parts) :
    List.Forall₂ (fun b p => ∃ bs, b = .obj bs ∧ motive m.ofBranches bs p)
      (match v with | .arr items => items | _ => []) parts := by
  have hnone : ∀ {v : Json}, noBranches v = .ok parts → parts = [] := by
    intro v hv
    simp only [noBranches] at hv
    split at hv
    · simpa [eq_comm] using hv
    · split at hv <;> simp at hv
  match v with
  | .arr items =>
    exact resolveEach_holds hplain hthrough hfollow m.ofBranches fresh items parts h
  | .null => simp [hnone h]
  | .bool _ => simp [hnone h]
  | .int _ => simp [hnone h]
  | .float _ => simp [hnone h]
  | .str _ => simp [hnone h]
  | .obj _ => simp [hnone h]

theorem resolveEach_holds (hplain : Plain ignored motive)
    (hthrough : Through document ignored motive) (hfollow : Holds motive follow) (m : Mode)
    (fresh : List String) (vs : List Json) (parts : List Members)
    (h : resolveEach document ignored follow m fresh vs = .ok parts) :
    List.Forall₂ (fun b p => ∃ bs, b = .obj bs ∧ motive m bs p) vs parts := by
  match vs with
  | [] =>
    simp only [resolveEach, Except.ok.injEq] at h
    subst h
    exact .nil
  | v :: rest =>
    simp only [resolveEach] at h
    obtain ⟨p, hp, h⟩ := bind_eq_ok.1 h
    obtain ⟨ps, hps, h⟩ := bind_eq_ok.1 h
    cases h
    exact .cons (resolveBy_holds hplain hthrough hfollow m fresh v p hp)
      (resolveEach_holds hplain hthrough hfollow m fresh rest ps hps)

end

theorem resolveWith_holds (hplain : Plain ignored motive)
    (hthrough : Through document ignored motive) (steps : Nat) :
    Holds motive (resolveWith document ignored steps) := by
  induction steps with
  | zero => exact resolveBy_holds hplain hthrough nofun
  | succ steps ih => exact resolveBy_holds hplain hthrough ih

/-- Induction along the resolution of a schema. -/
theorem resolve_induction (hplain : Plain ignored motive)
    (hthrough : Through document ignored motive) {m : Mode} {schema : Json} {r : Members}
    (h : resolve document ignored m schema = .ok r) :
    ∃ ms, schema = .obj ms ∧ motive m ms r :=
  resolveWith_holds hplain hthrough _ _ _ _ _ h

end

theorem exists_members_of_resolve {document : Members} {ignored : Json} {m : Mode} {schema : Json}
    {r : Members} (h : resolve document ignored m schema = .ok r) : ∃ ms, schema = .obj ms := by
  obtain ⟨ms, hms, -⟩ := resolve_induction (motive := fun _ _ _ => True)
    (fun _ _ _ _ _ => trivial) (fun _ _ _ _ _ _ _ _ _ _ => trivial) h
  exact ⟨ms, hms⟩

theorem resolve_eq_error (document : Members) (ignored : Json) (m : Mode) {schema : Json}
    (h : ¬ ∃ ms, schema = .obj ms) : ∃ e, resolve document ignored m schema = .error e := by
  cases hresolve : resolve document ignored m schema with
  | error e => exact ⟨e, rfl⟩
  | ok r => exact absurd (exists_members_of_resolve hresolve) h

/-- The own members of a schema come last, and so win. -/
theorem exists_merge_of_resolve {document : Members} {ignored : Json} {m : Mode} {ms r : Members}
    (href : m.ref? ignored ms = none) (h : resolve document ignored m (.obj ms) = .ok r) :
    ∃ earlier, r = merge earlier (m.own ms) := by
  let IsMerge (m : Mode) (ms r : Members) : Prop :=
    m.ref? ignored ms = none → ∃ earlier, r = merge earlier (m.own ms)
  have hplain : Plain ignored IsMerge := by
    intro m ms parts _ _ _
    refine ⟨mergeAll parts, ?_⟩
    unfold mergeAll
    rw [List.foldl_append]
    rfl
  have hthrough : Through document ignored IsMerge := by
    intro m ms ref start parts r href _ _ _ hnone
    rw [hnone] at href
    cases href
  obtain ⟨ms', hms, hmerge⟩ := resolve_induction hplain hthrough h
  cases hms
  exact hmerge href

/-! ## Nothing to resolve -/

/-- A schema with no composition, or only false values in place of one. -/
def IsPlain (ms : Members) : Prop := ∀ v, (allOfKey, v) ∈ ms → v.truthy = false

section
variable {document : Members} {ignored : Json}

theorem branchParts_of_isPlain {follow : Follow} {m : Mode} {fresh : List String} {ms : Members}
    (h : m.allOf = true → IsPlain ms) :
    branchParts document ignored follow m fresh ms = .ok [] := by
  induction ms with
  | nil => rfl
  | cons kv ms ih =>
    obtain ⟨k, v⟩ := kv
    unfold branchParts
    split
    · rename_i hkey
      simp only [Bool.and_eq_true, beq_iff_eq] at hkey
      obtain ⟨hallOf, rfl⟩ := hkey
      have hfalse := h hallOf v List.mem_cons_self
      cases v with
      | arr items =>
        cases items with
        | nil => rfl
        | cons => cases hfalse
      | _ => simp only [resolveBranches, noBranches, hfalse]; rfl
    · exact ih fun hallOf v hv => h hallOf v (List.mem_cons_of_mem _ hv)

/-- A schema with neither a reference to follow nor a composition is its own members. -/
theorem resolve_of_isPlain {m : Mode} {ms : Members} (href : m.ref? ignored ms = none)
    (h : m.allOf = true → IsPlain ms) :
    resolve document ignored m (.obj ms) = .ok (mergeAll [m.own ms]) := by
  have hby : ∀ follow fresh, resolveBy document ignored follow m fresh (.obj ms) =
      .ok (mergeAll [m.own ms]) := by
    intro follow fresh
    unfold resolveBy
    rw [href]
    simp only [branchParts_of_isPlain h, ok_bind]
    rfl
  unfold resolve
  dsimp only
  generalize (references (.obj document) ++ references (.obj ms)).length = steps
  cases steps with
  | zero => exact hby _ _
  | succ steps => exact hby _ _

end

/-! ## What is resolved away -/

theorem foldl_merge_own (m : Mode) (a : Members) (parts : List Members) :
    m.own (parts.foldl merge a) = (parts.map m.own).foldl merge (m.own a) := by
  induction parts generalizing a with
  | nil => rfl
  | cons p parts ih => rw [List.foldl_cons, ih, m.own_merge, List.map_cons, List.foldl_cons]

theorem Mode.own_mergeAll (m : Mode) (parts : List Members) :
    m.own (mergeAll parts) = mergeAll (parts.map m.own) :=
  foldl_merge_own m [] parts

theorem Mode.own_eq_self {m : Mode} {ms : Members} (h : m.ofBranches.own ms = ms) :
    m.own ms = ms := by
  rw [own_eq, List.filter_eq_self] at h ⊢
  intro kv hkv
  have hkeeps := h kv hkv
  simp only [Mode.keeps, Mode.ofBranches, Bool.and_eq_true] at hkeeps ⊢
  exact ⟨by simp_all, hkeeps.2⟩

/-- Nothing is left of a resolved schema to resolve in the same mode. -/
def IsResolved (m : Mode) (_ms r : Members) : Prop := m.own r = r

theorem own_of_branching {m : Mode} {ms : Members} {parts : List Members}
    (h : Branching IsResolved m ms parts) : ∀ p ∈ parts, m.ofBranches.own p = p := by
  intro p hp
  obtain ⟨b, _, bs, _, hb⟩ := exists_of_mem_right h hp
  exact hb

theorem isResolved_plain {ignored : Json} : Plain ignored IsResolved := by
  intro m ms parts _ hparts
  have hown : parts.map m.own = parts := by
    refine (List.map_congr_left fun p hp => ?_).trans (List.map_id parts)
    exact Mode.own_eq_self (own_of_branching hparts p hp)
  unfold IsResolved
  rw [m.own_mergeAll, List.map_append, hown, List.map_singleton, m.own_own]

theorem isResolved_through {document : Members} {ignored : Json} :
    Through document ignored IsResolved :=
  fun _ _ _ _ _ _ _ _ _ h => h

theorem isResolved_resolveWith (document : Members) (ignored : Json) (steps : Nat) :
    Holds IsResolved (resolveWith document ignored steps) :=
  resolveWith_holds isResolved_plain isResolved_through steps

theorem own_of_resolve {document : Members} {ignored : Json} {m : Mode} {schema : Json}
    {r : Members} (h : resolve document ignored m schema = .ok r) : m.own r = r := by
  obtain ⟨ms, -, hr⟩ := resolve_induction isResolved_plain isResolved_through h
  exact hr

/-! ## Parts of a document -/

/-- What holds of a value holds of the values in it. -/
structure Hereditary (P : Json → Prop) : Prop where
  item : ∀ {items v}, P (.arr items) → v ∈ items → P v
  member : ∀ {ms m}, P (.obj ms) → m ∈ ms → P m.2

theorem Hereditary.lookup {P : Json → Prop} (hP : Hereditary P) {ms : Members} {k : Key} {v : Json}
    (h : P (.obj ms)) (hv : Members.get? ms k = some v) : P v := by
  obtain ⟨m, hm, -, rfl⟩ := mem_of_get? hv
  exact hP.member h hm

theorem hereditary_of_memberwise {P : Json → Prop} {Own : Members → Prop} {Fits : Key → Json → Prop}
    (h : Memberwise P Own Fits) : Hereditary P where
  item hitems hv := h.arr.1 hitems _ hv
  member hms hm := ((h.obj.1 hms).2 _ hm).2

theorem hereditary_wellFormed : Hereditary Json.WellFormed :=
  hereditary_of_memberwise memberwise_wellFormed

theorem hereditary_known (Known : String → Prop) :
    Hereditary fun v => ∀ ref ∈ references v, Known ref :=
  hereditary_of_memberwise (memberwise_known Known)

theorem hereditary_references (refs : List String) :
    Hereditary fun v => references v ⊆ refs :=
  hereditary_known (· ∈ refs)

theorem Hereditary.step {P : Json → Prop} (hP : Hereditary P) {ref node v : Json}
    {name : List Char} (h : P node) (hv : Pointer.step ref node name = .ok v) : P v := by
  cases node with
  | obj members =>
    simp only [Pointer.step] at hv
    split at hv
    · rename_i w hw
      cases hv
      exact hP.lookup h hw
    · simp at hv
  | arr items =>
    simp only [Pointer.step] at hv
    split at hv
    · simp at hv
    · split at hv
      · simp at hv
      · split at hv
        · rename_i w hw
          cases hv
          exact hP.item h (List.mem_of_getElem? hw)
        · simp at hv
  | _ => simp [Pointer.step] at hv

theorem Hereditary.walk {P : Json → Prop} (hP : Hereditary P) {ref node v : Json}
    {names : List (List Char)} (h : P node) (hv : Pointer.walk ref node names = .ok v) : P v := by
  induction names generalizing node with
  | nil => cases hv; exact h
  | cons name names ih =>
    rw [Pointer.walk, List.foldlM_cons, bind_eq_ok] at hv
    obtain ⟨w, hw, hv⟩ := hv
    exact ih (hP.step h hw) hv

/-- What holds of a document and of the values in it holds of the target of a reference. -/
theorem Hereditary.target {P : Json → Prop} (hP : Hereditary P) {document start : Members}
    {ref : Json} (h : P (.obj document)) (hstart : Pointer.target document ref = .ok start) :
    P (.obj start) := by
  cases ref with
  | str s =>
    simp only [Pointer.target] at hstart
    split at hstart
    · simp at hstart
    · obtain ⟨v, hv, hstart⟩ := bind_eq_ok.1 hstart
      cases v with
      | obj ms =>
        cases hstart
        exact hP.walk h hv
      | _ => simp at hstart
  | _ => simp [Pointer.target] at hstart

theorem wellFormed_target {document : Document} {start : Members} {ref : Json}
    (hstart : Pointer.target document ref = .ok start) : (Json.obj start).WellFormed :=
  hereditary_wellFormed.target document.wellFormed hstart

theorem Hereditary.branch {P : Json → Prop} (hP : Hereditary P) {m : Mode} {ms : Members}
    (h : P (.obj ms)) {b : Json} (hb : b ∈ m.branches ms) : P b := by
  simp only [Mode.branches, Members.get] at hb
  split at hb
  · cases hget : get? ms allOfKey with
    | none => simp [hget] at hb
    | some v =>
      have hv := hP.lookup h hget
      cases v <;> simp_all only [Option.getD_some, List.not_mem_nil]
      exact hP.item hv hb
  · simp at hb

/-! ## What resolving preserves -/

/-- A hereditary property that leaving members out and merging preserve, and that says nothing
about values that are neither lists nor objects. -/
structure Stable (P : Json → Prop) : Prop extends Hereditary P where
  atom : ∀ {v}, v.isKey = true → P v
  empty : P (.obj [])
  filter : ∀ (keep : Key → Bool) {ms}, P (.obj ms) → P (.obj (ms.filter fun m => keep m.1))
  merge : ∀ {a b}, P (.obj a) → P (.obj b) → P (.obj (merge a b))

section
variable {P : Json → Prop}

theorem Stable.own (hP : Stable P) (m : Mode) {ms : Members} (h : P (.obj ms)) :
    P (.obj (m.own ms)) := by
  rw [m.own_eq]
  exact hP.filter m.keeps h

theorem Stable.get (hP : Stable P) {ms : Members} (h : P (.obj ms)) (k : Key) :
    P (Members.get ms k) := by
  unfold Members.get
  cases hget : get? ms k with
  | none => exact hP.atom rfl
  | some v => exact hP.lookup h hget

theorem Stable.orElse (hP : Stable P) {v : Json} (h : P v) : P (v.orElse (.obj [])) := by
  unfold Json.orElse
  split
  · exact h
  · exact hP.empty

theorem Stable.of_members {v : Json} {ms : Members} (h : P v) (hms : v.members = .ok ms) :
    P (.obj ms) := by
  cases v with
  | obj => cases hms; exact h
  | _ => cases hms

theorem Stable.of_entries (hP : Stable P) {v : Json} {entries : List Json} (h : P v)
    (hentries : v.entries = .ok entries) : ∀ e ∈ entries, P e := by
  cases v with
  | arr items =>
    cases hentries
    exact fun e he => hP.item h he
  | str s =>
    cases hentries
    intro e he
    obtain ⟨c, -, rfl⟩ := List.mem_map.1 he
    exact hP.atom rfl
  | obj ms =>
    cases hentries
    intro e he
    obtain ⟨m, -, rfl⟩ := List.mem_map.1 he
    exact hP.atom (by cases m.1 <;> rfl)
  | _ => cases hentries

end

theorem Stable.mergeAll {P : Json → Prop} (hP : Stable P) {parts : List Members}
    (h : ∀ p ∈ parts, P (.obj p)) : P (.obj (mergeAll parts)) := by
  have hfold : ∀ {a : Members}, P (.obj a) → P (.obj (parts.foldl Members.merge a)) := by
    induction parts with
    | nil => exact fun ha => ha
    | cons p parts ih =>
      intro a ha
      refine ih (fun q hq => h q (List.mem_cons_of_mem _ hq)) ?_
      exact hP.merge ha (h p List.mem_cons_self)
  exact hfold hP.empty

/-- The parts that a schema is merged from, but for the target of its reference. -/
theorem Stable.parts {P : Json → Prop} (hP : Stable P) {m : Mode} {ms : Members}
    {parts : List Members} (hms : P (.obj ms))
    (hparts : Branching (fun _ ms r => P (.obj ms) → P (.obj r)) m ms parts) :
    ∀ p ∈ parts ++ [m.own ms], P (.obj p) := by
  intro p hp
  rcases List.mem_append.1 hp with hp | hp
  · obtain ⟨b, hb, bs, rfl, hbs⟩ := exists_of_mem_right hparts hp
    exact hbs (hP.branch hms hb)
  · rw [List.mem_singleton.1 hp]
    exact hP.own m hms

theorem Stable.plain {P : Json → Prop} (hP : Stable P) {ignored : Json} :
    Plain ignored fun _ ms r => P (.obj ms) → P (.obj r) :=
  fun _ _ _ _ hparts hms => hP.mergeAll (hP.parts hms hparts)

theorem Stable.through {P : Json → Prop} (hP : Stable P) {document : Members} {ignored : Json}
    (hdoc : P (.obj document)) :
    Through document ignored fun _ ms r => P (.obj ms) → P (.obj r) := by
  intro m ms ref start parts r _ hstart hparts ih hms
  refine ih (hP.mergeAll fun p hp => ?_)
  rcases List.mem_cons.1 hp with rfl | hp
  · exact hP.target hdoc hstart
  · exact hP.parts hms hparts p hp

/-- What the document and a schema have in common a resolved schema has too. -/
theorem Stable.resolve {P : Json → Prop} (hP : Stable P) {document : Members} {ignored : Json}
    {m : Mode} {schema : Json} {r : Members} (hdoc : P (.obj document)) (hschema : P schema)
    (h : resolve document ignored m schema = .ok r) : P (.obj r) := by
  obtain ⟨ms, rfl, hr⟩ := resolve_induction hP.plain (hP.through hdoc) h
  exact hr hschema

theorem stable_of_memberwise {Own : Members → Prop} {Fits : Key → Json → Prop}
    (h : Memberwise P Own Fits) : Stable P where
  toHereditary := hereditary_of_memberwise h
  atom := h.atom
  empty := h.obj.2 ⟨h.own_nil, by simp⟩
  filter keep ms hms := by
    rw [h.obj] at hms ⊢
    exact ⟨h.own_filter keep hms.1, fun m hm => hms.2 m (List.mem_of_mem_filter hm)⟩
  merge := h.merge

theorem stable_wellFormed : Stable Json.WellFormed := stable_of_memberwise memberwise_wellFormed

theorem stable_known (Known : String → Prop) :
    Stable fun v => ∀ ref ∈ references v, Known ref :=
  stable_of_memberwise (memberwise_known Known)

theorem stable_references (refs : List String) : Stable fun v => references v ⊆ refs :=
  stable_known (· ∈ refs)

/-! ## Fuel -/

theorem settled_target (document : Members) (ref : Json) :
    Settled (Pointer.target document ref) := by
  have hstep : ∀ node name, Settled (Pointer.step ref node name) := by
    intro node name
    cases node <;> simp only [Pointer.step] <;> repeat' split
    all_goals simp [Pointer.fault]
  have hwalk : ∀ names node, Settled (Pointer.walk ref node names) := by
    intro names
    induction names with
    | nil => exact fun node => settled_ok node
    | cons name names ih =>
      intro node
      rw [Pointer.walk, List.foldlM_cons]
      exact (hstep node name).bind fun v _ => ih v
  cases ref with
  | str s =>
    simp only [Pointer.target]
    split
    · simp [Pointer.fault]
    · refine (hwalk _ _).bind fun v _ => ?_
      cases v <;> simp [Pointer.fault]
  | _ => simp [Pointer.target, Pointer.fault]

theorem settled_key (v : Json) : Settled v.key := by
  simp only [Json.key]
  split <;> simp

section
variable {document : Members} {ignored : Json} {follow : Follow}

mutual

/-- Resolving is settled if whatever it follows with fewer fresh references is. -/
theorem settled_resolveBy (m : Mode) (fresh : List String)
    (h : ∀ m' fresh' v, fresh'.length < fresh.length → Settled (follow m' fresh' v)) (v : Json) :
    Settled (resolveBy document ignored follow m fresh v) := by
  match v with
  | .obj ms =>
    simp only [resolveBy]
    split
    · exact (settled_branchParts m fresh h ms).bind fun parts _ => settled_ok _
    · refine (settled_key _).bind fun k _ => ?_
      cases k with
      | str s =>
        simp only
        split
        · rename_i hs
          have hlt := length_without_lt hs
          refine (settled_target _ _).bind fun start _ => ?_
          refine (settled_branchParts m _ (fun m' fresh' v hv => ?_) ms).bind fun parts _ => ?_
          · exact h m' fresh' v (Nat.lt_trans hv hlt)
          · exact h m _ _ hlt
        · exact nofun
      | _ => exact nofun
  | .null => exact nofun
  | .bool _ => exact nofun
  | .int _ => exact nofun
  | .float _ => exact nofun
  | .str _ => exact nofun
  | .arr _ => exact nofun

theorem settled_branchParts (m : Mode) (fresh : List String)
    (h : ∀ m' fresh' v, fresh'.length < fresh.length → Settled (follow m' fresh' v))
    (ms : List (Key × Json)) :
    Settled (branchParts document ignored follow m fresh ms) := by
  match ms with
  | [] => exact settled_ok _
  | (k, v) :: rest =>
    simp only [branchParts]
    split
    · exact settled_resolveBranches m fresh h v
    · exact settled_branchParts m fresh h rest

theorem settled_resolveBranches (m : Mode) (fresh : List String)
    (h : ∀ m' fresh' v, fresh'.length < fresh.length → Settled (follow m' fresh' v)) (v : Json) :
    Settled (resolveBranches document ignored follow m fresh v) := by
  have hnone : ∀ v, Settled (noBranches v) := by
    intro v
    simp only [noBranches]
    repeat' split
    all_goals simp
  match v with
  | .arr items => exact settled_resolveEach m.ofBranches fresh h items
  | .null => exact hnone _
  | .bool _ => exact hnone _
  | .int _ => exact hnone _
  | .float _ => exact hnone _
  | .str _ => exact hnone _
  | .obj _ => exact hnone _

theorem settled_resolveEach (m : Mode) (fresh : List String)
    (h : ∀ m' fresh' v, fresh'.length < fresh.length → Settled (follow m' fresh' v))
    (vs : List Json) : Settled (resolveEach document ignored follow m fresh vs) := by
  match vs with
  | [] => exact settled_ok _
  | v :: rest =>
    exact (settled_resolveBy m fresh h v).bind fun p _ =>
      (settled_resolveEach m fresh h rest).bind fun ps _ => settled_ok _

end

/-- There are never more references to follow than steps. -/
theorem settled_resolve (m : Mode) (schema : Json) :
    Settled (resolve document ignored m schema) := by
  have hsteps : ∀ steps m fresh v, fresh.length ≤ steps →
      Settled (resolveWith document ignored steps m fresh v) := by
    intro steps
    induction steps with
    | zero => exact fun m fresh v hle => settled_resolveBy m fresh (fun _ _ _ hlt => by omega) v
    | succ steps ih =>
      exact fun m fresh v hle =>
        settled_resolveBy m fresh (fun m' fresh' v' hlt => ih m' fresh' v' (by omega)) v
  exact hsteps _ _ _ _ (Nat.le_refl _)

end

end Schema

end ClientForge
