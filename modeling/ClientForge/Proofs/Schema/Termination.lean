-- SUMMARY: Resolving ends in every mode, never with a result from a cycle, and with nothing left to resolve.
import ClientForge.Proofs.Schema.Associativity
import ClientForge.Proofs.Schema.Expansion

/-!
# Termination of resolving

The list of fresh references and the number of steps bound how long resolving goes on. Neither
decides how it ends: any list with all references that the document and the schema write, and any
number of steps that this list allows, give the same end (`resolveWith_eq_resolve`), which is never
that the steps have run out. A schema whose expansion meets a reference again ends in an error, and
a schema that resolves has nothing left to resolve, so that it is its own resolution in any document
(`resolve_ends`).
-/

namespace ClientForge

namespace Schema

open Members Outcome

/-! ## Fresh references -/

/-- Of the given references, two lists have the same ones. -/
def SameFresh (refs fresh fresh' : List String) : Prop := ∀ s ∈ refs, s ∈ fresh ↔ s ∈ fresh'

theorem SameFresh.without {refs fresh fresh' : List String} (h : SameFresh refs fresh fresh')
    (ref : String) : SameFresh refs (without fresh ref) (without fresh' ref) := by
  intro s hs
  unfold Schema.without
  rw [List.mem_filter, List.mem_filter, h s hs]

/-- Two ways to go on agree on values that write only the given references, with lists of fresh
references that differ in no more than others and are shorter than two given ones. -/
def AgreeFresh (refs : List String) (n n' : Nat) (f g : Follow) : Prop :=
  ∀ m fresh fresh' v, fresh.length < n → fresh'.length < n' → SameFresh refs fresh fresh' →
    references v ⊆ refs → f m fresh v = g m fresh' v

/-- Going on from a value that writes only the given references comes to no others. -/
def Keeps (refs : List String) (follow : Follow) : Prop :=
  Holds (fun _ ms r => references (.obj ms) ⊆ refs → references (.obj r) ⊆ refs) follow

section
variable {document : Members} {ignored : Json} {f g : Follow} {refs : List String}

theorem AgreeFresh.mono {n n' k k' : Nat} (h : AgreeFresh refs n n' f g) (le : k ≤ n) (le' : k' ≤ n') :
    AgreeFresh refs k k' f g :=
  fun m fresh fresh' v lt lt' => h m fresh fresh' v (by omega) (by omega)

mutual

theorem resolveBy_sameFresh (hdoc : references (.obj document) ⊆ refs) (hkeeps : Keeps refs f)
    (m : Mode) (fresh fresh' : List String) (hsame : SameFresh refs fresh fresh')
    (hfollow : AgreeFresh refs fresh.length fresh'.length f g) (v : Json) (hv : references v ⊆ refs) :
    resolveBy document ignored f m fresh v = resolveBy document ignored g m fresh' v := by
  match v with
  | .obj ms =>
    have hstable := stable_references refs
    simp only [resolveBy]
    split
    · rw [branchParts_sameFresh hdoc hkeeps m fresh fresh' hsame hfollow ms hv]
    · rename_i ref href
      cases ref with
      | str s =>
        have hkey : (Json.str s).key = .ok (.str s) := rfl
        have hs : s ∈ refs := by
          obtain ⟨kv, hkv, hmeaning, hvalue⟩ := mem_of_get? (Mode.ref?_eq_some.1 href).2.1
          refine hv (mem_references_obj.2 ⟨kv, hkv, .inl ?_⟩)
          rw [hvalue, writtenRef_congr hmeaning]
          simp [writtenRef]
        simp only [hkey, ok_bind]
        by_cases hfresh : s ∈ fresh
        · have hfresh' := (hsame s hs).1 hfresh
          have hlt := length_without_lt hfresh
          have hlt' := length_without_lt hfresh'
          have hparts := branchParts_sameFresh hdoc hkeeps m _ _ (hsame.without s)
            (hfollow.mono (Nat.le_of_lt hlt) (Nat.le_of_lt hlt')) ms hv
          rw [if_pos hfresh, if_pos hfresh', hparts]
          cases hstart : Pointer.target document (.str s) with
          | error e => rfl
          | ok start =>
            rw [ok_bind, ok_bind]
            cases hbranches : branchParts document ignored g m (without fresh' s) ms with
            | error e => rfl
            | ok parts =>
              rw [hbranches] at hparts
              have hkept := branchParts_holds hstable.plain (hstable.through hdoc) hkeeps m _ ms parts
                hparts
              refine hfollow m _ _ _ hlt hlt' (hsame.without s) (hstable.mergeAll fun p hp => ?_)
              rcases List.mem_cons.1 hp with rfl | hp
              · exact hstable.target hdoc hstart
              · exact hstable.parts hv hkept p hp
        · rw [if_neg hfresh, if_neg fun h => hfresh ((hsame s hs).2 h)]
      | _ => simp only [Json.key]; split <;> rfl
  | .null => rfl
  | .bool _ => rfl
  | .int _ => rfl
  | .float _ => rfl
  | .str _ => rfl
  | .arr _ => rfl

theorem branchParts_sameFresh (hdoc : references (.obj document) ⊆ refs) (hkeeps : Keeps refs f)
    (m : Mode) (fresh fresh' : List String) (hsame : SameFresh refs fresh fresh')
    (hfollow : AgreeFresh refs fresh.length fresh'.length f g) (ms : List (Key × Json))
    (hms : references (.obj ms) ⊆ refs) :
    branchParts document ignored f m fresh ms = branchParts document ignored g m fresh' ms := by
  match ms with
  | [] => rfl
  | (k, v) :: rest =>
    have hv : references v ⊆ refs := (hereditary_references refs).member hms List.mem_cons_self
    have hrest : references (.obj rest) ⊆ refs := by
      intro x hx
      obtain ⟨kv, hkv, hx⟩ := mem_references_obj.1 hx
      exact hms (mem_references_obj.2 ⟨kv, List.mem_cons_of_mem _ hkv, hx⟩)
    simp only [branchParts, resolveBranches_sameFresh hdoc hkeeps m fresh fresh' hsame hfollow v hv,
      branchParts_sameFresh hdoc hkeeps m fresh fresh' hsame hfollow rest hrest]

theorem resolveBranches_sameFresh (hdoc : references (.obj document) ⊆ refs) (hkeeps : Keeps refs f)
    (m : Mode) (fresh fresh' : List String) (hsame : SameFresh refs fresh fresh')
    (hfollow : AgreeFresh refs fresh.length fresh'.length f g) (v : Json) (hv : references v ⊆ refs) :
    resolveBranches document ignored f m fresh v =
      resolveBranches document ignored g m fresh' v := by
  match v with
  | .arr items =>
    exact resolveEach_sameFresh hdoc hkeeps m.ofBranches fresh fresh' hsame hfollow items
      fun v hitem => (hereditary_references refs).item hv hitem
  | .null => rfl
  | .bool _ => rfl
  | .int _ => rfl
  | .float _ => rfl
  | .str _ => rfl
  | .obj _ => rfl

theorem resolveEach_sameFresh (hdoc : references (.obj document) ⊆ refs) (hkeeps : Keeps refs f)
    (m : Mode) (fresh fresh' : List String) (hsame : SameFresh refs fresh fresh')
    (hfollow : AgreeFresh refs fresh.length fresh'.length f g) (vs : List Json)
    (hvs : ∀ v ∈ vs, references v ⊆ refs) :
    resolveEach document ignored f m fresh vs = resolveEach document ignored g m fresh' vs := by
  match vs with
  | [] => rfl
  | v :: rest =>
    obtain ⟨hv, hrest⟩ := List.forall_mem_cons.1 hvs
    simp only [resolveEach, resolveBy_sameFresh hdoc hkeeps m fresh fresh' hsame hfollow v hv,
      resolveEach_sameFresh hdoc hkeeps m fresh fresh' hsame hfollow rest hrest]

end

theorem resolveWith_sameFresh (hdoc : references (.obj document) ⊆ refs) (steps steps' : Nat) :
    AgreeFresh refs (steps + 1) (steps' + 1) (resolveWith document ignored steps)
      (resolveWith document ignored steps') := by
  intro m fresh
  induction hn : fresh.length using Nat.strongRecOn generalizing m fresh with
  | ind n ih =>
    subst hn
    intro fresh' v hle hle' hsame hv
    rw [resolveWith_eq_resolveBy (by omega), resolveWith_eq_resolveBy (by omega)]
    have hstable := stable_references refs
    have hkeeps : Keeps refs (resolveWith document ignored steps) :=
      resolveWith_holds hstable.plain (hstable.through hdoc) steps
    refine resolveBy_sameFresh hdoc hkeeps m fresh fresh' hsame ?_ v hv
    exact fun m' fresh₁ fresh₁' v' hlt hlt' hsame' hv' =>
      ih _ hlt m' fresh₁ rfl fresh₁' v' (by omega) (by omega) hsame' hv'

/-- All references in the fresh ones and as many steps as these are give the same end. -/
theorem resolveWith_eq_resolve {m : Mode} {schema : Json} {fresh : List String} {steps : Nat}
    (hfresh : references (.obj document) ++ references schema ⊆ fresh) (hsteps : fresh.length ≤ steps) :
    resolveWith document ignored steps m fresh schema = resolve document ignored m schema := by
  refine resolveWith_sameFresh (List.subset_append_left _ (references schema)) _ _ m fresh _ schema
    (Nat.lt_succ_of_le hsteps) (Nat.lt_succ_self _) ?_ (List.subset_append_right _ _)
  exact fun s hs => ⟨fun _ => hs, fun _ => hfresh hs⟩

end

/-! ## Nothing left to resolve -/

section
variable {document : Members} {ignored : Json} {m : Mode}

theorem nodup_of_resolve {schema : Json} {r : Members}
    (h : resolve document ignored m schema = .ok r) : (meanings r).Nodup := by
  have hmerged : ∀ parts, (meanings (mergeAll parts)).Nodup := by
    intro parts
    induction parts using List.reverseRecOn with
    | nil => exact List.nodup_nil
    | append_singleton parts p ih =>
      unfold mergeAll at ih ⊢
      rw [List.foldl_append]
      exact nodup_meanings_merge ih
  obtain ⟨ms, -, hr⟩ := resolve_induction (motive := fun _ _ r => (meanings r).Nodup)
    (fun _ _ _ _ _ => hmerged _) (fun _ _ _ _ _ _ _ _ _ hr => hr) h
  exact hr

theorem mergeAll_singleton {ms : Members} (h : (meanings ms).Nodup) : mergeAll [ms] = ms := by
  have hkeys : keys (merge [] ms) = keys ms := by
    rw [keys_merge h]
    simp [keys, meanings]
  exact ext_of_keys hkeys (nodup_meanings_merge List.nodup_nil) (get?_merge_nil h)

theorem has_of_own {r : Members} {k : Key} (h : m.own r = r) (hk : m.keeps k = false) :
    has r k = false := by
  rw [Bool.eq_false_iff, ne_eq, has_iff, ← h]
  exact Mode.not_mem_meanings_own hk r

/-- A schema with nothing to resolve in a mode is its own resolution. -/
theorem resolve_of_own {r : Members} (h : m.own r = r) (hnodup : (meanings r).Nodup) :
    resolve document ignored m (.obj r) = .ok r := by
  have href : m.ref? ignored r = none := by
    rw [Option.eq_none_iff_forall_ne_some]
    intro ref href
    obtain ⟨hrefs, hget, -⟩ := Mode.ref?_eq_some.1 href
    have hhas := has_of_own h (k := refKey) (by simp [Mode.keeps, hrefs])
    simp [has, hget] at hhas
  have hplain : m.allOf = true → IsPlain r := by
    intro hallOf v hv
    have hhas := has_of_own h (k := allOfKey) (by simp [Mode.keeps, hallOf])
    rw [Bool.eq_false_iff, ne_eq, has_iff] at hhas
    exact absurd (List.mem_map_of_mem hv) hhas
  rw [resolve_of_isPlain href hplain, h, mergeAll_singleton hnodup]

/-! ## How resolving ends -/

/-- Resolving ends in every mode, whatever bounds it: in an error if a reference is met again below a
schema that follows it, and else in a schema that has nothing left to resolve, which is what it
resolves to in any document. -/
theorem resolve_ends {document : Document} (ignored : Json) (m : Mode) (schema : Json) :
    Settled (resolve document ignored m schema) ∧
    (∀ fresh steps, references (.obj document) ++ references schema ⊆ fresh → fresh.length ≤ steps →
      resolveWith document ignored steps m fresh schema = resolve document ignored m schema) ∧
    (∀ n ref d, ExpandsTo document ignored ⟨m, schema⟩ n → n.Follows ignored ref →
      Expands document ignored n d → Meets document ignored d ref →
        ∃ e, resolve document ignored m schema = .error e) ∧
    ∀ r, resolve document ignored m schema = .ok r →
      (m.refs = true → has r refKey = false) ∧ (m.allOf = true → has r allOfKey = false) ∧
        ∀ document' ignored', resolve document' ignored' m (.obj r) = .ok r := by
  refine ⟨settled_resolve m schema, fun fresh steps => resolveWith_eq_resolve, ?_, ?_⟩
  · intro n ref d hn href hd hmeets
    cases h : resolve document ignored m schema with
    | error e => exact ⟨e, rfl⟩
    | ok r =>
      obtain ⟨-, honce⟩ := resolve_ok_iff.1 ⟨r, h⟩
      exact absurd hmeets (once_iff.2 honce n ref d hn href hd)
  · intro r h
    have hown := own_of_resolve h
    refine ⟨fun hrefs => has_of_own hown ?_, fun hallOf => has_of_own hown ?_,
      fun document' ignored' => resolve_of_own hown (nodup_of_resolve h)⟩
    · simp [Mode.keeps, hrefs]
    · simp [Mode.keeps, hallOf]

end

def endlessMembers : Members := [("allOf", .arr [.obj [("$ref", .str "#/definitions/Endless")]])]

/-- A definition that is composed of itself. -/
def endlessDocument : Document where
  members := [("definitions", .obj [("Endless", .obj endlessMembers)])]

theorem resolve_ends_endless :
    ∃ e, resolve endlessDocument .null whole (.obj endlessMembers) = .error e := by
  let back : Site := ⟨whole, .obj [("$ref", .str "#/definitions/Endless")]⟩
  have hback : Expands endlessDocument .null ⟨whole, .obj endlessMembers⟩ back :=
    expands_obj_iff.2 (.inr ⟨_, List.mem_cons_self, rfl⟩)
  have hfollows : back.Follows .null (.str "#/definitions/Endless") := ⟨_, rfl, rfl⟩
  have hagain : Expands endlessDocument .null back ⟨whole, .obj endlessMembers⟩ :=
    .target hfollows ⟨endlessMembers, rfl, rfl⟩
  obtain ⟨-, -, hcycle, -⟩ := resolve_ends .null whole (.obj endlessMembers)
  exact hcycle back _ _ (.single hback) hfollows hagain ⟨back, .single hback, hfollows⟩

end Schema

end ClientForge
