-- SUMMARY: Merging is associative as long as values that meet under one path of keys are of one shape.
import Mathlib.Data.List.Induction
import ClientForge.Proofs.Schema.Contribution

/-!
# Associativity

A list, an object and anything else are three shapes of values. Objects are uniform if no
path of keys leads to values of different shapes in two of them. What a merge has under a
path has the shape of what one of the merged objects has there (`descend_merge`), so merging
some of a list of uniform objects leaves it uniform (`Uniform.mergeAll`), and then it makes no
difference which of them are merged first (`merge_assoc`, `mergeAll_mergeAll`). Lists under a
key of uniform objects are appended in order (`get?_mergeAll_of_holdLists`).
-/

namespace ClientForge

namespace Json

/-! ## Shapes -/

inductive Shape
  | list
  | mapping
  | single
deriving DecidableEq, Repr

def shape : Json → Shape
  | .arr _ => .list
  | .obj _ => .mapping
  | _ => .single

/-- The value that a path of keys leads to. -/
def descend : List Key → Json → Option Json
  | [], v => some v
  | k :: path, .obj ms => (Members.get? ms k).bind (descend path)
  | _ :: _, _ => none

/-- Two values that have values of one shape under every path that both have. -/
def Alike (v w : Json) : Prop :=
  ∀ path v' w', descend path v = some v' → descend path w = some w' → v'.shape = w'.shape

theorem Alike.shape_eq {v w : Json} (h : Alike v w) : v.shape = w.shape := h [] v w rfl rfl

theorem Alike.symm {v w : Json} (h : Alike v w) : Alike w v :=
  fun path v' w' hv hw => (h path w' v' hw hv).symm

theorem Alike.member {a b : Members} {k : Key} {v w : Json} (h : Alike (.obj a) (.obj b))
    (hv : Members.get? a k = some v) (hw : Members.get? b k = some w) : Alike v w := by
  intro path v' w' hv' hw'
  apply h (k :: path) v' w'
  · simp only [descend, hv, Option.bind_some, hv']
  · simp only [descend, hw, Option.bind_some, hw']

theorem shape_eq_list_iff {v : Json} : v.shape = .list ↔ ∃ items, v = .arr items := by
  cases v <;> simp [shape]

theorem shape_eq_mapping_iff {v : Json} : v.shape = .mapping ↔ ∃ ms, v = .obj ms := by
  cases v <;> simp [shape]

end Json

namespace Members

open Json

/-! ## What a merge has under a path -/

theorem shape_combine (held : Option Json) (v : Json) : (combine held v).shape = v.shape := by
  cases v with
  | arr items =>
    unfold combine
    split <;> rfl
  | obj members =>
    unfold combine
    split <;> rfl
  | _ => rfl

/-- Of two values brought together, the shape under a path is that of one of them. -/
theorem descend_combine {held : Option Json} {v x : Json} {path : List Key} (hwf : v.WellFormed)
    (h : descend path (combine held v) = some x) :
    (∃ w y, held = some w ∧ descend path w = some y ∧ y.shape = x.shape) ∨
      ∃ y, descend path v = some y ∧ y.shape = x.shape := by
  induction path generalizing held v with
  | nil =>
    cases h
    exact .inr ⟨v, rfl, (shape_combine held v).symm⟩
  | cons k path ih =>
    cases v with
    | arr items =>
      unfold combine at h
      split at h <;> cases h
    | obj members =>
      unfold combine at h
      split at h
      · rename_i earlier
        simp only [descend, get?_merge (wellFormed_obj.1 hwf).1] at h ⊢
        cases hget : get? members k with
        | none =>
          rw [hget] at h
          exact .inl ⟨_, x, rfl, h, rfl⟩
        | some v =>
          rw [hget] at h
          rcases ih (get?_wellFormed hwf hget) h with ⟨w, y, hw, hy, hshape⟩ | ⟨y, hy, hshape⟩
          · refine .inl ⟨_, y, rfl, ?_, hshape⟩
            simp only [descend, hw, Option.bind_some, hy]
          · exact .inr ⟨y, hy, hshape⟩
      · exact .inr ⟨x, h, rfl⟩
    | _ => cases h

/-- What a merge has under a path has the shape of what one of the objects has there. -/
theorem descend_merge {a b : Members} {x : Json} {path : List Key} (hb : (Json.obj b).WellFormed)
    (h : descend path (.obj (merge a b)) = some x) :
    ∃ y, (descend path (.obj a) = some y ∨ descend path (.obj b) = some y) ∧ y.shape = x.shape := by
  have hcombine : descend path (combine (some (.obj a)) (.obj b)) = some x := h
  rcases descend_combine hb hcombine with ⟨w, y, hw, hy, hshape⟩ | ⟨y, hy, hshape⟩
  · cases hw
    exact ⟨y, .inl hy, hshape⟩
  · exact ⟨y, .inr hy, hshape⟩

theorem alike_merge {a b : Members} {v : Json} (hb : (Json.obj b).WellFormed)
    (hav : Alike (.obj a) v) (hbv : Alike (.obj b) v) : Alike (.obj (merge a b)) v := by
  intro path x x' hx hx'
  obtain ⟨y, hy | hy, hshape⟩ := descend_merge hb hx
  · exact hshape.symm.trans (hav path y x' hy hx')
  · exact hshape.symm.trans (hbv path y x' hy hx')

/-! ## Equal objects -/

/-- Objects with the same keys in the same order are equal if they have the same values. -/
theorem ext_of_keys {a b : Members} (hkeys : keys a = keys b) (hnodup : (meanings a).Nodup)
    (hget : ∀ k, get? a k = get? b k) : a = b := by
  induction a generalizing b with
  | nil =>
    cases b with
    | nil => rfl
    | cons => cases hkeys
  | cons m a ih =>
    cases b with
    | nil => cases hkeys
    | cons n b =>
      obtain ⟨k, v⟩ := m
      obtain ⟨k', w⟩ := n
      obtain ⟨rfl, hrest⟩ : k = k' ∧ keys a = keys b := by simpa [keys] using hkeys
      have hvalue : v = w := by simpa [get?] using hget k
      subst hvalue
      rw [meanings_cons, List.nodup_cons] at hnodup
      have hmeanings : meanings a = meanings b := by
        rw [← map_meaning_keys, hrest, map_meaning_keys]
      congr 1
      apply ih hrest hnodup.2
      intro k'
      by_cases hsame : k.meaning = k'.meaning
      · rw [get?_eq_none_iff.2 (hsame ▸ hnodup.1), get?_eq_none_iff.2 (hmeanings ▸ hsame ▸ hnodup.1)]
      · have hrest := hget k'
        simpa [get?, hsame] using hrest

/-- A merge has the keys of the first object, then those that only the second one has. -/
theorem keys_merge {a b : Members} (hb : (meanings b).Nodup) :
    keys (merge a b) = keys a ++ (keys b).filter fun k => k.meaning ∉ meanings a := by
  induction b generalizing a with
  | nil => simp [merge, keys]
  | cons m b ih =>
    obtain ⟨k, v⟩ := m
    rw [meanings_cons, List.nodup_cons] at hb
    have hne : ∀ k' ∈ keys b, k'.meaning ≠ k.meaning := by
      intro k' hk' hsame
      apply hb.1
      rw [← hsame, ← map_meaning_keys]
      exact List.mem_map_of_mem hk'
    have hfilter : (keys b).filter (fun k' => k'.meaning ∉ meanings (put a k (combine (get? a k) v))) =
        (keys b).filter fun k' => k'.meaning ∉ meanings a := by
      apply List.filter_congr
      intro k' hk'
      simp [mem_meanings_put, hne k' hk']
    rw [merge, ih hb.2, hfilter, keys_put]
    by_cases hmem : k.meaning ∈ meanings a
    · simp [keys, hmem]
    · simp [keys, hmem]

/-! ## Associativity -/

/-- Three objects that are alike can be merged in either order, if the values under one key can. -/
theorem merge_assoc_of_values {a b c : Members} (ha : (meanings a).Nodup) (hb : (meanings b).Nodup)
    (hc : (meanings c).Nodup)
    (hvalues : ∀ k u v w, get? a k = some u → get? b k = some v → get? c k = some w →
      combine (some u) (combine (some v) w) = combine (some (combine (some u) v)) w) :
    merge a (merge b c) = merge (merge a b) c := by
  have hbc := nodup_meanings_merge (b := c) hb
  apply ext_of_keys
  · rw [keys_merge hbc, keys_merge hc, keys_merge hc, keys_merge hb, List.filter_append,
      List.filter_filter, List.append_assoc]
    simp only [mem_meanings_merge, not_or, Bool.decide_and]
  · exact nodup_meanings_merge ha
  · intro k
    rw [get?_merge hbc, get?_merge hc, get?_merge hc, get?_merge hb]
    cases hw : get? c k with
    | none => rfl
    | some w =>
      cases hv : get? b k with
      | none => simp only [combine_none]
      | some v =>
        cases hu : get? a k with
        | none => simp only [combine_none]
        | some u => exact congrArg some (hvalues k u v w hu hv hw)

/-- The induction is on the weight of the last value, which holds those that are merged in turn. -/
theorem combine_assoc {u v w : Json} (hu : u.WellFormed) (hv : v.WellFormed) (hw : w.WellFormed)
    (huv : Alike u v) (huw : Alike u w) (hvw : Alike v w) :
    combine (some u) (combine (some v) w) = combine (some (combine (some u) v)) w := by
  induction hn : w.weight using Nat.strongRecOn generalizing u v w with
  | ind n ih =>
    subst hn
    have huv' := huv.shape_eq
    have hvw' := hvw.shape_eq
    cases w with
    | arr third =>
      obtain ⟨second, rfl⟩ := shape_eq_list_iff.1 hvw'
      obtain ⟨first, rfl⟩ := shape_eq_list_iff.1 huv'
      simp only [combine, List.append_assoc]
    | obj c =>
      obtain ⟨b, rfl⟩ := shape_eq_mapping_iff.1 hvw'
      obtain ⟨a, rfl⟩ := shape_eq_mapping_iff.1 huv'
      simp only [combine]
      congr 1
      apply merge_assoc_of_values (wellFormed_obj.1 hu).1 (wellFormed_obj.1 hv).1
        (wellFormed_obj.1 hw).1
      intro k u v w hgetu hgetv hgetw
      have hlt : w.weight < (Json.obj c).weight := by
        obtain ⟨m, hm, -, rfl⟩ := mem_of_get? hgetw
        have hle := weight_le_of_mem hm
        simp only [Json.weight]
        omega
      exact ih _ hlt (get?_wellFormed hu hgetu) (get?_wellFormed hv hgetv)
        (get?_wellFormed hw hgetw) (huv.member hgetu hgetv) (huw.member hgetu hgetw)
        (hvw.member hgetv hgetw) rfl
    | _ => rfl

theorem merge_assoc {a b c : Members} (ha : (Json.obj a).WellFormed) (hb : (Json.obj b).WellFormed)
    (hc : (Json.obj c).WellFormed) (hab : Alike (.obj a) (.obj b)) (hac : Alike (.obj a) (.obj c))
    (hbc : Alike (.obj b) (.obj c)) : merge a (merge b c) = merge (merge a b) c :=
  Json.obj.inj (combine_assoc ha hb hc hab hac hbc)

/-! ## Uniform parts -/

/-- No path of keys leads to values of different shapes in two of some objects. -/
def Uniform (parts : List Members) : Prop :=
  ∀ p ∈ parts, ∀ q ∈ parts, Alike (.obj p) (.obj q)

theorem Uniform.subset {parts parts' : List Members} (h : Uniform parts) (hsub : parts' ⊆ parts) :
    Uniform parts' :=
  fun p hp q hq => h p (hsub hp) q (hsub hq)

/-- Distinct keys at every depth of each of some objects. -/
def AllWellFormed (parts : List Members) : Prop := ∀ p ∈ parts, (Json.obj p).WellFormed

theorem AllWellFormed.subset {parts parts' : List Members} (h : AllWellFormed parts)
    (hsub : parts' ⊆ parts) : AllWellFormed parts' :=
  fun p hp => h p (hsub hp)

theorem mergeAll_append (xs ys : List Members) : mergeAll (xs ++ ys) = ys.foldl merge (mergeAll xs) :=
  List.foldl_append

theorem mergeAll_concat (xs : List Members) (y : Members) :
    mergeAll (xs ++ [y]) = merge (mergeAll xs) y :=
  mergeAll_append xs [y]

theorem wellFormed_mergeAll {parts : List Members} (h : AllWellFormed parts) :
    (Json.obj (mergeAll parts)).WellFormed :=
  Schema.stable_wellFormed.mergeAll h

theorem alike_nil (ms : Members) : Alike (.obj []) (.obj ms) := by
  intro path v w hv hw
  cases path with
  | nil =>
    cases hv
    cases hw
    rfl
  | cons => cases hv

theorem alike_mergeAll {parts : List Members} {ms : Members} (hwf : AllWellFormed parts)
    (h : ∀ p ∈ parts, Alike (.obj p) (.obj ms)) : Alike (.obj (mergeAll parts)) (.obj ms) := by
  induction parts using List.reverseRecOn with
  | nil => exact alike_nil ms
  | append_singleton parts p ih =>
    have hsub : parts ⊆ parts ++ [p] := List.subset_append_left _ _
    have hp : p ∈ parts ++ [p] := List.mem_append_right _ (List.mem_singleton.2 rfl)
    rw [mergeAll_concat]
    exact alike_merge (hwf p hp) (ih (hwf.subset hsub) fun q hq => h q (hsub hq)) (h p hp)

/-- Merging uniform objects into another one at once or one by one is the same. -/
theorem merge_mergeAll {a : Members} {parts : List Members} (hwf : AllWellFormed (a :: parts))
    (h : Uniform (a :: parts)) : merge a (mergeAll parts) = parts.foldl merge a := by
  induction parts using List.reverseRecOn with
  | nil => rfl
  | append_singleton parts p ih =>
    have hsub : a :: parts ⊆ a :: (parts ++ [p]) :=
      List.cons_subset_cons a (List.subset_append_left _ _)
    have hparts : parts ⊆ a :: parts := List.subset_cons_self _ _
    have ha : a ∈ a :: (parts ++ [p]) := List.mem_cons_self
    have hp : p ∈ a :: (parts ++ [p]) :=
      List.mem_cons_of_mem _ (List.mem_append_right _ (List.mem_singleton.2 rfl))
    have hmerged := wellFormed_mergeAll ((hwf.subset hsub).subset hparts)
    have hleft : Alike (.obj (mergeAll parts)) (.obj a) :=
      alike_mergeAll ((hwf.subset hsub).subset hparts) fun q hq => h q (hsub (hparts hq)) a ha
    have hright : Alike (.obj (mergeAll parts)) (.obj p) :=
      alike_mergeAll ((hwf.subset hsub).subset hparts) fun q hq => h q (hsub (hparts hq)) p hp
    rw [mergeAll_concat, List.foldl_append,
      merge_assoc (hwf a ha) hmerged (hwf p hp) hleft.symm (h a ha p hp) hright,
      ih (hwf.subset hsub) (h.subset hsub)]
    rfl

/-- Merging some of a list of uniform objects leaves it uniform. -/
theorem Uniform.mergeAll {xs ys : List Members} (hwf : AllWellFormed xs) (h : Uniform (xs ++ ys)) :
    Uniform (mergeAll xs :: ys) := by
  have hxs : xs ⊆ xs ++ ys := List.subset_append_left _ _
  have hys : ys ⊆ xs ++ ys := List.subset_append_right _ _
  have hmerged : ∀ p ∈ xs ++ ys, Alike (.obj (Members.mergeAll xs)) (.obj p) := fun p hp =>
    alike_mergeAll hwf fun x hx => h x (hxs hx) p hp
  intro p hp q hq
  rcases List.mem_cons.1 hp with rfl | hp
  · rcases List.mem_cons.1 hq with rfl | hq
    · exact alike_mergeAll hwf fun x hx => (hmerged x (hxs hx)).symm
    · exact hmerged q (hys hq)
  · rcases List.mem_cons.1 hq with rfl | hq
    · exact (hmerged p (hys hp)).symm
    · exact h p (hys hp) q (hys hq)

/-- Some of a list of uniform objects can be merged before the others. -/
theorem mergeAll_mergeAll {xs ys : List Members} (zs : List Members) (hwf : AllWellFormed (xs ++ ys))
    (h : Uniform (xs ++ ys)) : mergeAll (xs ++ mergeAll ys :: zs) = mergeAll (xs ++ ys ++ zs) := by
  have hxs : AllWellFormed xs := hwf.subset (List.subset_append_left _ _)
  have hys : AllWellFormed ys := hwf.subset (List.subset_append_right _ _)
  have hstart : AllWellFormed (mergeAll xs :: ys) :=
    List.forall_mem_cons.2 ⟨wellFormed_mergeAll hxs, hys⟩
  rw [mergeAll_append, List.foldl_cons, merge_mergeAll hstart (h.mergeAll hxs), mergeAll_append,
    mergeAll_append]

/-- Lists of uniform objects can be merged each for itself before their merges are. -/
theorem mergeAll_map_mergeAll (xs : List Members) {groups : List (List Members)} (zs : List Members)
    (hwf : AllWellFormed (xs ++ groups.flatten)) (h : Uniform (xs ++ groups.flatten)) :
    mergeAll (xs ++ groups.map mergeAll ++ zs) = mergeAll (xs ++ groups.flatten ++ zs) := by
  induction groups generalizing xs with
  | nil => rfl
  | cons group groups ih =>
    rw [List.flatten_cons, ← List.append_assoc] at hwf h
    have hsub : xs ++ group ⊆ xs ++ group ++ groups.flatten := List.subset_append_left _ _
    rw [List.map_cons, List.flatten_cons, List.append_assoc, List.cons_append,
      mergeAll_mergeAll _ (hwf.subset hsub) (h.subset hsub), ← List.append_assoc, ih (xs ++ group) hwf h,
      List.append_assoc xs]

/-- A list of uniform objects of which all after some are merged first, groups of them even
before that, is uniform and merges to the same. -/
theorem mergeAll_concat_mergeAll {before : List Members} {start last : Members}
    {groups : List (List Members)} (hwf : AllWellFormed (before ++ (start :: groups.flatten ++ [last])))
    (h : Uniform (before ++ (start :: groups.flatten ++ [last]))) :
    Uniform (before ++ [mergeAll (start :: (groups.map mergeAll ++ [last]))]) ∧
      mergeAll (before ++ [mergeAll (start :: (groups.map mergeAll ++ [last]))]) =
        mergeAll (before ++ (start :: groups.flatten ++ [last])) := by
  have hafter : start :: groups.flatten ++ [last] ⊆ before ++ (start :: groups.flatten ++ [last]) :=
    List.subset_append_right _ _
  have hgroups : start :: groups.flatten ⊆ start :: groups.flatten ++ [last] :=
    List.subset_append_left _ _
  have hmerged : mergeAll (start :: (groups.map mergeAll ++ [last])) =
      mergeAll (start :: groups.flatten ++ [last]) :=
    mergeAll_map_mergeAll [start] [last] ((hwf.subset hafter).subset hgroups)
      ((h.subset hafter).subset hgroups)
  rw [hmerged]
  constructor
  · have hswapped : Uniform ((start :: groups.flatten ++ [last]) ++ before) := by
      apply h.subset
      exact List.append_subset.2 ⟨hafter, List.subset_append_left _ _⟩
    apply (hswapped.mergeAll (hwf.subset hafter)).subset
    intro p hp
    rcases List.mem_append.1 hp with hp | hp
    · exact List.mem_cons_of_mem _ hp
    · exact List.mem_singleton.1 hp ▸ List.mem_cons_self
  · rw [mergeAll_mergeAll [] hwf h, List.append_nil]

/-! ## Lists under a key -/

/-- The items of the list under a key, none if there is no list. -/
def listAt (k : Key) (ms : Members) : List Json :=
  match get? ms k with
  | some (.arr items) => items
  | _ => []

theorem listAt_of_get? {k : Key} {ms : Members} {items : List Json} (h : get? ms k = some (.arr items)) :
    listAt k ms = items := by
  unfold listAt
  rw [h]

/-- Each of some objects has a list under a key, if it has anything there. -/
def HoldLists (k : Key) (parts : List Members) : Prop :=
  ∀ p ∈ parts, ∀ v, get? p k = some v → ∃ items, v = .arr items

/-- Lists that meet under a key are appended in order. -/
theorem get?_mergeAll_of_holdLists {k : Key} {parts : List Members} (hwf : AllWellFormed parts)
    (h : HoldLists k parts) :
    get? (mergeAll parts) k = none ∧ (∀ p ∈ parts, get? p k = none) ∨
      get? (mergeAll parts) k = some (.arr (parts.flatMap (listAt k))) := by
  induction parts using List.reverseRecOn with
  | nil => exact .inl ⟨rfl, nofun⟩
  | append_singleton parts p ih =>
    have hsub : parts ⊆ parts ++ [p] := List.subset_append_left _ _
    have hp : p ∈ parts ++ [p] := List.mem_append_right _ (List.mem_singleton.2 rfl)
    have hearlier := ih (hwf.subset hsub) fun q hq => h q (hsub hq)
    rw [mergeAll_concat, get?_merge (Json.wellFormed_obj.1 (hwf p hp)).1, List.flatMap_append,
      List.flatMap_singleton]
    cases hget : get? p k with
    | none =>
      have hlist : listAt k p = [] := by
        unfold listAt
        rw [hget]
      rw [hlist, List.append_nil]
      refine hearlier.imp_left fun hnone => ⟨hnone.1, fun q hq => ?_⟩
      rcases List.mem_append.1 hq with hq | hq
      · exact hnone.2 q hq
      · exact List.mem_singleton.1 hq ▸ hget
    | some v =>
      obtain ⟨items, rfl⟩ := h p hp v hget
      right
      rw [listAt_of_get? hget]
      rcases hearlier with ⟨hnone, hparts⟩ | hsome
      · have hempty : parts.flatMap (listAt k) = [] := by
          apply List.flatMap_eq_nil_iff.2
          intro q hq
          unfold listAt
          rw [hparts q hq]
        rw [hnone, hempty]
        rfl
      · rw [hsome]
        rfl

theorem holdLists_of_uniform {k : Key} {parts : List Members} {p : Members} {items : List Json}
    (h : Uniform parts) (hp : p ∈ parts) (hget : get? p k = some (.arr items)) :
    HoldLists k parts := by
  intro q hq v hv
  apply shape_eq_list_iff.1
  exact ((h q hq p hp).member hv hget).shape_eq

end Members

end ClientForge
