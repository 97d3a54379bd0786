-- SUMMARY: The operations of a document, and that the methods of its API are theirs.
import Mathlib.Data.List.Perm.Basic
import ClientForge.Proofs.Api.Starts

/-!
# Operations

The operations of a document are found path by path and verb by verb. If an API can be
built, each of them has become one method, and there are no other methods
(`exists_methods_of_operations`); a method is named after its operation, and its parameters
after those that the operation has (`named_of_build`).
-/

namespace ClientForge

open Members Outcome Schema Inference

/-- An operation, with the parameters that its path shares. -/
structure Operation where
  path : Key
  shared : Json
  verb : String
  members : Members

namespace Document

/-- The operations of a path, in the order of the verbs. -/
def operationsOf (path : Key) (item : Json) : List Operation :=
  match (item.orElse (.obj [])).members with
  | .error _ => []
  | .ok ms => Method.verbs.filterMap fun verb =>
    match (Members.get ms (.text verb)).truthy, (Members.get ms (.text verb)).members with
    | true, .ok operation => some ⟨path, Members.get ms "parameters", verb, operation⟩
    | _, _ => none

/-- The operations of a document in its own order. -/
def operations (document : Members) : List Operation :=
  match (Document.paths document).members with
  | .error _ => []
  | .ok items => items.flatMap fun item => operationsOf item.1 item.2

end Document

namespace Operation

/-- The text that the method of an operation is named after: its identifier, or else its path
and verb. -/
def source (op : Operation) : Except Failure String :=
  let id := Members.get op.members "operationId"
  if id.truthy then id.shown
  else do return Url.join [← Method.pathPart op.path.toJson, op.verb]

/-- The parameters of an operation, the shared ones first. -/
def params (op : Operation) : Except Failure (List Json) := do
  let shared ← Method.entriesOf op.shared
  let listed ← Method.entriesOf (Members.get op.members "parameters")
  return shared ++ listed

def build (s : Setting) (basePath : String) (op : Operation) : Except Failure BuiltMethod :=
  Method.ofOperation s op.path op.shared basePath op.verb op.members

end Operation

/-- The text that a parameter is named after: its name, or `response` if it has none. -/
def Param.source (document : Members) (raw : Json) : Except Failure String := do
  (Param.serverNameOf (ParamSpec.ofMembers (← Schema.flatten document raw .null))).shown

section
variable {s : Setting} {basePath : String}

/-! ## One method for every operation -/

theorem ofPathItem_eq_map {path : Key} {item : Json}
    (h : ∀ x ∈ Method.ofPathItem s basePath path item, ∃ built, x = .ok built) :
    Method.ofPathItem s basePath path item =
      (Document.operationsOf path item).map (Operation.build s basePath) := by
  unfold Method.ofPathItem at h ⊢
  unfold Document.operationsOf
  cases hitem : (item.orElse (.obj [])).members with
  | error e =>
    simp only [hitem] at h
    obtain ⟨built, hbuilt⟩ := h _ List.mem_cons_self
    cases hbuilt
  | ok ms =>
    simp only [hitem] at h
    simp only [List.map_filterMap]
    refine List.filterMap_congr fun verb hverb => ?_
    have hverb' := fun x hx => h x (List.mem_filterMap.2 ⟨verb, hverb, hx⟩)
    cases htruthy : (Members.get ms (.text verb)).truthy with
    | false => simp [Method.build, htruthy]
    | true =>
      cases hmembers : (Members.get ms (.text verb)).members with
      | error e =>
        obtain ⟨built, hbuilt⟩ := hverb' (.error e) (by simp [Method.build, htruthy, hmembers])
        cases hbuilt
      | ok operation =>
        simp only [Method.build, htruthy, hmembers, if_true, ok_bind, Operation.build, Option.map_some]
        cases Method.ofOperation s path (Members.get ms "parameters") basePath verb operation <;> rfl

theorem attempts_eq_map (h : ∀ x ∈ Method.attempts s basePath, ∃ built, x = .ok built) :
    Method.attempts s basePath =
      (Document.operations s.document).map (Operation.build s basePath) := by
  unfold Method.attempts at h ⊢
  unfold Document.operations
  cases hitems : (Document.paths s.document).members with
  | error e =>
    simp only [hitems] at h
    obtain ⟨built, hbuilt⟩ := h _ List.mem_cons_self
    cases hbuilt
  | ok items =>
    simp only [hitems] at h
    simp only [List.map_flatMap]
    refine List.flatMap_congr fun item hitem => ofPathItem_eq_map fun x hx => ?_
    exact h x (List.mem_flatMap.2 ⟨item, hitem, hx⟩)

/-- The methods are those of the operations, in another order. -/
theorem exists_methods_of_operations {methods : List BuiltMethod}
    (h : Method.buildAll s basePath = .ok methods) :
    ∃ built, List.Forall₂ (fun op b => op.build s basePath = .ok b) (Document.operations s.document) built ∧
      methods.Perm built := by
  obtain ⟨built, hbuilt, h⟩ := bind_eq_ok.1 h
  cases h
  have hattempts := mapM_eq_ok.1 hbuilt
  rw [attempts_eq_map, List.forall₂_map_left_iff] at hattempts
  · exact ⟨built, hattempts, List.mergeSort_perm built _⟩
  · intro x hx
    obtain ⟨b, -, hb⟩ := exists_of_mem_left hattempts hx
    exact ⟨b, hb⟩

/-! ## Names -/

theorem shown_anonymous {v : Json} (h : ¬ v.truthy = true) :
    (v.orElse (.str Param.anonymous)).shown = .ok Param.anonymous := by
  rw [Json.orElse, if_neg h]
  rfl

theorem name_of_param {methodName : String} {raw : Json} {built : Param × List Model}
    (h : Param.build s methodName raw = .ok built) :
    ∃ text, Param.source s.document raw = .ok text ∧ built.1.name = some (Name.camel text) := by
  unfold Param.build at h
  simp only [bind_eq_ok, pure_eq, Except.ok.injEq] at h
  obtain ⟨resolved, hresolved, spoken, hspoken, r, hr, schemaType, -, rfl⟩ := h
  refine ⟨spoken, by simp only [Param.source, hresolved, ok_bind, hspoken], ?_⟩
  by_cases hname : (ParamSpec.ofMembers resolved).name.truthy = true
  · simp [hname]
  · -- One without a name is called as camel case would call it anyway.
    have hcamel : Name.camel Param.anonymous = Param.anonymous := by decide +kernel
    cases (shown_anonymous hname).symm.trans hspoken
    simp [hname, hcamel]

theorem named_of_build {op : Operation} {built : BuiltMethod} (h : op.build s basePath = .ok built) :
    (∃ text, op.source = .ok text ∧ built.method.name = Name.camel text) ∧
      ∃ raws, op.params = .ok raws ∧ List.Forall₂ (fun raw param =>
        ∃ text, Param.source s.document raw = .ok text ∧ param.name = some (Name.camel text))
        raws built.method.params := by
  unfold Operation.build Method.ofOperation at h
  simp only [bind_eq_ok, pure_eq, Except.ok.injEq] at h
  obtain ⟨name, hname, shared, hshared, listed, hlisted, params, hparams, chosen, -, response, -, part,
    -, rfl⟩ := h
  refine ⟨?_, shared ++ listed, by simp only [Operation.params, hshared, hlisted, ok_bind, pure_eq], ?_⟩
  · unfold Method.nameOf at hname
    unfold Operation.source
    dsimp only at hname ⊢
    split at hname
    · rename_i hid
      obtain ⟨text, htext, hname⟩ := bind_eq_ok.1 hname
      obtain rfl := Except.ok.inj hname
      exact ⟨text, by rw [if_pos hid, htext], rfl⟩
    · rename_i hid
      obtain ⟨part, hpart, hname⟩ := bind_eq_ok.1 hname
      obtain rfl := Except.ok.inj hname
      exact ⟨_, by rw [if_neg hid, hpart]; rfl, rfl⟩
  · rw [List.forall₂_map_right_iff]
    exact (mapM_eq_ok.1 hparams).imp fun raw param hbuild => name_of_param hbuild

end

end ClientForge
