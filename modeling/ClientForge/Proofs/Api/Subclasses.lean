-- SUMMARY: A discriminated class is linked to exactly the other classes that are derived from it.
import ClientForge.Proofs.Api.Classes

/-!
# Subclasses

Linking the classes of an API goes through their list once. At every place it leaves the model
as it is, but for the subclasses of a discriminated class, which become the classes at all other
places that name it as their superclass (`getElem?_linkSubclasses`). Names and superclasses stay,
so linking once more changes nothing (`linkSubclasses_linkSubclasses`), and the subclasses of a
class can be read off the linked classes themselves. Inference leaves all lists of subclasses
empty, so a class of an API has subclasses only if it was linked to them
(`exists_link_of_subclasses`).
-/

namespace ClientForge

open Outcome Inference

namespace Assembly

/-! ## One pass -/

/-- The classes that name a class as their superclass, among all models but the one at `i`. -/
def derived (models : List Model) (i : Nat) (name : Option String) : List Subclass :=
  (models.eraseIdx i).filterMap (subclassOf name)

theorem subclassOf_eq_some_iff {name : Option String} {m : Model} {sub : Subclass} :
    subclassOf name m = some sub ↔
      ∃ head nested, m = .object head nested ∧ head.superclass = name ∧
        sub = ⟨head.name, head.specName⟩ := by
  cases m with
  | object head nested => simp [subclassOf, eq_comm]
  | _ => simp [subclassOf]

/-- The subclasses are the classes at other places, in whatever order, that name the superclass. -/
theorem mem_derived_iff {models : List Model} {i : Nat} {name : Option String} {sub : Subclass} :
    sub ∈ derived models i name ↔
      ∃ j head nested, j ≠ i ∧ models[j]? = some (.object head nested) ∧ head.superclass = name ∧
        sub = ⟨head.name, head.specName⟩ := by
  simp only [derived, List.mem_filterMap, List.mem_eraseIdx_iff_getElem?, subclassOf_eq_some_iff]
  constructor
  · rintro ⟨_, ⟨j, hj, hget⟩, head, nested, rfl, hsub⟩
    exact ⟨j, head, nested, hj, hget, hsub⟩
  · rintro ⟨j, head, nested, hj, hget, hsub⟩
    exact ⟨_, ⟨j, hj, hget⟩, head, nested, rfl, hsub⟩

theorem getElem?_linkAfter (before models : List Model) (i : Nat) :
    (linkAfter before models)[i]? = models[i]?.map (link (before ++ models.eraseIdx i)) := by
  induction models generalizing before i with
  | nil => rfl
  | cons m models ih =>
    cases i with
    | zero => rfl
    | succ i =>
      have hothers : before ++ (m :: models).eraseIdx (i + 1) = (before ++ [m]) ++ models.eraseIdx i := by
        simp
      rw [linkAfter, List.getElem?_cons_succ, List.getElem?_cons_succ, hothers]
      exact ih (before ++ [m]) i

/-- Each model is linked to the models at all other places. -/
theorem getElem?_linkSubclasses (models : List Model) (i : Nat) :
    (linkSubclasses models)[i]? = models[i]?.map (link (models.eraseIdx i)) :=
  getElem?_linkAfter [] models i

theorem getElem?_linkSubclasses_object {models : List Model} {i : Nat} {head : ClassHead}
    {nested : List Model} (h : models[i]? = some (.object head nested)) :
    (linkSubclasses models)[i]? = some (.object
      { head with
        subclasses :=
          if head.discriminator.truthy then derived models i head.name else head.subclasses }
      nested) := by
  rw [getElem?_linkSubclasses, h, Option.map_some, link]
  split <;> rfl

theorem discriminated_or_eq_of_link {others : List Model} {m : Model} {head : ClassHead}
    {nested : List Model} (h : link others m = .object head nested) :
    head.discriminator.truthy = true ∨ m = .object head nested := by
  cases m with
  | object head' nested' =>
    rw [link] at h
    split at h
    · rename_i hdiscriminated
      cases h
      exact .inl hdiscriminated
    · exact .inr h
  | _ => exact .inr h

/-! ## Passing again -/

theorem Relinked.nested_eq {m m' : Model} (h : Relinked m m') : m'.nested = m.nested := by
  rcases h with rfl | ⟨head, nested, subclasses, rfl, rfl⟩ <;> rfl

theorem subclassOf_of_relinked {m m' : Model} (h : Relinked m m') (name : Option String) :
    subclassOf name m' = subclassOf name m := by
  rcases h with rfl | ⟨head, nested, subclasses, rfl, rfl⟩ <;> rfl

theorem filterMap_subclassOf_of_relinked {models models' : List Model}
    (h : List.Forall₂ Relinked models models') (name : Option String) :
    models'.filterMap (subclassOf name) = models.filterMap (subclassOf name) := by
  induction h with
  | nil => rfl
  | cons hrelinked _ ih =>
    rw [List.filterMap_cons, List.filterMap_cons, subclassOf_of_relinked hrelinked, ih]

/-- A model is linked to others as it is to them after they have been linked. -/
theorem link_link {others others' : List Model} (h : List.Forall₂ Relinked others others')
    (m : Model) : link others' (link others m) = link others m := by
  cases m with
  | object head nested =>
    by_cases hdiscriminated : head.discriminator.truthy = true
    · simp only [link, hdiscriminated, if_true, filterMap_subclassOf_of_relinked h]
    · have hplain : ∀ others, link others (.object head nested) = .object head nested :=
        fun _ => if_neg hdiscriminated
      rw [hplain, hplain]
  | _ => rfl

theorem linkAfter_linkAfter {before before' : List Model}
    (h : List.Forall₂ Relinked before before') (models : List Model) :
    linkAfter before' (linkAfter before models) = linkAfter before models := by
  induction models generalizing before before' with
  | nil => rfl
  | cons m models ih =>
    have hothers : List.Forall₂ Relinked (before ++ models)
        (before' ++ linkAfter (before ++ [m]) models) :=
      List.rel_append h (relinked_linkAfter (before ++ [m]) models)
    have hbefore : List.Forall₂ Relinked (before ++ [m]) (before' ++ [link (before ++ models) m]) :=
      List.rel_append h (.cons (relinked_link (before ++ models) m) .nil)
    simp only [linkAfter]
    rw [link_link hothers, ih hbefore]

/-- Linking the classes again changes nothing. -/
theorem linkSubclasses_linkSubclasses (models : List Model) :
    linkSubclasses (linkSubclasses models) = linkSubclasses models :=
  linkAfter_linkAfter .nil models

/-- The subclasses of a linked class can be told from the linked classes. -/
theorem subclasses_of_linked {models : List Model} {i : Nat} {head : ClassHead}
    {nested : List Model} (h : (linkSubclasses models)[i]? = some (.object head nested))
    (hdiscriminated : head.discriminator.truthy = true) :
    head.subclasses = derived (linkSubclasses models) i head.name := by
  have hagain := getElem?_linkSubclasses_object h
  rw [linkSubclasses_linkSubclasses, h, if_pos hdiscriminated] at hagain
  simp only [Option.some.injEq, Model.object.injEq, and_true] at hagain
  exact congrArg ClassHead.subclasses hagain

end Assembly

/-! ## The classes of an API -/

open Assembly

section
variable {s : Setting} {basePath : String} {methods : List BuiltMethod} {objects enums : List Model}

/-- Before the classes are linked, no class has subclasses. -/
theorem subclasses_eq_nil_of_separate (h : Method.buildAll s basePath = .ok methods)
    (hseparate : separate (modelsOf methods) = .ok (objects, enums)) {m : Model} (hm : m ∈ objects)
    {head : ClassHead} {nested : List Model} (hoccurs : Occurs [m] (.object head nested)) :
    head.subclasses = [] := by
  obtain ⟨c, -, x, hx⟩ := made_of_separate h hseparate hm hoccurs
  exact hx.subclasses_eq_nil

/-- A class with subclasses, at any depth, is a discriminated class at the top. -/
theorem exists_link_of_subclasses (h : Method.buildAll s basePath = .ok methods)
    (hseparate : separate (modelsOf methods) = .ok (objects, enums)) {head : ClassHead}
    {nested : List Model} (hoccurs : Occurs (linkSubclasses objects) (.object head nested))
    (hsubclasses : head.subclasses ≠ []) :
    ∃ i : Nat, (linkSubclasses objects)[i]? = some (.object head nested) ∧
      head.discriminator.truthy = true := by
  obtain ⟨m', hm', hoccurs⟩ := hoccurs.exists_mem
  obtain ⟨i, hi⟩ := List.mem_iff_getElem?.1 hm'
  have hlinked := hi
  rw [getElem?_linkSubclasses, Option.map_eq_some_iff] at hlinked
  obtain ⟨m, hm, rfl⟩ := hlinked
  have hunlinked : ∀ head nested, Occurs [m] (.object head nested) → head.subclasses = [] :=
    fun _ _ => subclasses_eq_nil_of_separate h hseparate (List.mem_of_getElem? hm)
  rcases hoccurs.eq_or_nested with heq | hdeeper
  · rw [← heq] at hi
    rcases discriminated_or_eq_of_link heq.symm with hdiscriminated | rfl
    · exact ⟨i, hi, hdiscriminated⟩
    · exact absurd (hunlinked head nested (.top List.mem_cons_self)) hsubclasses
  · rw [(relinked_link _ m).nested_eq] at hdeeper
    exact absurd (hunlinked head nested (.of_nested hdeeper)) hsubclasses

end

/-- Linking classes to their subclasses is exact, changes nothing else and is done after one pass.
In an API a class has subclasses, at whatever depth it stands, only if it is a discriminated class
at the top from which another class there is derived, and none derived from it is missing. -/
theorem subclasses_exact (models : List Model) :
    (linkSubclasses models).length = models.length ∧
    (∀ (i : Nat) head nested, models[i]? = some (.object head nested) →
      (linkSubclasses models)[i]? = some (.object
        { head with
          subclasses :=
            if head.discriminator.truthy then derived models i head.name else head.subclasses }
        nested)) ∧
    linkSubclasses (linkSubclasses models) = linkSubclasses models ∧
    ∀ types document name basePath api,
      ApiModel.build types document name basePath = .ok api → ∀ head nested,
        (Occurs api.objects (.object head nested) → head.subclasses ≠ [] →
          head.discriminator.truthy = true ∧
          ∃ (i j : Nat) (other : ClassHead) (below : List Model), api.objects[i]? = some (.object head nested) ∧ j ≠ i ∧
            api.objects[j]? = some (.object other below) ∧ other.superclass = head.name) ∧
        ∀ (i j : Nat) (other : ClassHead) (below : List Model), api.objects[i]? = some (.object head nested) →
          head.discriminator.truthy = true → j ≠ i →
          api.objects[j]? = some (.object other below) → other.superclass = head.name →
          ⟨other.name, other.specName⟩ ∈ head.subclasses := by
  refine ⟨(linkSubclasses_unchanged models).length_eq.symm,
    fun i head nested h => getElem?_linkSubclasses_object h,
    linkSubclasses_linkSubclasses models, ?_⟩
  intro types document name basePath api hapi head nested
  obtain ⟨base, methods, objects, enums, hmethods, hseparate, rfl⟩ :=
    exists_methods_of_build (s := ⟨document, types⟩) hapi
  refine ⟨fun hoccurs hsubclasses => ?_, fun i j other below hi hdiscriminated hj hother hsuper => ?_⟩
  · obtain ⟨i, hi, hdiscriminated⟩ :=
      exists_link_of_subclasses hmethods hseparate hoccurs hsubclasses
    rw [subclasses_of_linked hi hdiscriminated] at hsubclasses
    obtain ⟨sub, hsub⟩ := List.exists_mem_of_ne_nil _ hsubclasses
    obtain ⟨j, other, below, hj, hother, hsuper, -⟩ := mem_derived_iff.1 hsub
    exact ⟨hdiscriminated, i, j, other, below, hi, hj, hother, hsuper⟩
  · rw [subclasses_of_linked hi hdiscriminated]
    exact mem_derived_iff.2 ⟨j, other, below, hj, hother, hsuper, rfl⟩

/-- The subclasses to which a model is linked. -/
def Model.subclasses : Model → List Subclass
  | .object head _ => head.subclasses
  | _ => []

/-- A dog that is on show. Animals are told apart by their kinds. -/
def showDocument : Document where
  members :=
    [("paths", .obj [("/dogs", .obj [("get", .obj
        [("operationId", .str "showDog"),
          ("responses", .obj [("200", .obj [("schema", refTo "#/definitions/Dog")])])])])]),
      ("definitions", .obj
        [("Animal", .obj [("type", .str "object"), ("discriminator", .str "kind"),
            ("properties", .obj [("kind", .obj [("type", .str "string")])])]),
          ("Dog", .obj [("allOf", .arr
            [refTo "#/definitions/Animal",
              .obj [("type", .str "object"), ("properties", .obj [])]])])])]

theorem build_show : ∃ api head nested,
    ApiModel.build Language.swiftTypes showDocument "Show" "" = .ok api ∧
      .object head nested ∈ api.objects ∧ head.subclasses = [⟨some "Dog", some "Dog"⟩] := by
  have hbuilds : ((ApiModel.build Language.swiftTypes showDocument "Show" "").toOption.any
      fun api => api.objects.any fun m => m.subclasses = [⟨some "Dog", some "Dog"⟩]) = true := by
    decide +kernel
  obtain ⟨api, hbuild, hany⟩ := exists_ok_of_any hbuilds
  obtain ⟨m, hm, hsubclasses⟩ := List.any_eq_true.1 hany
  cases m with
  | object head nested => exact ⟨api, head, nested, hbuild, hm, of_decide_eq_true hsubclasses⟩
  | enumeration | property => cases hsubclasses

theorem subclasses_exact_show :
    ∃ api head nested, ApiModel.build Language.swiftTypes showDocument "Show" "" = .ok api ∧
      head.subclasses = [⟨some "Dog", some "Dog"⟩] ∧ head.discriminator.truthy = true ∧
      ∃ (i j : Nat) (other : ClassHead) (below : List Model),
        api.objects[i]? = some (.object head nested) ∧ j ≠ i ∧
        api.objects[j]? = some (.object other below) ∧ other.superclass = head.name := by
  obtain ⟨api, head, nested, hbuild, hmem, hsubclasses⟩ := build_show
  obtain ⟨-, -, -, hbuilt⟩ := subclasses_exact api.objects
  have hlinked := (hbuilt _ _ _ _ api hbuild head nested).1 (.top hmem) (by simp [hsubclasses])
  exact ⟨api, head, nested, hbuild, hsubclasses, hlinked⟩

end ClientForge
