-- SUMMARY: Every class of an API, however deep it is nested, is made with its nested models by one call.
import ClientForge.Proofs.Api.Distinct
import ClientForge.Proofs.Api.Starts
import ClientForge.Proofs.Inference.Lineage

/-!
# Classes of an API

A class is made by a call together with the models nested in it. This is so of every class in
what a call returns, at any depth (`made_of_returns`), and of every class of an API but for the
list of its subclasses, which is put in afterwards (`made_of_buildAll`).
-/

namespace ClientForge

open Members Outcome Schema Inference

/-! ## Nesting -/

theorem Occurs.exists_mem {models : List Model} {x : Model} (h : Occurs models x) :
    ∃ m ∈ models, Occurs [m] x := by
  induction h with
  | @top m hm => exact ⟨m, hm, .top List.mem_cons_self⟩
  | nested _ hm ih =>
    obtain ⟨m, hmem, hm'⟩ := ih
    exact ⟨m, hmem, .nested hm' hm⟩

/-- What occurs in a model is the model or occurs in one that is nested in it. -/
theorem Occurs.eq_or_nested {m x : Model} (h : Occurs [m] x) : x = m ∨ Occurs m.nested x := by
  induction h with
  | top hm => exact .inl (List.mem_singleton.1 hm)
  | nested _ hm ih =>
    rcases ih with rfl | ih
    · exact .inr (.top hm)
    · exact .inr (.nested ih hm)

theorem Occurs.of_nested {m x : Model} (h : Occurs m.nested x) : Occurs [m] x := by
  induction h with
  | top hm => exact .nested (.top List.mem_cons_self) hm
  | nested _ hm ih => exact .nested ih hm

/-- Linking a class to its subclasses changes no class in it but for the list of subclasses. -/
theorem Assembly.Relinked.exists_occurs {m m' : Model} (hrelinked : Relinked m m') {head : ClassHead}
    {nested : List Model} (h : Occurs [m'] (.object head nested)) :
    ∃ subclasses, Occurs [m] (.object { head with subclasses } nested) := by
  rcases hrelinked with rfl | ⟨linked, below, subclasses, rfl, rfl⟩
  · exact ⟨head.subclasses, h⟩
  · rcases h.eq_or_nested with heq | h
    · cases heq
      exact ⟨linked.subclasses, .top List.mem_cons_self⟩
    · exact ⟨head.subclasses, .of_nested h⟩

/-! ## How classes are made -/

namespace Inference

/-- What is made on the way from a call is a class with the models nested in it. -/
structure Making.Gives {s : Setting} (x : Making s) (c : Call) (head : ClassHead)
    (nested : List Model) : Prop where
  reached : Reaches s c x.call
  head_eq : x.head = head
  nested_eq : x.nested = nested

/-- The subclasses of a class are not known to the call that makes it. -/
theorem Making.Gives.subclasses_eq_nil {s : Setting} {x : Making s} {c : Call} {head : ClassHead}
    {nested : List Model} (h : x.Gives c head nested) : head.subclasses = [] := by
  rw [← h.head_eq]
  rfl

theorem made_of_returns {s : Setting} {c : Call} {r : Inferred} (h : Returns s c r) :
    ∀ m ∈ r.models, ∀ head nested, Occurs [m] (.object head nested) →
      ∃ x : Making s, x.Gives c head nested := by
  refine forall_models_of_returns ?_ ?_ .refl h
  · intro d found _ hplan m hm head nested hoccurs
    rcases models_of_done hplan with hnone | ⟨_, resolved, -, henum⟩
    · rw [hnone] at hm
      cases hm
    · obtain ⟨e, -, rfl⟩ := exists_enumeration henum
      cases List.mem_singleton.1 hm
      rcases hoccurs.eq_or_nested with heq | hoccurs
      · cases heq
      · obtain ⟨m, hm, -⟩ := hoccurs.exists_mem
        cases hm
  · intro d o parts base hd hplan hparts hbase hnested head nested hoccurs
    rcases hoccurs.eq_or_nested with heq | hoccurs
    · cases heq
      exact ⟨⟨d, o, parts, base, hplan, hparts, hbase⟩, hd, rfl, rfl⟩
    · obtain ⟨m, hm, hoccurs⟩ := hoccurs.exists_mem
      exact hnested m hm head nested hoccurs

end Inference

/-- Every class in the models of an API is made by a call on the way from where building it
starts. -/
theorem made_of_separate {s : Setting} {basePath : String} {methods : List BuiltMethod}
    {objects enums : List Model} (h : Method.buildAll s basePath = .ok methods)
    (hseparate : Assembly.separate (Assembly.modelsOf methods) = .ok (objects, enums))
    {m : Model} (hm : m ∈ objects) {head : ClassHead} {nested : List Model}
    (hoccurs : Occurs [m] (.object head nested)) :
    ∃ c, Starts s c ∧ ∃ x : Making s, x.Gives c head nested := by
  rw [Assembly.separate_eq_ok hseparate] at hm
  obtain ⟨c, r, hstarts, hr, hmem, -⟩ :=
    exists_start_of_buildAll h (Assembly.mem_of_mem_distinct (List.mem_of_mem_filter hm))
  exact ⟨c, hstarts, made_of_returns hr m hmem _ _ hoccurs⟩

/-- So is every class of the API once the classes are linked, but for the list of its subclasses. -/
theorem made_of_buildAll {s : Setting} {basePath : String} {methods : List BuiltMethod}
    {objects enums : List Model} (h : Method.buildAll s basePath = .ok methods)
    (hseparate : Assembly.separate (Assembly.modelsOf methods) = .ok (objects, enums))
    {head : ClassHead} {nested : List Model}
    (hoccurs : Occurs (Assembly.linkSubclasses objects) (.object head nested)) :
    ∃ c, Starts s c ∧ ∃ x : Making s, x.Gives c { head with subclasses := [] } nested := by
  obtain ⟨m', hm', hoccurs⟩ := hoccurs.exists_mem
  obtain ⟨m, hm, hrelinked⟩ := exists_of_mem_right (Assembly.linkSubclasses_unchanged objects) hm'
  obtain ⟨subclasses, hoccurs⟩ := hrelinked.exists_occurs hoccurs
  obtain ⟨c, hstarts, x, hx⟩ := made_of_separate h hseparate hm hoccurs
  obtain rfl : subclasses = [] := hx.subclasses_eq_nil
  exact ⟨c, hstarts, x, hx⟩

end ClientForge
