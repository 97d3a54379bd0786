-- SUMMARY: A property for an object written in place has a model of its own nested in the class, and its type is both their names.
import ClientForge.Proofs.Inference.Closed
import ClientForge.Proofs.Name.Dots

/-!
# Objects written in place

A property whose schema is an object written in place gets a model nested in the class, and
the names of the class and of this model, joined by a dot, are its type (`exists_placed`). There
is no other dot: names that calls are given have none (`Reaches.undotted`).
-/

namespace ClientForge

namespace Inference

open Members Outcome Schema

section
variable {s : Setting} {c d : Call} {o : ObjectPlan} {m : Key × Json} {part : Contribution}

/-! ## The names of calls -/

theorem Call.undotted_ownName (h : Undotted c.name) : Undotted c.ownName := by
  unfold Call.ownName Call.className?
  cases c.ref? with
  | none => exact h
  | some ref => exact Name.undotted_ofClass _

/-- What is in a container is named after it. -/
theorem planOfKind_container_name {trail : Trail} {name : String} {specName : Key} {branch : Option Json}
    {resolved : Members} {kind : Schema.Kind} {k : Container} {inner : Call}
    (h : planOfKind s trail name specName branch resolved kind = .ok (.container k inner)) :
    inner.name = name ∨ inner.name = Name.ofClass [name, "value"] := by
  cases kind with
  | enumeration =>
    obtain ⟨found, -, h⟩ := map_eq_ok.1 h
    cases h
  | array =>
    simp only [planOfKind] at h
    split at h <;> cases h
    exact .inl rfl
  | object =>
    obtain ⟨required, -, h⟩ := bind_eq_ok.1 h
    obtain ⟨properties, -, h⟩ := bind_eq_ok.1 h
    cases h
  | map =>
    simp only [planOfKind] at h
    split at h <;> cases h
    exact .inr rfl
  | void => cases h
  | primitive =>
    obtain ⟨found, -, h⟩ := map_eq_ok.1 h
    cases h

theorem undotted_of_container {k : Container} {inner : Call}
    (h : plan s c = .ok (.container k inner)) (hc : Undotted c.name) : Undotted inner.name := by
  rcases plan_eq_ok h with ⟨-, h⟩ | ⟨name, -, h⟩ | ⟨-, branch, resolved, kind, -, -, h⟩
  · cases h
  · cases h
  · rcases planOfKind_container_name h with hname | hname
    · exact hname ▸ Call.undotted_ownName hc
    · exact hname ▸ Name.undotted_ofClass _

theorem Nested.undotted (h : Nested s c d) (hc : Undotted c.name) : Undotted d.name := by
  cases h with
  | inner h => exact undotted_of_container h hc
  | property => exact Name.undotted_ofClassFrom _ _
  | base => exact List.not_mem_nil

theorem Reaches.undotted (h : Reaches s c d) (hc : Undotted c.name) : Undotted d.name := by
  induction h with
  | refl => exact hc
  | tail _ hnested ih => exact hnested.undotted ih

/-! ## Properties -/

/-- A property, as it is inferred for a member of the properties of a schema, and the first of
the models that are inferred with it. -/
def ObjectPlan.Places (s : Setting) (o : ObjectPlan) (m : Key × Json) (p : Property) (n : Model) : Prop :=
  ∃ spoken found, m.1.toJson.shown = .ok spoken ∧ Returns s (o.propertyCall spoken m.2) found ∧
    p = (o.contribution m spoken found).property ∧ found.models.head? = some n

theorem wellFormed_property (hschema : c.schema.WellFormed) (hd : Reaches s c d)
    (hplan : plan s d = .ok (.object o)) :
    ∀ m ∈ o.properties, m.2.WellFormed := by
  have ho := plan_object hplan
  have hresolved : (Json.obj o.schema).WellFormed :=
    wellFormed_of_settle (Reaches.wellFormed hd hschema) ho.settled
  exact fun m hm =>
    (within_of_propertySchemas ho.properties hm).preserves stable_wellFormed.toHereditary hresolved

/-- For an object written in place one model is nested, named after the key of the property. -/
theorem exists_placed (hwf : m.2.WellFormed) (hinline : isInlineObject m.2 = true)
    (h : o.Contributed s m part) :
    ∃ n key, part.nested = [n] ∧ o.Places s m part.property n ∧ m.1.toJson.shown = .ok key ∧
      n.name = some (propertyModelName o.name key true) ∧
      part.property.type = some (String.join [o.name, ".", propertyModelName o.name key true]) := by
  obtain ⟨key, found, hkey, hfound, rfl⟩ := h
  obtain ⟨htype, n, rest, hmodels, hname⟩ := exists_first_of_isInlineObject hwf hinline hfound
  have hown : (o.propertyCall key m.2).ownName = propertyModelName o.name key true := by
    rw [ownName_of_isInlineObject hinline, ObjectPlan.propertyCall, hinline]
  have hfirst : found.models.head? = some n := by rw [hmodels]; rfl
  have hnested : (o.contribution m key found).nested = [n] := by
    simp [ObjectPlan.contribution, hinline, hmodels]
  refine ⟨n, key, hnested, ⟨key, found, hkey, hfound, rfl, hfirst⟩, hkey, hown ▸ hname, ?_⟩
  rw [← hown, ← htype]
  simp [ObjectPlan.contribution, hinline]

/-- For any other property none is. -/
theorem nested_eq_nil (hinline : isInlineObject m.2 = false) (h : o.Contributed s m part) :
    part.nested = [] := by
  obtain ⟨key, found, -, -, rfl⟩ := h
  simp [ObjectPlan.contribution, hinline]

end

end Inference

end ClientForge
