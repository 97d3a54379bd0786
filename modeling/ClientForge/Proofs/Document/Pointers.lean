-- SUMMARY: References point to the same places of alike documents.
import ClientForge.Pointer
import ClientForge.Proofs.Document.Alike

/-!
# Pointers into alike documents

A reference leads through alike values of two alike documents, so it has a target in both or
in neither (`both_target`). What the target is alike as depends on where the reference leads;
under the definitions and the shared parameters and responses it is a specification
(`both_target_of_section`).
-/

namespace ClientForge

open Members Outcome

/-! ## Escapes -/

theorem Pointer.unescape_cons {c : Char} (h : c ≠ '~') (cs : List Char) :
    Pointer.unescape (c :: cs) = c :: Pointer.unescape cs := by
  rw [Pointer.unescape]
  · rintro _ rfl
    exact absurd rfl h
  · rintro _ rfl
    exact absurd rfl h

theorem unescape_of_plain {cs : List Char} (htilde : '~' ∉ Pointer.unescape cs)
    (hslash : '/' ∉ Pointer.unescape cs) : Pointer.unescape cs = cs := by
  fun_induction Pointer.unescape cs with
  | case1 cs ih => simp at hslash
  | case2 cs ih => simp at htilde
  | case3 c cs _ _ ih =>
    simp only [List.mem_cons, not_or] at htilde hslash
    rw [ih htilde.2 hslash.2]
  | case4 => rfl

section
variable {free : Prop} {ρ : Role}

/-! ## Steps -/

theorem both_step_members {ms ns : Members} (h : AlikeMembers free ρ ms ns) (ref : Json)
    (name : List Char) :
    Both (Alike free (ρ.member (.text (String.ofList name)))) (Pointer.step ref (.obj ms) name)
      (Pointer.step ref (.obj ns) name) := by
  have hvalues := h.get? (.text (String.ofList name))
  simp only [Pointer.step]
  generalize Members.get? ms (.text (String.ofList name)) = held,
    Members.get? ns (.text (String.ofList name)) = held' at hvalues
  cases hvalues with
  | none => exact .error _ _
  | some hvalue => exact .ok hvalue

theorem both_step_items {vs ws : List Json} (h : List.Forall₂ (Alike free ρ) vs ws) (ref : Json)
    (name : List Char) :
    Both (Alike free ρ) (Pointer.step ref (.arr vs) name) (Pointer.step ref (.arr ws) name) := by
  simp only [Pointer.step]
  split
  · exact .error _ _
  · split
    · exact .error _ _
    · rename_i i _
      rcases Nat.lt_or_ge i vs.length with hi | hi
      · have hi' : i < ws.length := h.length_eq ▸ hi
        rw [List.getElem?_eq_getElem hi, List.getElem?_eq_getElem hi']
        exact .ok (h.get hi hi')
      · rw [List.getElem?_eq_none hi, List.getElem?_eq_none (h.length_eq ▸ hi)]
        exact .error _ _

theorem both_step {v w : Json} (h : Alike free ρ v w) (ref : Json) (name : List Char) :
    Both (fun v w => ∃ ρ, Alike free ρ v w) (Pointer.step ref v name) (Pointer.step ref w name) := by
  cases v with
  | obj ms =>
    obtain ⟨ns, rfl, hmembers⟩ := alike_obj.1 h
    exact (both_step_members hmembers ref name).mono fun _ _ hvalue => ⟨_, hvalue⟩
  | arr vs =>
    obtain ⟨ws, rfl, hitems⟩ := alike_arr.1 h
    exact (both_step_items hitems ref name).mono fun _ _ hvalue => ⟨_, hvalue⟩
  | _ => cases w <;> first | exact .error _ _ | exact h.elim

theorem both_walk {v w : Json} (h : Alike free ρ v w) (ref : Json) (names : List (List Char)) :
    Both (fun v w => ∃ ρ, Alike free ρ v w) (Pointer.walk ref v names) (Pointer.walk ref w names) := by
  unfold Pointer.walk
  induction names generalizing ρ v w with
  | nil => exact .ok ⟨ρ, h⟩
  | cons name names ih =>
    rw [List.foldlM_cons, List.foldlM_cons]
    refine (both_step h ref name).bind fun v w _ _ hvalue => ?_
    obtain ⟨ρ', hvalue⟩ := hvalue
    exact ih hvalue

/-! ## Targets -/

/-- A value that is found where a reference points to, if it is an object. -/
def asTarget (ref : String) : Json → Except Failure Members
  | .obj members => .ok members
  | _ => .error (Pointer.fault .notAnObject (.str ref))

theorem target_eq_of_steps {document : Members} {ref : String} {names : List (List Char)}
    (hsteps : Pointer.steps? ref.toList = some names) :
    Pointer.target document (.str ref) =
      Pointer.walk (.str ref) (.obj document) names >>= asTarget ref := by
  simp only [Pointer.target, hsteps]
  rfl

theorem both_asTarget {v w : Json} (h : Alike free ρ v w) (ref : String) :
    Both (AlikeMembers free ρ) (asTarget ref v) (asTarget ref w) := by
  cases v with
  | obj ms =>
    obtain ⟨ns, rfl, hmembers⟩ := alike_obj.1 h
    exact .ok hmembers
  | _ => cases w <;> first | exact .error _ _ | exact h.elim

/-- A reference has a target in both of two alike documents or in neither. -/
theorem both_target {document document' : Members} (h : AlikeMembers free ρ document document')
    (ref : String) :
    Both (fun ms ns => ∃ ρ, AlikeMembers free ρ ms ns) (Pointer.target document (.str ref))
      (Pointer.target document' (.str ref)) := by
  cases hsteps : Pointer.steps? ref.toList with
  | none =>
    simp only [Pointer.target, hsteps]
    exact .error _ _
  | some names =>
    rw [target_eq_of_steps hsteps, target_eq_of_steps hsteps]
    refine (both_walk (alike_obj_obj.2 h) _ names).bind fun v w _ _ hvalue => ?_
    obtain ⟨ρ', hvalue⟩ := hvalue
    exact (both_asTarget hvalue ref).mono fun _ _ hmembers => ⟨ρ', hmembers⟩

theorem both_step_named {v w : Json} (h : Alike free .named v w) (ref : Json) (name : List Char) :
    Both (Alike free .specification) (Pointer.step ref v name) (Pointer.step ref w name) := by
  cases v with
  | obj ms =>
    obtain ⟨ns, rfl, hmembers⟩ := alike_obj.1 h
    have hstep := both_step_members hmembers ref name
    rwa [Role.member_named] at hstep
  | arr vs =>
    obtain ⟨ws, rfl, hitems⟩ := alike_arr.1 h
    exact both_step_items hitems ref name
  | _ => cases w <;> first | exact .error _ _ | exact h.elim

/-- What a reference to a definition, or to a shared parameter or response, points to is alike as
such. -/
theorem both_target_of_section {document document' : Members}
    (h : AlikeMembers free .document document document') {ref part : String} {name : List Char}
    (hpart : part ∈ ["definitions", "parameters", "responses"])
    (hsteps : Pointer.steps? ref.toList = some [part.toList, name]) :
    Both (AlikeMembers free .specification) (Pointer.target document (.str ref))
      (Pointer.target document' (.str ref)) := by
  have hnamed : Role.document.member (.text part) = .named := by
    simp only [List.mem_cons, List.not_mem_nil, or_false] at hpart
    rcases hpart with rfl | rfl | rfl <;> rfl
  have hsection := both_step_members h (.str ref) part.toList
  rw [String.ofList_toList, hnamed] at hsection
  rw [target_eq_of_steps hsteps, target_eq_of_steps hsteps]
  unfold Pointer.walk
  rw [List.foldlM_cons, List.foldlM_cons]
  refine Both.bind (hsection.bind fun v w _ _ hvalue => ?_) fun v w _ _ hvalue => both_asTarget hvalue ref
  rw [List.foldlM_cons, List.foldlM_cons]
  exact (both_step_named hvalue _ name).bind fun _ _ _ _ hvalue => .ok hvalue

end

end ClientForge
