-- SUMMARY: What a YAML text denotes has distinct keys at every depth.
import ClientForge.Json.WellFormed
import ClientForge.Yaml.Reader

/-!
# Well-formed values of YAML

A scalar is no object, and the members of a mapping, those it takes over included, are
written one after another.
-/

namespace ClientForge

namespace Yaml

open Json

theorem wellFormed_of_valueOf {cs : List Char} {v : Json} (h : valueOf cs = .ok v) :
    v.WellFormed := by
  unfold valueOf at h
  simp only at h
  split at h
  · rename_i numeral _
    cases hnumeral : numeral.value with
    | error e =>
      rw [hnumeral] at h
      cases h
    | ok n =>
      rw [hnumeral] at h
      cases h
      exact trivial
  · split at h <;> cases h <;> exact trivial

theorem wellFormed_of_meaning {cs : List Char} {v : Json} (h : meaning cs = .ok (.value v)) :
    v.WellFormed := by
  unfold meaning at h
  simp only at h
  repeat' split at h
  case isFalse =>
    cases hvalue : valueOf cs with
    | error e =>
      rw [hvalue] at h
      cases h
    | ok w =>
      rw [hvalue] at h
      cases h
      exact wellFormed_of_valueOf hvalue
  all_goals cases h <;> exact trivial

theorem wellFormed_plainValue (s : String) : (plainValue s).WellFormed := by
  unfold plainValue
  split
  · rename_i hmeaning
    exact wellFormed_of_meaning hmeaning
  · exact trivial

theorem wellFormed_ownMembers {v : Json} (h : v.WellFormed) : ∀ m ∈ ownMembers v, m.2.WellFormed := by
  cases v with
  | obj ms => exact (wellFormed_obj.1 h).2
  | _ => exact List.forall_mem_nil _

theorem wellFormed_takenMembers {v : Json} (h : v.WellFormed) :
    ∀ m ∈ takenMembers v, m.2.WellFormed := by
  cases v with
  | arr vs =>
    intro m hm
    obtain ⟨w, hw, hm⟩ := List.mem_flatMap.1 hm
    exact wellFormed_ownMembers (wellFormed_arr.1 h w (List.mem_reverse.1 hw)) m hm
  | _ => exact wellFormed_ownMembers h

mutual

theorem Node.wellFormed_value : (n : Node) → n.value.WellFormed
  | .quoted _ => trivial
  | .plain s => wellFormed_plainValue s
  | .sequence ns => wellFormed_arr.2 (wellFormed_itemValues ns)
  | .mapping ms => wellFormed_ofWritten (List.forall_mem_append.2
      ⟨wellFormed_takenValues ms, wellFormed_writtenValues ms⟩)

theorem wellFormed_itemValues : (ns : List Node) → ∀ v ∈ itemValues ns, v.WellFormed
  | [] => List.forall_mem_nil _
  | n :: ns => List.forall_mem_cons.2 ⟨n.wellFormed_value, wellFormed_itemValues ns⟩

theorem wellFormed_takenValues : (ms : List (Node × Node)) → ∀ m ∈ takenValues ms, m.2.WellFormed
  | [] => List.forall_mem_nil _
  | (k, v) :: ms => by
    unfold takenValues
    split
    · exact List.forall_mem_append.2
        ⟨wellFormed_takenMembers v.wellFormed_value, wellFormed_takenValues ms⟩
    · exact wellFormed_takenValues ms

theorem wellFormed_writtenValues :
    (ms : List (Node × Node)) → ∀ m ∈ writtenValues ms, m.2.WellFormed
  | [] => List.forall_mem_nil _
  | (k, v) :: ms => by
    unfold writtenValues
    split
    · exact List.forall_mem_cons.2 ⟨v.wellFormed_value, wellFormed_writtenValues ms⟩
    · exact wellFormed_writtenValues ms

end

theorem wellFormed_of_read {cs : List Char} {v : Json} (h : read cs = .ok v) : v.WellFormed := by
  unfold read at h
  split at h
  · cases h
  · cases hnode : Node.ofTokens (Token.scan (unifyBreaks cs)) with
    | error e =>
      rw [hnode] at h
      cases h
    | ok n =>
      rw [hnode] at h
      simp only [bind, Except.bind] at h
      split at h <;> cases h
      exact n.wellFormed_value

end Yaml

end ClientForge
