-- SUMMARY: Values with distinct keys at every depth, and documents, which are made of them.
import ClientForge.Json.Lookup
import ClientForge.Json.Reader

/-!
# Well-formed values

However members are written one after another, the object has distinct keys
(`Json.wellFormed_ofWritten`), so what is read is well-formed (`Json.wellFormed_of_read`). A
`Document` is an object that is.
-/

namespace ClientForge

namespace Members

theorem mem_put {ms : Members} {k : Key} {v : Json} {m : Key × Json} (h : m ∈ put ms k v) :
    m ∈ ms ∨ m.1.meaning = k.meaning ∧ m.2 = v := by
  induction ms with
  | nil => exact .inr (by simp_all [put])
  | cons m' ms ih =>
    simp only [put] at h
    split at h
    · rename_i same
      rcases List.mem_cons.1 h with rfl | h
      · exact .inr ⟨same, rfl⟩
      · exact .inl (List.mem_cons_of_mem _ h)
    · rcases List.mem_cons.1 h with rfl | h
      · exact .inl List.mem_cons_self
      · exact (ih h).imp_left (List.mem_cons_of_mem _)

end Members

namespace Json

theorem wellFormedMembers_iff {ms : Members} :
    wellFormedMembers ms ↔ ∀ m ∈ ms, m.2.WellFormed := by
  induction ms with
  | nil => simp [wellFormedMembers]
  | cons m ms ih => simp [wellFormedMembers, ih]

theorem wellFormedItems_iff {vs : List Json} : wellFormedItems vs ↔ ∀ v ∈ vs, v.WellFormed := by
  induction vs with
  | nil => simp [wellFormedItems]
  | cons v vs ih => simp [wellFormedItems, ih]

theorem wellFormed_arr {vs : List Json} : (arr vs).WellFormed ↔ ∀ v ∈ vs, v.WellFormed := by
  rw [WellFormed, wellFormedItems_iff]

theorem wellFormed_obj {ms : Members} :
    (obj ms).WellFormed ↔ (Members.meanings ms).Nodup ∧ ∀ m ∈ ms, m.2.WellFormed := by
  rw [WellFormed, wellFormedMembers_iff]

mutual

instance decidableWellFormed : (v : Json) → Decidable v.WellFormed
  | .null => .isTrue trivial
  | .bool _ => .isTrue trivial
  | .int _ => .isTrue trivial
  | .float _ => .isTrue trivial
  | .str _ => .isTrue trivial
  | .arr items => decidableWellFormedItems items
  | .obj members =>
    @instDecidableAnd _ _ (inferInstanceAs (Decidable (Members.meanings members).Nodup))
      (decidableWellFormedMembers members)

instance decidableWellFormedItems : (vs : List Json) → Decidable (wellFormedItems vs)
  | [] => .isTrue trivial
  | v :: vs => @instDecidableAnd _ _ (decidableWellFormed v) (decidableWellFormedItems vs)

instance decidableWellFormedMembers :
    (ms : List (Key × Json)) → Decidable (wellFormedMembers ms)
  | [] => .isTrue trivial
  | (_, v) :: ms =>
    @instDecidableAnd _ _ (decidableWellFormed v) (decidableWellFormedMembers ms)

end

/-! ## Reading -/

theorem wellFormed_put {ms : Members} {v : Json} (hms : (obj ms).WellFormed) (hv : v.WellFormed)
    (k : Key) : (obj (Members.put ms k v)).WellFormed := by
  obtain ⟨hnodup, hvalues⟩ := wellFormed_obj.1 hms
  refine wellFormed_obj.2 ⟨Members.nodup_meanings_put hnodup k v, fun m hm => ?_⟩
  rcases Members.mem_put hm with hm | ⟨-, hvalue⟩
  · exact hvalues m hm
  · exact hvalue ▸ hv

theorem wellFormed_ofWritten {written : List (Key × Json)} (h : ∀ m ∈ written, m.2.WellFormed) :
    (obj (Members.ofWritten written)).WellFormed := by
  have hputs (start : Members) (hstart : (obj start).WellFormed) :
      (obj (written.foldl (fun ms kv => Members.put ms kv.1 kv.2) start)).WellFormed := by
    induction written generalizing start with
    | nil => exact hstart
    | cons first written ih =>
      obtain ⟨hfirst, hrest⟩ := List.forall_mem_cons.1 h
      exact ih hrest _ (wellFormed_put hstart hfirst first.1)
  exact hputs [] (wellFormed_obj.2 ⟨List.nodup_nil, List.forall_mem_nil _⟩)

namespace Reader

/-- What is read at the start of a text, if anything is, has a property. -/
def Gives {α : Type} (P : α → Prop) (r : Except ReadFault (α × List Char)) : Prop :=
  ∀ a rest, r = .ok (a, rest) → P a

variable {α β : Type} {P : α → Prop} {Q : β → Prop}

theorem gives_ok {a : α} {rest : List Char} (h : P a) : Gives P (.ok (a, rest)) := by
  rintro _ _ ⟨⟩
  exact h

theorem gives_error (e : ReadFault) : Gives P (.error e) := nofun

theorem Gives.bind {r : Except ReadFault (α × List Char)}
    {f : α × List Char → Except ReadFault (β × List Char)} (hr : Gives P r)
    (hf : ∀ a rest, P a → Gives Q (f (a, rest))) : Gives Q (r >>= f) := by
  cases r with
  | error e => exact gives_error e
  | ok found => exact hf found.1 found.2 (hr _ _ rfl)

theorem gives_constantOf? {words : List (List Char × Except ReadFault Json)} {cs : List Char}
    {r : Except ReadFault (Json × List Char)}
    (hwords : ∀ w ∈ words, ∀ v, w.2 = .ok v → v.WellFormed) (h : constantOf? words cs = some r) :
    Gives WellFormed r := by
  induction words with
  | nil => cases h
  | cons w words ih =>
    obtain ⟨hw, hrest⟩ := List.forall_mem_cons.1 hwords
    obtain ⟨word, found⟩ := w
    rw [constantOf?] at h
    split at h
    · cases h
      cases found with
      | error e => exact gives_error e
      | ok v => exact gives_ok (hw v rfl)
    · exact ih hrest h

theorem wellFormed_of_mem_constants :
    ∀ w ∈ constants, ∀ v, w.2 = .ok v → v.WellFormed := by
  intro w hw v hv
  simp only [constants, List.mem_cons, List.not_mem_nil, or_false] at hw
  rcases hw with rfl | rfl | rfl | rfl | rfl | rfl <;> cases hv <;> exact trivial

theorem gives_number (cs : List Char) : Gives WellFormed (number cs) := by
  intro v rest h
  unfold number at h
  simp only at h
  split at h
  · cases h
  · unfold numberOf at h
    split at h
    · simp only at h
      split at h <;> cases h
      exact trivial
    · cases h
      exact trivial

/-- Values, items and members at the start of a text are well-formed. -/
theorem gives_wellFormed (fuel : Nat) :
    (∀ cs, Gives WellFormed (value fuel cs)) ∧
      (∀ cs, Gives (fun vs => ∀ v ∈ vs, v.WellFormed) (items fuel cs)) ∧
      (∀ cs, Gives (fun ms => ∀ m ∈ ms, m.2.WellFormed) (members fuel cs)) := by
  induction fuel with
  | zero => exact ⟨fun _ => gives_error _, fun _ => gives_error _, fun _ => gives_error _⟩
  | succ fuel ih =>
    obtain ⟨hvalue, hitems, hmembers⟩ := ih
    refine ⟨fun cs => ?_, fun cs => ?_, fun cs => ?_⟩
    · unfold value
      split
      · exact Gives.bind (fun _ _ _ => trivial) fun s rest _ => gives_ok trivial
      · split
        · exact gives_ok trivial
        · exact (hitems _).bind fun vs rest hvs => gives_ok (wellFormed_arr.2 hvs)
      · split
        · exact gives_ok (wellFormed_ofWritten (List.forall_mem_nil _))
        · exact (hmembers _).bind fun ms rest hms => gives_ok (wellFormed_ofWritten hms)
      · split
        · rename_i hconstant
          exact gives_constantOf? wellFormed_of_mem_constants hconstant
        · exact gives_number _
    · unfold items
      refine (hvalue cs).bind fun v rest hv => ?_
      dsimp only
      split
      · exact gives_ok (List.forall_mem_singleton.2 hv)
      · refine (hitems _).bind fun vs rest hvs => ?_
        exact gives_ok (List.forall_mem_cons.2 ⟨hv, hvs⟩)
      · exact gives_error _
    · unfold members
      split
      · refine Gives.bind (P := fun _ => True) (fun _ _ _ => trivial) fun k rest _ => ?_
        dsimp only
        split
        · refine (hvalue _).bind fun v rest hv => ?_
          dsimp only
          split
          · exact gives_ok (List.forall_mem_singleton.2 hv)
          · refine (hmembers _).bind fun ms rest hms => ?_
            exact gives_ok (List.forall_mem_cons.2 ⟨hv, hms⟩)
          · exact gives_error _
        · exact gives_error _
      · exact gives_error _

end Reader

/-- What a whole text denotes has distinct keys at every depth. -/
theorem wellFormed_of_read {cs : List Char} {v : Json} (h : read cs = .ok v) : v.WellFormed := by
  unfold read at h
  cases hvalue : Reader.value (cs.length + 1) (Reader.skipSpace cs) with
  | error e =>
    rw [hvalue] at h
    cases h
  | ok found =>
    rw [hvalue] at h
    have hfound : found.1.WellFormed := (Reader.gives_wellFormed _).1 _ _ _ hvalue
    simp only [bind, Except.bind] at h
    split at h <;> cases h
    exact hfound

end Json

/-! ## Documents -/

/-- A value with distinct keys at every depth, as readers give it. -/
abbrev Json.Sound : Type := { v : Json // v.WellFormed }

/-- What has been read, with what is known of it. -/
def Json.sound : (r : Except ReadFault Json) → (∀ v, r = .ok v → v.WellFormed) →
    Except ReadFault Json.Sound
  | .ok v, h => .ok ⟨v, h v rfl⟩
  | .error e, _ => .error e

/-- An object with distinct keys at every depth. -/
structure Document where
  members : Members
  wellFormed : (Json.obj members).WellFormed := by decide +kernel
deriving Repr

instance : Inhabited Document := ⟨{ members := [] }⟩

instance : Coe Document Members := ⟨Document.members⟩

end ClientForge
