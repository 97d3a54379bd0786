-- SUMMARY: Resolving a schema needs no more steps than there are fresh references.
import ClientForge.Schema.Resolve

/-!
# Steps of resolving

Following a reference uses it up, so resolving never asks how to go on with as
many fresh references as it has. Two ways to go on that agree on fewer therefore
give the same result (`resolveBy_congr`), and the number of steps does not matter
once it reaches the number of fresh references (`resolveWith_eq`). With that many
steps resolving satisfies the equation of an unbounded search
(`resolveWith_eq_resolveBy`).
-/

namespace ClientForge

namespace Schema

/-! ## Ways to go on -/

/-- Two ways to go on that agree wherever fewer than `n` references are fresh. -/
def Agree (n : Nat) (f g : Follow) : Prop :=
  ∀ m fresh v, fresh.length < n → f m fresh v = g m fresh v

theorem Agree.mono {n k : Nat} {f g : Follow} (h : Agree n f g) (le : k ≤ n) : Agree k f g :=
  fun m fresh v lt => h m fresh v (Nat.lt_of_lt_of_le lt le)

mutual

theorem resolveBy_congr {document : Members} {ignored : Json} {f g : Follow} (m : Mode)
    (fresh : List String) (h : Agree fresh.length f g) (v : Json) :
    resolveBy document ignored f m fresh v = resolveBy document ignored g m fresh v := by
  match v with
  | .obj ms =>
    have same : branchParts document ignored f m fresh ms =
        branchParts document ignored g m fresh ms := branchParts_congr m fresh h ms
    have less : ∀ s ∈ fresh,
        branchParts document ignored f m (without fresh s) ms =
          branchParts document ignored g m (without fresh s) ms := fun s hs =>
      branchParts_congr m _ (h.mono (Nat.le_of_lt (length_without_lt hs))) ms
    simp only [resolveBy, same]
    split
    · rfl
    · rename_i ref _
      cases ref.key with
      | error e => rfl
      | ok k =>
        cases k with
        | str s =>
          simp only [bind, Except.bind]
          split
          · rename_i hs
            simp only [less s hs]
            cases Pointer.target document ref with
            | error e => rfl
            | ok start =>
              cases branchParts document ignored g m (without fresh s) ms with
              | error e => rfl
              | ok parts => exact h _ _ _ (length_without_lt hs)
          · rfl
        | _ => rfl
  | .null => rfl
  | .bool _ => rfl
  | .int _ => rfl
  | .float _ => rfl
  | .str _ => rfl
  | .arr _ => rfl

theorem branchParts_congr {document : Members} {ignored : Json} {f g : Follow} (m : Mode)
    (fresh : List String) (h : Agree fresh.length f g) (ms : List (Key × Json)) :
    branchParts document ignored f m fresh ms = branchParts document ignored g m fresh ms := by
  match ms with
  | [] => rfl
  | (k, v) :: rest =>
    simp only [branchParts, resolveBranches_congr m fresh h v, branchParts_congr m fresh h rest]

theorem resolveBranches_congr {document : Members} {ignored : Json} {f g : Follow} (m : Mode)
    (fresh : List String) (h : Agree fresh.length f g) (v : Json) :
    resolveBranches document ignored f m fresh v =
      resolveBranches document ignored g m fresh v := by
  match v with
  | .arr items => simp only [resolveBranches, resolveEach_congr m.ofBranches fresh h items]
  | .null => rfl
  | .bool _ => rfl
  | .int _ => rfl
  | .float _ => rfl
  | .str _ => rfl
  | .obj _ => rfl

theorem resolveEach_congr {document : Members} {ignored : Json} {f g : Follow} (m : Mode)
    (fresh : List String) (h : Agree fresh.length f g) (vs : List Json) :
    resolveEach document ignored f m fresh vs = resolveEach document ignored g m fresh vs := by
  match vs with
  | [] => rfl
  | v :: rest =>
    simp only [resolveEach, resolveBy_congr m fresh h v, resolveEach_congr m fresh h rest]

end

/-! ## Steps -/

/-- One step more than there are fresh references changes nothing. -/
theorem resolveWith_succ {document : Members} {ignored : Json} (steps : Nat) :
    ∀ (m : Mode) (fresh : List String) (v : Json), fresh.length ≤ steps →
      resolveWith document ignored (steps + 1) m fresh v =
        resolveWith document ignored steps m fresh v := by
  induction steps with
  | zero =>
    intro m fresh v le
    exact resolveBy_congr m fresh (fun _ _ _ lt => by omega) v
  | succ steps ih =>
    intro m fresh v le
    exact resolveBy_congr m fresh (fun m' fresh' v' lt => ih m' fresh' v' (by omega)) v

/-- As many steps as fresh references are enough. -/
theorem resolveWith_eq {document : Members} {ignored : Json} {steps : Nat} {fresh : List String}
    (le : fresh.length ≤ steps) (m : Mode) (v : Json) :
    resolveWith document ignored steps m fresh v =
      resolveWith document ignored fresh.length m fresh v := by
  induction le with
  | refl => rfl
  | step le ih => rw [resolveWith_succ _ m fresh v le, ih]

/-- With enough steps, going on from a reference is resolving again. -/
theorem resolveWith_eq_resolveBy {document : Members} {ignored : Json} {steps : Nat}
    {fresh : List String} (le : fresh.length ≤ steps) (m : Mode) (v : Json) :
    resolveWith document ignored steps m fresh v =
      resolveBy document ignored (resolveWith document ignored steps) m fresh v :=
  (resolveWith_succ steps m fresh v le).symm

end Schema

end ClientForge
