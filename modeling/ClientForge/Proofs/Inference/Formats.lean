-- SUMMARY: When every format that inferring a schema reads is a text or none.
import ClientForge.Proofs.Inference.Reachability

/-!
# Formats

A format that is neither a text nor null can be refused by one type table and not looked at by
another. `TextFormats document schema` says that inferring a schema reads no such format. It
speaks of the schemas that inference comes to, merged as they are, so that a property which
happens to be called `format` does not count. It holds in particular if no member called
`format`, at any depth of the document and of the schema, has another value
(`textFormats_of_written`).
-/

namespace ClientForge

/-- A text, or null for no format at all. -/
def Json.IsFormat : Json → Prop
  | .null => True
  | .str _ => True
  | _ => False

/-! ## Formats that are written -/

mutual

/-- Every member called `format`, at any depth, is a text or null. -/
def Json.WritesFormats : Json → Prop
  | .arr items => writesFormatsItems items
  | .obj members => writesFormatsMembers members
  | _ => True

def Json.writesFormatsItems : List Json → Prop
  | [] => True
  | v :: vs => v.WritesFormats ∧ writesFormatsItems vs

def Json.writesFormatsMembers : List (Key × Json) → Prop
  | [] => True
  | (k, v) :: ms => ((k = .text "format" → v.IsFormat) ∧ v.WritesFormats) ∧ writesFormatsMembers ms

end

namespace Json

theorem writesFormatsItems_iff {vs : List Json} :
    writesFormatsItems vs ↔ ∀ v ∈ vs, v.WritesFormats := by
  induction vs with
  | nil => simp [writesFormatsItems]
  | cons v vs ih => simp [writesFormatsItems, ih]

theorem writesFormats_arr {vs : List Json} :
    (arr vs).WritesFormats ↔ ∀ v ∈ vs, v.WritesFormats := by
  rw [WritesFormats, writesFormatsItems_iff]

theorem writesFormatsMembers_iff {ms : Members} : writesFormatsMembers ms ↔
    ∀ m ∈ ms, (m.1 = .text "format" → m.2.IsFormat) ∧ m.2.WritesFormats := by
  induction ms with
  | nil => simp [writesFormatsMembers]
  | cons m ms ih => simp [writesFormatsMembers, ih]

theorem writesFormats_obj {ms : Members} : (obj ms).WritesFormats ↔
    ∀ m ∈ ms, (m.1 = .text "format" → m.2.IsFormat) ∧ m.2.WritesFormats := by
  rw [WritesFormats, writesFormatsMembers_iff]

end Json

namespace Members

theorem isFormat_get {ms : Members} (h : (Json.obj ms).WritesFormats) : (get ms "format").IsFormat := by
  unfold get
  cases hget : get? ms "format" with
  | none => trivial
  | some v =>
    obtain ⟨m, hm, hmeaning, rfl⟩ := mem_of_get? hget
    exact (Json.writesFormats_obj.1 h m hm).1 (Key.meaning_eq_text_iff.1 hmeaning)

theorem isFormat_combine {v : Json} (held : Option Json) (h : v.IsFormat) :
    (combine held v).IsFormat := by
  cases v <;> first | exact h | exact h.elim

theorem memberwise_writesFormats :
    Memberwise Json.WritesFormats (fun _ => True) fun k v => k = .text "format" → v.IsFormat where
  atom {v} hv := by cases v <;> trivial
  arr := Json.writesFormats_arr
  obj := by simp [Json.writesFormats_obj]
  own_nil := trivial
  own_filter _ _ _ := trivial
  own_put _ _ _ := trivial
  fits_congr hmeaning h hkey := h (Key.meaning_eq_text_iff.1 (hmeaning.trans (congrArg _ hkey)))
  fits_combine held h hkey := isFormat_combine held (h hkey)

end Members

namespace Inference

open Members Outcome Schema

theorem stable_writesFormats : Stable Json.WritesFormats :=
  stable_of_memberwise memberwise_writesFormats

/-! ## Formats that are read -/

/-- Every format that inferring a schema reads is a text or null. -/
def TextFormats (document : Members) (schema : Json) : Prop :=
  ∀ v branch resolved, ComesTo document schema v → settle document v = .ok (branch, resolved) →
    (Members.get resolved "format").IsFormat

theorem TextFormats.step {document : Members} {schema v : Json} (h : TextFormats document schema)
    (hstep : LeadsTo document schema v) : TextFormats document v :=
  fun w branch resolved hcomes => h w branch resolved (hcomes.head hstep)

/-- Formats that are written as texts are read as texts. -/
theorem textFormats_of_written {document : Members} {schema : Json}
    (hdoc : (Json.obj document).WritesFormats) (hschema : schema.WritesFormats) :
    TextFormats document schema := by
  intro v branch resolved hcomes hsettle
  have hv := hcomes.preserves stable_writesFormats hdoc hschema
  exact isFormat_get (stable_writesFormats.resolve hdoc hv (flatten_of_settle hsettle))

end Inference

end ClientForge
