-- SUMMARY: What a schema of some kind says, and which kinds members can have.
import ClientForge.Proofs.Outcome
import ClientForge.Schema.Kind

/-!
# Kinds

A schema has a kind if it has none of the unsupported keywords and its type is a text or
missing (`kind_eq_ok`). It is void if it names no type and has no member that tells a
kind (`kind_eq_void_iff`).
-/

namespace ClientForge

namespace Schema

open Outcome

/-- The members by which a schema without a type has a kind, or is refused. -/
def tellingKeywords : List String :=
  unsupportedKeywords ++ ["enum", "properties", "additionalProperties"]

/-- A schema says nothing of its kind but, perhaps, by its type. -/
def IsSilent (ms : Members) : Prop := ∀ keyword ∈ tellingKeywords, Members.has ms (.text keyword) = false

theorem type?_eq_none_iff {ms : Members} : type? ms = .ok none ↔ Members.get ms "type" = .null := by
  unfold type?
  cases Members.get ms "type" <;> simp

theorem kindOfType_eq_void_iff {ms : Members} {type : Option String} :
    kindOfType ms type = .void ↔ type = none ∧ Members.has ms "enum" = false ∧
      Members.has ms "properties" = false ∧ Members.has ms "additionalProperties" = false := by
  unfold kindOfType
  cases type with
  | none =>
    cases Members.has ms "enum" <;> cases Members.has ms "properties" <;>
      cases Members.has ms "additionalProperties" <;> simp
  | some type =>
    simp only [Option.some.injEq, reduceCtorEq, false_and, false_or, or_false, if_false, iff_false]
    repeat' split
    all_goals simp

theorem kind_eq_ok {ms : Members} {found : Kind} (h : kind ms = .ok found) :
    (∀ keyword ∈ unsupportedKeywords, Members.has ms (.text keyword) = false) ∧
      ∃ type, type? ms = .ok type ∧ kindOfType ms type = found := by
  unfold kind at h
  cases hfind : unsupportedKeywords.find? fun k => Members.has ms (.text k) with
  | some keyword => rw [hfind] at h; cases h
  | none =>
    rw [hfind] at h
    obtain ⟨type, htype, hfound⟩ := bind_eq_ok.1 h
    refine ⟨fun keyword hmem => ?_, type, htype, Except.ok.inj hfound⟩
    exact Bool.eq_false_iff.2 (List.find?_eq_none.1 hfind keyword hmem)

theorem kind_eq_void_iff {ms : Members} :
    kind ms = .ok .void ↔ Members.get ms "type" = .null ∧ IsSilent ms := by
  unfold IsSilent tellingKeywords
  rw [List.forall_mem_append]
  constructor
  · intro h
    obtain ⟨hsupported, type, htype, hkind⟩ := kind_eq_ok h
    obtain ⟨rfl, henum, hproperties, hadditional⟩ := kindOfType_eq_void_iff.1 hkind
    refine ⟨type?_eq_none_iff.1 htype, hsupported, ?_⟩
    simp [henum, hproperties, hadditional]
  · rintro ⟨htype, hsupported, htelling⟩
    have hfind : (unsupportedKeywords.find? fun k => Members.has ms (.text k)) = none :=
      List.find?_eq_none.2 fun keyword hmem => by simp [hsupported keyword hmem]
    unfold kind
    rw [hfind, type?_eq_none_iff.2 htype]
    refine congrArg Except.ok (kindOfType_eq_void_iff.2 ⟨rfl, ?_⟩)
    exact ⟨htelling _ (by simp), htelling _ (by simp), htelling _ (by simp)⟩

/-- An object has properties. -/
theorem has_properties_of_kind {ms : Members} (h : kind ms = .ok .object) :
    Members.has ms "properties" = true := by
  obtain ⟨_, type, _, hkind⟩ := kind_eq_ok h
  by_contra hnone
  unfold kindOfType at hkind
  simp only [hnone, and_false, if_false] at hkind
  repeat' split at hkind
  all_goals cases hkind

/-- Members that say that they are an object and have properties are an object, unless they
are an enumeration. -/
theorem kind_of_type_object {ms : Members} {found : Kind} (htype : Members.get ms "type" = .str "object")
    (hproperties : Members.has ms "properties" = true) (h : kind ms = .ok found) :
    found = .enumeration ∨ found = .object := by
  obtain ⟨_, type, htype', rfl⟩ := kind_eq_ok h
  unfold type? at htype'
  rw [htype] at htype'
  cases htype'
  unfold kindOfType
  split
  · exact .inl rfl
  · simp [hproperties]

end Schema

end ClientForge
