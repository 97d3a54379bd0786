-- SUMMARY: Equality of models up to descriptions is an equivalence, and what equal models agree in.
import ClientForge.Model.Basic
import ClientForge.Proofs.Json.Equality

/-!
# Equality of models

Equality up to descriptions compares names, lists and the values in a model. If the values
have distinct keys (`Model.WellFormed`), it is an equivalence (`Model.same_self`,
`Model.same_symm`, `Model.same_trans`). Classes that are equal up to descriptions have the
same name and the same superclass, and the properties of one are those of the other.
-/

namespace ClientForge

/-! ## Lists -/

theorem sameLists_self {α : Type} {same : α → α → Bool} {as : List α}
    (h : ∀ a ∈ as, same a a = true) : sameLists same as as = true := by
  induction as with
  | nil => rfl
  | cons a as ih =>
    obtain ⟨ha, has⟩ := List.forall_mem_cons.1 h
    simp only [sameLists, ha, ih has, Bool.and_self]

theorem sameLists_iff {α : Type} {same : α → α → Bool} {as bs : List α} :
    sameLists same as bs = true ↔ List.Forall₂ (fun a b => same a b = true) as bs := by
  induction as generalizing bs with
  | nil => cases bs <;> simp [sameLists]
  | cons a as ih => cases bs <;> simp [sameLists, ih]

theorem sameLists_append {α : Type} {same : α → α → Bool} {as bs as' bs' : List α}
    (h : sameLists same as bs = true) (h' : sameLists same as' bs' = true) :
    sameLists same (as ++ as') (bs ++ bs') = true :=
  sameLists_iff.2 (List.rel_append (sameLists_iff.1 h) (sameLists_iff.1 h'))

theorem sameLists_symm {α : Type} {same : α → α → Bool} {as bs : List α}
    (hsymm : ∀ a ∈ as, ∀ b ∈ bs, same a b = true → same b a = true)
    (h : sameLists same as bs = true) : sameLists same bs as = true := by
  rw [sameLists_iff] at h ⊢
  induction h with
  | nil => exact .nil
  | cons hab _ ih =>
    refine .cons (hsymm _ List.mem_cons_self _ List.mem_cons_self hab) (ih fun a ha b hb => ?_)
    exact hsymm a (List.mem_cons_of_mem _ ha) b (List.mem_cons_of_mem _ hb)

theorem sameLists_trans {α : Type} {same : α → α → Bool} {as bs cs : List α}
    (htrans : ∀ a ∈ as, ∀ b c, same a b = true → same b c = true → same a c = true)
    (h : sameLists same as bs = true) (h' : sameLists same bs cs = true) :
    sameLists same as cs = true := by
  rw [sameLists_iff] at h h' ⊢
  induction h generalizing cs with
  | nil =>
    cases h'
    exact .nil
  | cons hab _ ih =>
    cases h' with
    | cons hbc h' =>
      refine .cons (htrans _ List.mem_cons_self _ _ hab hbc) (ih (fun a ha => ?_) h')
      exact htrans a (List.mem_cons_of_mem _ ha)

/-! ## Parts of models -/

theorem Property.same_iff {p q : Property} : p.same q = true ↔
    p.name = q.name ∧ p.specName.map Key.meaning = q.specName.map Key.meaning ∧ p.type = q.type ∧
      p.format = q.format ∧ p.isRequired = q.isRequired := by
  simp only [Property.same, sameSpecName, Bool.and_eq_true, beq_iff_eq, and_assoc]

theorem Property.same_self (p : Property) : p.same p = true := by
  simp [Property.same_iff]

theorem Property.same_symm {p q : Property} (h : p.same q = true) : q.same p = true := by
  obtain ⟨hname, hspec, htype, hformat, hrequired⟩ := Property.same_iff.1 h
  exact Property.same_iff.2 ⟨hname.symm, hspec.symm, htype.symm, hformat.symm, hrequired.symm⟩

theorem Property.same_trans {p q r : Property} (h : p.same q = true) (h' : q.same r = true) :
    p.same r = true := by
  obtain ⟨hname, hspec, htype, hformat, hrequired⟩ := Property.same_iff.1 h
  obtain ⟨hname', hspec', htype', hformat', hrequired'⟩ := Property.same_iff.1 h'
  exact Property.same_iff.2 ⟨hname.trans hname', hspec.trans hspec', htype.trans htype',
    hformat.trans hformat', hrequired.trans hrequired'⟩

theorem sameProperties_self (ps : List Property) : sameLists Property.same ps ps = true :=
  sameLists_self fun p _ => p.same_self

theorem sameProperties_symm {ps qs : List Property} (h : sameLists Property.same ps qs = true) :
    sameLists Property.same qs ps = true :=
  sameLists_symm (fun _ _ _ _ => Property.same_symm) h

theorem sameProperties_trans {ps qs rs : List Property} (h : sameLists Property.same ps qs = true)
    (h' : sameLists Property.same qs rs = true) : sameLists Property.same ps rs = true :=
  sameLists_trans (fun _ _ _ _ => Property.same_trans) h h'

theorem Subclass.same_iff {a b : Subclass} : a.same b = true ↔
    a.name = b.name ∧ a.specName.map Key.meaning = b.specName.map Key.meaning := by
  simp only [Subclass.same, sameSpecName, Bool.and_eq_true, beq_iff_eq]

theorem EnumCase.same_iff {a b : EnumCase} : a.same b = true ↔
    a.name = b.name ∧ a.value.same b.value = true := by
  simp only [EnumCase.same, Bool.and_eq_true, beq_iff_eq]

theorem EnumModel.same_iff {a b : EnumModel} : a.same b = true ↔
    a.name = b.name ∧ a.enumType = b.enumType ∧ sameLists EnumCase.same a.cases b.cases = true := by
  simp only [EnumModel.same, Bool.and_eq_true, beq_iff_eq, and_assoc]

/-- What classes are compared by. -/
structure ClassHead.IsSame (a b : ClassHead) : Prop where
  name : a.name = b.name
  specName : a.specName.map Key.meaning = b.specName.map Key.meaning
  superclass : a.superclass = b.superclass
  discriminator : a.discriminator.same b.discriminator = true
  properties : sameLists Property.same a.properties b.properties = true
  inherited : sameLists Property.same a.inherited b.inherited = true
  initializer : sameLists Property.same a.initializer b.initializer = true
  subclasses : sameLists Subclass.same a.subclasses b.subclasses = true

theorem ClassHead.same_iff {a b : ClassHead} : a.same b = true ↔ a.IsSame b := by
  constructor
  · intro h
    simp only [ClassHead.same, sameSpecName, Bool.and_eq_true, beq_iff_eq] at h
    obtain ⟨⟨⟨⟨⟨⟨⟨hname, hspec⟩, hsuper⟩, hdiscriminator⟩, hproperties⟩, hinherited⟩, hinitializer⟩,
      hsubclasses⟩ := h
    exact ⟨hname, hspec, hsuper, hdiscriminator, hproperties, hinherited, hinitializer, hsubclasses⟩
  · intro h
    simp only [ClassHead.same, sameSpecName, Bool.and_eq_true, beq_iff_eq]
    exact ⟨⟨⟨⟨⟨⟨⟨h.name, h.specName⟩, h.superclass⟩, h.discriminator⟩, h.properties⟩, h.inherited⟩,
      h.initializer⟩, h.subclasses⟩

theorem ClassHead.isSame_self {head : ClassHead} (h : head.discriminator.WellFormed) :
    head.IsSame head where
  name := rfl
  specName := rfl
  superclass := rfl
  discriminator := Json.same_self _ h
  properties := sameProperties_self _
  inherited := sameProperties_self _
  initializer := sameProperties_self _
  subclasses := sameLists_self fun _ _ => Subclass.same_iff.2 ⟨rfl, rfl⟩

theorem ClassHead.IsSame.symm {a b : ClassHead} (h : a.IsSame b) (ha : a.discriminator.WellFormed)
    (hb : b.discriminator.WellFormed) : b.IsSame a where
  name := h.name.symm
  specName := h.specName.symm
  superclass := h.superclass.symm
  discriminator := Json.same_symm _ ha _ hb h.discriminator
  properties := sameProperties_symm h.properties
  inherited := sameProperties_symm h.inherited
  initializer := sameProperties_symm h.initializer
  subclasses := by
    refine sameLists_symm (fun a _ b _ hab => ?_) h.subclasses
    obtain ⟨hname, hspec⟩ := Subclass.same_iff.1 hab
    exact Subclass.same_iff.2 ⟨hname.symm, hspec.symm⟩

theorem ClassHead.IsSame.trans {a b c : ClassHead} (h : a.IsSame b) (h' : b.IsSame c) :
    a.IsSame c where
  name := h.name.trans h'.name
  specName := h.specName.trans h'.specName
  superclass := h.superclass.trans h'.superclass
  discriminator := Json.same_trans _ _ _ h.discriminator h'.discriminator
  properties := sameProperties_trans h.properties h'.properties
  inherited := sameProperties_trans h.inherited h'.inherited
  initializer := sameProperties_trans h.initializer h'.initializer
  subclasses := by
    refine sameLists_trans (fun a _ b c hab hbc => ?_) h.subclasses h'.subclasses
    obtain ⟨hname, hspec⟩ := Subclass.same_iff.1 hab
    obtain ⟨hname', hspec'⟩ := Subclass.same_iff.1 hbc
    exact Subclass.same_iff.2 ⟨hname.trans hname', hspec.trans hspec'⟩

theorem EnumModel.same_self {e : EnumModel} (h : ∀ c ∈ e.cases, c.value.WellFormed) :
    e.same e = true :=
  EnumModel.same_iff.2 ⟨rfl, rfl, sameLists_self fun c hc =>
    EnumCase.same_iff.2 ⟨rfl, Json.same_self _ (h c hc)⟩⟩

theorem EnumModel.same_symm {a b : EnumModel} (ha : ∀ c ∈ a.cases, c.value.WellFormed)
    (hb : ∀ c ∈ b.cases, c.value.WellFormed) (h : a.same b = true) : b.same a = true := by
  obtain ⟨hname, htype, hcases⟩ := EnumModel.same_iff.1 h
  refine EnumModel.same_iff.2 ⟨hname.symm, htype.symm, sameLists_symm (fun c hc d hd hcd => ?_) hcases⟩
  obtain ⟨hname, hvalue⟩ := EnumCase.same_iff.1 hcd
  exact EnumCase.same_iff.2 ⟨hname.symm, Json.same_symm _ (ha c hc) _ (hb d hd) hvalue⟩

theorem EnumModel.same_trans {a b c : EnumModel} (h : a.same b = true) (h' : b.same c = true) :
    a.same c = true := by
  obtain ⟨hname, htype, hcases⟩ := EnumModel.same_iff.1 h
  obtain ⟨hname', htype', hcases'⟩ := EnumModel.same_iff.1 h'
  refine EnumModel.same_iff.2 ⟨hname.trans hname', htype.trans htype',
    sameLists_trans (fun c _ d e hcd hde => ?_) hcases hcases'⟩
  obtain ⟨hname, hvalue⟩ := EnumCase.same_iff.1 hcd
  obtain ⟨hname', hvalue'⟩ := EnumCase.same_iff.1 hde
  exact EnumCase.same_iff.2 ⟨hname.trans hname', Json.same_trans _ _ _ hvalue hvalue'⟩

/-! ## Models -/

namespace Model

/-- A model whose values, at any depth, have distinct keys. -/
inductive WellFormed : Model → Prop
  | object {head : ClassHead} {nested : List Model} (hhead : head.discriminator.WellFormed)
    (hnested : ∀ m ∈ nested, WellFormed m) : WellFormed (.object head nested)
  | enumeration {e : EnumModel} (h : ∀ c ∈ e.cases, c.value.WellFormed) : WellFormed (.enumeration e)
  | property (p : Property) : WellFormed (.property p)

theorem sameNested_eq (as bs : List Model) : sameNested as bs = sameLists Model.same as bs := by
  induction as generalizing bs with
  | nil => cases bs <;> rfl
  | cons a as ih =>
    cases bs with
    | nil => rfl
    | cons b bs => rw [sameNested, sameLists, ih]

theorem same_object_iff {a b : ClassHead} {as bs : List Model} :
    (Model.object a as).same (.object b bs) = true ↔
      a.IsSame b ∧ sameLists Model.same as bs = true := by
  rw [same, Bool.and_eq_true, ClassHead.same_iff, sameNested_eq]

theorem same_self {m : Model} (h : m.WellFormed) : m.same m = true := by
  induction h with
  | object hhead _ ih => exact same_object_iff.2 ⟨ClassHead.isSame_self hhead, sameLists_self ih⟩
  | enumeration h => exact EnumModel.same_self h
  | property p => exact p.same_self

theorem same_symm {a b : Model} (ha : a.WellFormed) (hb : b.WellFormed) (h : a.same b = true) :
    b.same a = true := by
  induction ha generalizing b with
  | object hhead _ ih =>
    cases hb with
    | object hhead' hnested' =>
      obtain ⟨hsame, hnested⟩ := same_object_iff.1 h
      refine same_object_iff.2 ⟨hsame.symm hhead hhead', sameLists_symm (fun m hm n hn => ?_) hnested⟩
      exact ih m hm (hnested' n hn)
    | _ => cases h
  | enumeration hcases =>
    cases hb with
    | enumeration hcases' => exact EnumModel.same_symm hcases hcases' h
    | _ => cases h
  | property p =>
    cases hb with
    | property q => exact Property.same_symm h
    | _ => cases h

theorem same_trans {a b c : Model} (ha : a.WellFormed) (hab : a.same b = true)
    (hbc : b.same c = true) : a.same c = true := by
  induction ha generalizing b c with
  | object _ _ ih =>
    cases b with
    | object =>
      cases c with
      | object =>
        obtain ⟨hsame, hnested⟩ := same_object_iff.1 hab
        obtain ⟨hsame', hnested'⟩ := same_object_iff.1 hbc
        exact same_object_iff.2 ⟨hsame.trans hsame', sameLists_trans (fun m hm _ _ => ih m hm) hnested hnested'⟩
      | _ => cases hbc
    | _ => cases hab
  | enumeration =>
    cases b with
    | enumeration =>
      cases c with
      | enumeration => exact EnumModel.same_trans hab hbc
      | _ => cases hbc
    | _ => cases hab
  | property =>
    cases b with
    | property =>
      cases c with
      | property => exact Property.same_trans hab hbc
      | _ => cases hbc
    | _ => cases hab

theorem name_of_same {a b : Model} (h : a.same b = true) : a.name = b.name := by
  cases a <;> cases b <;> first | cases h | skip
  · exact (same_object_iff.1 h).1.name
  · exact (EnumModel.same_iff.1 h).1
  · exact (Property.same_iff.1 h).1

end Model

/-- What classes that are equal up to descriptions agree in. -/
structure ClassHead.Agrees (a b : ClassHead) : Prop where
  name : a.name = b.name
  superclass : a.superclass = b.superclass
  properties : sameLists Property.same a.properties b.properties = true
  inherited : sameLists Property.same a.inherited b.inherited = true

theorem ClassHead.agrees_self (head : ClassHead) : head.Agrees head :=
  ⟨rfl, rfl, sameProperties_self _, sameProperties_self _⟩

/-- Only a class is equal to a class. -/
theorem Model.exists_agrees {m : Model} {head : ClassHead} {nested : List Model}
    (h : m.same (.object head nested) = true) :
    ∃ head' nested', m = .object head' nested' ∧ head'.Agrees head := by
  cases m with
  | object head' nested' =>
    have hsame := (Model.same_object_iff.1 h).1
    exact ⟨head', nested', rfl, hsame.name, hsame.superclass, hsame.properties, hsame.inherited⟩
  | _ => cases h

end ClientForge
