-- SUMMARY: Two documents with alike paths, in two type tables, give corresponding methods, or neither does.
import ClientForge.Proofs.Api.Starts
import ClientForge.Proofs.Inference.Correspondence

/-!
# Corresponding methods

The methods of a document are built from its paths, and every call of inference is for a
parameter or a response of an operation there. Linked parameters are built with
corresponding types and models (`both_param`), hence linked operations give corresponding
methods (`both_ofOperation`), and sorting them by their paths, which are the same, keeps
them in step (`both_buildAll`).
-/

namespace ClientForge

open Members Outcome Schema Inference

variable {free : Prop} {Known : String → Prop} {s s' : Setting}

/-- Lists that are related item by item have the same image if related items have. -/
theorem map_eq_map_of_forall₂ {α β γ : Type} {R : α → β → Prop} {f : α → γ} {g : β → γ} {as : List α}
    {bs : List β} (h : List.Forall₂ R as bs) (hfg : ∀ a b, R a b → f a = g b) :
    as.map f = bs.map g := by
  induction h with
  | nil => rfl
  | cons hab _ ih => rw [List.map_cons, List.map_cons, hfg _ _ hab, ih]

theorem eq_of_rel {α : Type} {a b : Option α} (h : Option.Rel Eq a b) : a = b := by
  cases h with
  | none => rfl
  | some h => rw [h]

/-! ## Corresponding parts of an API -/

/-- Two parameters that differ in their type names and descriptions only. -/
structure SameParam (K : Correspondence free s.types s'.types) (p p' : Param) : Prop where
  name : p.name = p'.name
  serverName : p.serverName = p'.serverName
  location : p.location = p'.location
  type : Option.Rel K.type p.type p'.type
  format : p.format = p'.format
  isRequired : p.isRequired = p'.isRequired
  schemaType : p.schemaType = p'.schemaType
  description : Alike free .description p.description p'.description

/-- Two methods that differ in the type names of their parameters and in descriptions only. -/
structure SameMethod (K : Correspondence free s.types s'.types) (m m' : Method) : Prop where
  path : m.path = m'.path
  verb : m.verb = m'.verb
  name : m.name = m'.name
  params : List.Forall₂ (SameParam K) m.params m'.params
  response : SameParam K m.response m'.response
  description : Alike free .description m.description m'.description

/-- Two such methods with corresponding models. -/
structure SameBuilt (K : Correspondence free s.types s'.types) (b b' : BuiltMethod) : Prop where
  method : SameMethod K b.method b'.method
  models : List.Forall₂ K.model b.models b'.models

/-! ## Parameters -/

section
variable {K : Correspondence free s.types s'.types} {P : Json → Prop}

theorem linked_schema {ms ns : Members} (h : LinkedMembers free Known .specification ms ns) :
    Linked free Known .specification (ParamSpec.ofMembers ms).schema
      (ParamSpec.ofMembers ns).schema := by
  have hschema := h.get? "schema"
  unfold ParamSpec.ofMembers
  dsimp only
  generalize Members.get? ms "schema" = held, Members.get? ns "schema" = held' at hschema
  cases hschema with
  | none => exact LinkedMembers.filter h fun k => decide (k ∉ ParamSpec.ownKeys)
  | some hvalue => exact hvalue.orElse linked_empty

theorem both_typeOfSchema (hagree : Agreement free Known s.document s'.document) {v w : Json}
    (h : Linked free Known .specification v w) :
    Both Eq (Param.typeOfSchema s.document v) (Param.typeOfSchema s'.document w) := by
  unfold Param.typeOfSchema
  rw [h.alike.truthy]
  split
  · refine (hagree.resolve .null _ h).bind fun ms ns _ _ hms => ?_
    exact .ok (hms.get_exact rfl)
  · exact .ok rfl

theorem both_param (hnames : K.Names P) (hagree : Agreement free Known s.document s'.document)
    {raw raw' : Json} (h : Linked free Known .specification raw raw') (methodName : String)
    (hstarts : ∀ c, Param.Starts s methodName raw c → P c.schema) :
    Both (fun a b => SameParam K a.1 b.1 ∧ List.Forall₂ K.model a.2 b.2)
      (Param.build s methodName raw) (Param.build s' methodName raw') := by
  unfold Param.build
  refine (hagree.resolve .null _ h).bind fun ms ns hresolved _ hms => ?_
  have hserver : Param.serverNameOf (ParamSpec.ofMembers ns) =
      Param.serverNameOf (ParamSpec.ofMembers ms) := by
    simp only [Param.serverNameOf, ParamSpec.ofMembers, hms.get_exact (k := "name") rfl]
  have hschema := linked_schema hms
  dsimp only
  rw [hserver]
  refine Both.bind_same fun spoken hspoken => ?_
  have hcall : (⟨⟨[], []⟩, Name.ofClass [methodName, spoken], (ParamSpec.ofMembers ms).schema⟩ :
      Call).Linked free Known
        ⟨⟨[], []⟩, Name.ofClass [methodName, spoken], (ParamSpec.ofMembers ns).schema⟩ :=
    ⟨rfl, rfl, hschema⟩
  have hinfer := K.inferWith hnames hagree maxNesting _ _ hcall
    (hstarts _ ⟨ms, spoken, hresolved, hspoken, rfl⟩)
  refine hinfer.bind fun found found' _ _ hfound => ?_
  refine (both_typeOfSchema hagree hschema).bind fun type type' _ _ htype => ?_
  cases htype
  refine .ok ⟨⟨?_, rfl, ?_, .some hfound.type, hfound.format, ?_, rfl, ?_⟩, hfound.models⟩
  · exact congrArg (fun v : Json => some (if v.truthy then Name.camel spoken else Param.anonymous))
      (hms.get_exact (k := "name") rfl)
  · exact hms.get_exact rfl
  · exact congrArg Json.truthy (hms.get_exact (k := "required") rfl)
  · exact (hms.get "description").alike

/-! ## Operations -/

theorem both_entriesOf {v w : Json} (h : Linked free Known .listed v w) :
    Both (List.Forall₂ (Linked free Known .specification)) (Method.entriesOf v)
      (Method.entriesOf w) := by
  unfold Method.entriesOf
  rw [h.alike.truthy]
  split
  · exact h.bothEntries nofun
  · exact .ok .nil

theorem both_firstOfClass (digit : Char) {rs rs' : Members}
    (h : List.Forall₂ (fun m n => m.1 = n.1 ∧ Linked free Known .specification m.2 n.2) rs rs') :
    Both (Option.Rel (Linked free Known .specification)) (Method.firstOfClass digit rs)
      (Method.firstOfClass digit rs') := by
  induction h with
  | nil => exact .ok .none
  | @cons m n rs rs' hmn hrest ih =>
    obtain ⟨status, response⟩ := m
    obtain ⟨status', response'⟩ := n
    obtain ⟨rfl, hresponse⟩ := hmn
    refine Both.bind_same fun shown _ => ?_
    split
    · exact .ok (.some hresponse)
    · exact ih

theorem linked_getD {held held' : Option Json} {v w : Json}
    (h : Option.Rel (Linked free Known .specification) held held')
    (hdefault : Linked free Known .specification v w) :
    Linked free Known .specification (held.getD v) (held'.getD w) := by
  cases h with
  | none => exact hdefault
  | some h => exact h

theorem both_selectResponse {v w : Json} (h : Linked free Known .named v w) :
    Both (Linked free Known .specification) (Method.selectResponse v) (Method.selectResponse w) := by
  unfold Method.selectResponse
  refine (h.orElse linked_empty).bothMembers.bind fun rs rs' _ _ hrs => ?_
  have hspecifications := hrs.specifications
  have hdefault := hrs.get "default"
  have hchosen : ∀ chosen chosen', Option.Rel (Linked free Known .specification) chosen chosen' →
      Linked free Known .specification
        ((chosen.getD (Members.get rs "default")).orElse (.obj []))
        ((chosen'.getD (Members.get rs' "default")).orElse (.obj [])) :=
    fun _ _ h => (linked_getD h hdefault).orElse linked_empty
  refine (both_firstOfClass '2' hspecifications).bind fun first first' _ _ hfirst => ?_
  cases hfirst with
  | none =>
    exact (both_firstOfClass '3' hspecifications).bind fun _ _ _ _ hsecond => .ok (hchosen _ _ hsecond)
  | some hresponse => exact .ok (hchosen _ _ (.some hresponse))

theorem nameOf_of_linked {operation operation' : Members}
    (h : LinkedMembers free Known .operation operation operation') (path : Key) (verb : String) :
    Method.nameOf operation path verb = Method.nameOf operation' path verb := by
  unfold Method.nameOf
  rw [h.get_exact (k := "operationId") rfl]

theorem both_ofOperation (hnames : K.Names P) (hagree : Agreement free Known s.document s'.document)
    {path : Key} {pathParams pathParams' : Json} {basePath verb : String}
    {operation operation' : Members} (hparams : Linked free Known .listed pathParams pathParams')
    (h : LinkedMembers free Known .operation operation operation')
    (hstarts : ∀ c, Method.Starts s path pathParams verb operation c → P c.schema) :
    Both (SameBuilt K) (Method.ofOperation s path pathParams basePath verb operation)
      (Method.ofOperation s' path pathParams' basePath verb operation') := by
  unfold Method.ofOperation
  rw [← nameOf_of_linked h]
  refine Both.bind_same fun name hname => ?_
  refine (both_entriesOf hparams).bind fun shared shared' hshared _ hsame => ?_
  refine (both_entriesOf (h.get "parameters")).bind fun listed listed' hlisted _ hsame' => ?_
  have hraws := (List.forall₂_and_left (p := fun raw =>
    ∀ c, Param.Starts s name raw c → P c.schema) _ _).2 ⟨?_, List.rel_append hsame hsame'⟩
  · have hbuilt : List.Forall₂ (fun raw raw' => Both _ (Param.build s name raw)
        (Param.build s' name raw')) (shared ++ listed) (shared' ++ listed') :=
      hraws.imp fun raw raw' hraw => both_param hnames hagree hraw.2 name hraw.1
    refine (both_mapM hbuilt).bind fun params params' _ _ hparams => ?_
    refine (both_selectResponse (h.get "responses")).bind fun chosen chosen' hchosen _ hresponse => ?_
    have hresponse' := both_param hnames hagree hresponse name fun c hc =>
      hstarts c ⟨name, chosen, hname, .response hchosen, hc⟩
    refine hresponse'.bind fun response response' _ _ hresponse => ?_
    refine Both.bind_same fun part _ => ?_
    refine .ok ⟨⟨rfl, rfl, rfl, ?_, hresponse.1, ?_⟩, ?_⟩
    · exact List.rel_map (fun _ _ hparam => hparam.1) hparams
    · refine (h.get "description").alike.orElse ?_
      rw [h.get_exact (k := "summary") rfl]
      exact alike_refl _ _
    · exact List.rel_append (List.rel_flatMap hparams fun _ _ hparam => hparam.2) hresponse.2
  · intro raw hraw c hc
    refine hstarts c ⟨name, raw, hname, ?_, hc⟩
    exact (List.mem_append.1 hraw).elim (.shared hshared) (.listed hlisted)

/-! ## Documents -/

theorem both_build (hnames : K.Names P) (hagree : Agreement free Known s.document s'.document)
    {path : Key} {pathParams pathParams' operation operation' : Json} (basePath verb : String)
    (hparams : Linked free Known .listed pathParams pathParams')
    (h : Linked free Known .operation operation operation')
    (hstarts : ∀ members c, operation.truthy = true → operation.members = .ok members →
      Method.Starts s path pathParams verb members c → P c.schema) :
    Both (Option.Rel (SameBuilt K)) (Method.build s path pathParams basePath verb operation)
      (Method.build s' path pathParams' basePath verb operation') := by
  unfold Method.build
  rw [← h.alike.truthy]
  split
  · rename_i htruthy
    refine h.bothMembers.bind fun members members' hmembers _ hlinked => ?_
    exact (both_ofOperation hnames hagree hparams hlinked fun c =>
      hstarts members c htruthy hmembers).bind fun _ _ _ _ hbuilt => .ok (.some hbuilt)
  · exact .ok .none

theorem member_verb : ∀ verb ∈ Method.verbs, Role.pathItem.member (.text verb) = .operation := by
  decide

theorem forall₂_ofPathItem (hnames : K.Names P)
    (hagree : Agreement free Known s.document s'.document) {path : Key} {item item' : Json}
    {basePath : String} (h : Linked free Known .pathItem item item')
    (hstarts : ∀ members operation verb c, (item.orElse (.obj [])).members = .ok members →
      verb ∈ Method.verbs → (Members.get members (.text verb)).truthy = true →
      (Members.get members (.text verb)).members = .ok operation →
      Method.Starts s path (Members.get members "parameters") verb operation c → P c.schema) :
    List.Forall₂ (Both (SameBuilt K)) (Method.ofPathItem s basePath path item)
      (Method.ofPathItem s' basePath path item') := by
  have hmembers := (h.orElse linked_empty).bothMembers
  unfold Method.ofPathItem
  generalize hleft : (item.orElse (.obj [])).members = left,
    (item'.orElse (.obj [])).members = right at hmembers
  cases hmembers with
  | error e e' => exact .cons (.error e e') .nil
  | @ok ms ns hlinked =>
    refine List.rel_filterMap (R := fun verb verb' => verb = verb' ∧ verb ∈ Method.verbs) ?_
      (List.forall₂_same.2 fun verb hverb => ⟨rfl, hverb⟩)
    rintro verb _ ⟨rfl, hverb⟩
    have hbuilt := both_build hnames hagree basePath verb
      (hlinked.get "parameters") (member_verb verb hverb ▸ hlinked.get (.text verb))
      fun members c => hstarts ms members verb c hleft hverb
    dsimp only
    generalize Method.build s path _ basePath verb _ = x, Method.build s' path _ basePath verb _ = y
      at hbuilt
    cases hbuilt with
    | error e e' => exact .some (.error e e')
    | ok hrel =>
      cases hrel with
      | none => exact .none
      | some hsame => exact .some (.ok hsame)

theorem forall₂_attempts (hnames : K.Names P)
    (hagree : Agreement free Known s.document s'.document)
    (h : Linked free Known .paths (Document.paths s.document) (Document.paths s'.document))
    (hstarts : ∀ c, Starts s c → P c.schema) (basePath : String) :
    List.Forall₂ (Both (SameBuilt K)) (Method.attempts s basePath) (Method.attempts s' basePath) := by
  have hmembers := h.bothMembers
  unfold Method.attempts
  generalize hleft : (Document.paths s.document).members = left,
    (Document.paths s'.document).members = right at hmembers
  cases hmembers with
  | error e e' => exact .cons (.error e e') .nil
  | @ok items items' hlinked =>
    have hitems := (List.forall₂_and_left (p := (· ∈ items)) _ _).2 ⟨fun _ h => h, hlinked.forall₂⟩
    refine List.rel_flatMap hitems ?_
    rintro ⟨path, item⟩ ⟨path', item'⟩ ⟨hitem, hkey, hvalue⟩
    cases hkey
    refine forall₂_ofPathItem hnames hagree (Role.member_paths path ▸ hvalue) ?_
    intro members operation verb c hmembers hverb htruthy hoperation hc
    exact hstarts c (.intro hleft hitem hmembers hverb htruthy hoperation hc)

/-- Lists that are related item by item stay so when both are sorted by what related items have
in common. -/
theorem forall₂_mergeSort {α β : Type} {R : α → β → Prop} {le : α → α → Bool} {le' : β → β → Bool}
    {as : List α} {bs : List β} (h : List.Forall₂ R as bs)
    (hle : ∀ a b a' b', R a b → R a' b' → le a a' = le' b b') :
    List.Forall₂ R (as.mergeSort le) (bs.mergeSort le') := by
  let zs := as.zip bs
  have hzs : ∀ z ∈ zs, R z.1 z.2 := fun z hz => List.forall₂_zip h hz
  let sorted := zs.mergeSort fun z z' => le z.1 z'.1
  have hleft : sorted.map Prod.fst = as.mergeSort le := by
    refine (List.map_mergeSort (s := le) fun _ _ _ _ => rfl).trans ?_
    rw [List.map_fst_zip (Nat.le_of_eq h.length_eq)]
  have hright : sorted.map Prod.snd = bs.mergeSort le' := by
    refine (List.map_mergeSort (s := le') fun z hz z' hz' => ?_).trans ?_
    · exact hle _ _ _ _ (hzs z hz) (hzs z' hz')
    · rw [List.map_snd_zip (Nat.le_of_eq h.length_eq.symm)]
  rw [← hleft, ← hright, List.forall₂_map_left_iff, List.forall₂_map_right_iff, List.forall₂_same]
  exact fun z hz => hzs z (List.mem_mergeSort.1 hz)

/-- Documents with linked paths have corresponding methods, or neither has any. -/
theorem both_buildAll (hnames : K.Names P) (hagree : Agreement free Known s.document s'.document)
    (h : Linked free Known .paths (Document.paths s.document) (Document.paths s'.document))
    (hstarts : ∀ c, Starts s c → P c.schema) (basePath : String) :
    Both (List.Forall₂ (SameBuilt K)) (Method.buildAll s basePath) (Method.buildAll s' basePath) := by
  refine (both_mapM (forall₂_attempts hnames hagree h hstarts basePath)).bind
    fun methods methods' _ _ hmethods => .ok (forall₂_mergeSort hmethods ?_)
  intro a b a' b' hab hab'
  unfold Method.byPath
  rw [hab.method.path, hab'.method.path]

end

end ClientForge
