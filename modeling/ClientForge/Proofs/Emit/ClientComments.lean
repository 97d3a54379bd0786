-- SUMMARY: The comments of Kotlin and JavaScript clients that hold descriptions, and where they end.
import ClientForge.Proofs.Emit.Descriptions
import ClientForge.Proofs.Emit.Files
import ClientForge.Proofs.Emit.Places

/-!
# Comments of clients

Descriptions of methods, parameters, models and properties stand in comments of a Kotlin client,
of a JavaScript client and of its declarations. These comments stand in the files one after
another (`standIn_commentsIn`). No description breaks its line, and line comments end with it. No
mark of a comment is taken out of a description either, so a block comment ends where its
template ends it exactly if the texts in it leave its end where it is (`comments_end_iff`).
-/

namespace ClientForge

namespace Emit

open CommentRules Outcome

/-- What is written for some entries, piece by piece. -/
theorem written_flatMap {α : Type} {write : α → String} {parts : α → List Part}
    (h : ∀ a, (parts a).flatMap Part.written = (write a).toList) (entries : List α) :
    (entries.flatMap parts).flatMap Part.written = (forEach entries write).toList := by
  rw [List.flatMap_assoc, forEach, pieces, String.toList_join, List.flatMap_map]
  exact congrArg (entries.flatMap ·) (funext h)

/-- A description in a line of its own, if there is one. -/
def descriptionParts (margin : String) (said : Json → Said) (v : Json) : List Part :=
  if v.truthy then [.fixed margin, .said (said v), .fixed "\n"] else []

theorem written_descriptionParts (said : Json → Said) (write : Json → String)
    (h : ∀ v, (said v).written = (write v).toList) (margin : String) (v : Json) :
    (descriptionParts margin said v).flatMap Part.written =
      (onlyIf v.truthy (pieces [margin, write v, "\n"])).toList := by
  rw [descriptionParts]
  split
  · rename_i htruthy
    simp [htruthy, onlyIf, Part.written, h]
  · rename_i hfalse
    simp [hfalse, onlyIf]

theorem framed_descriptionParts {margin : String} (hmargin : isCalm margin.toList = true)
    (said : Json → Said) (v : Json) : Framed (descriptionParts margin said v) := by
  rw [descriptionParts]
  split
  · exact .fixed hmargin (.said (by decide) .nil)
  · exact .nil

/-! ## Kotlin -/

namespace Kotlin

def propertyComments (p : Property) : List Comment :=
  if p.description.truthy then [.line p.description] else []

def classBlock (v : Json) : Comment := .block " " [.said (.description v), .fixed " "]

def headComments (c : ClassHead) : List Comment :=
  if c.description.truthy then [classBlock c.description] else []

/-- The comment above a class and those of its properties. -/
def ownComments (c : ClassHead) : List Comment :=
  headComments c ++ c.initializer.flatMap propertyComments

/-- The comments of a class and of those nested in it. -/
def classComments (m : Model) : List Comment := ofClass ownComments m

def paramParts (p : Param) : List Part :=
  [.fixed "         * @param ", .said (.name (showText p.name)), .fixed " ",
    .said (.escaped p.description), .fixed "\n"]

def responseParts (response : Param) : List Part :=
  [.fixed "         * @return Single<", .said (.name (showText response.type)),
    .fixed ">\n         "]

def methodBlock (m : Method) : Comment :=
  .block "\n" (descriptionParts "         * " .escaped m.description ++
    (m.params.flatMap paramParts ++ responseParts m.response))

/-- The comments with descriptions, in the order of the file. -/
def comments (x : EmitContext) : List Comment :=
  x.model.methods.flatMap (fun m => [methodBlock m]) ++ x.model.objects.flatMap classComments

/-! ### Where they stand -/

theorem standIn_propertyComments (p : Property) :
    StandIn ((propertyComments p).map Comment.written)
      (pieces [onlyIf p.description.truthy (pieces ["  // ", described p.description]), "\n"]).toList := by
  rw [propertyComments]
  split
  · rename_i htruthy
    have heq : (pieces [onlyIf p.description.truthy (pieces ["  // ", described p.description]),
        "\n"]).toList = [' ', ' '] ++ (Comment.line p.description).written ++ [] := by
      simp [htruthy, onlyIf, Comment.written, Comment.body]
    rw [heq]
    exact .single _ _ _
  · exact .nothing _

theorem standIn_headComments (c : ClassHead) :
    StandIn ((headComments c).map Comment.written)
      (onlyIf c.description.truthy (pieces ["/** ", described c.description, " */\n"])).toList := by
  rw [headComments]
  split
  · rename_i htruthy
    have heq : (onlyIf c.description.truthy (pieces ["/** ", described c.description, " */\n"])).toList =
        [] ++ (classBlock c.description).written ++ [] := by
      simp [htruthy, onlyIf, Comment.written, Comment.body, classBlock, Part.written, Said.written]
    rw [heq]
    exact .single _ _ _
  · exact .nothing _

theorem standIn_ownComments {nested : List String} {ws : List (List Char)} (c : ClassHead)
    (h : StandIn ws (nestedText nested).toList) :
    StandIn ((ownComments c).map Comment.written ++ ws) (classText c nested).toList := by
  have hproperties : StandIn ((c.initializer.flatMap propertyComments).map Comment.written)
      (each propertyLine c.initializer).toList :=
    standIn_each fun p _ _ => standIn_drop 8 (standIn_propertyComments p)
  rw [ownComments, List.map_append, List.append_assoc]
  exact standIn_cons (standIn_headComments c) (standIn_drop 4
    (standIn_cons hproperties (standIn_drop 2 (standIn_head (standIn_classBody h)))))

theorem form_of_mem_ownComments {head : ClassHead} {c : Comment} (h : c ∈ ownComments head) :
    ∃ v, c = .line v ∨ c = classBlock v := by
  rw [ownComments, List.mem_append, List.mem_flatMap] at h
  rcases h with h | ⟨p, -, h⟩
  · rw [headComments] at h
    split at h
    · exact ⟨_, .inr (List.mem_singleton.1 h)⟩
    · cases h
  · rw [propertyComments] at h
    split at h
    · exact ⟨_, .inl (List.mem_singleton.1 h)⟩
    · cases h

/-- The comments of a class are lines by themselves. -/
theorem body_of_mem_ownComments {head : ClassHead} {c : Comment} (h : c ∈ ownComments head) :
    c.body.head? = some '/' ∧ ∀ a ∈ c.body, Text.isLineBreak a = false := by
  obtain ⟨v, rfl | rfl⟩ := form_of_mem_ownComments h
  · refine ⟨rfl, List.forall_mem_append.2 ⟨forall_eq_false_of_all (by decide), fun a ha => ?_⟩⟩
    exact isLineBreak_of_mem_described ha
  · have hbody : (classBlock v).body =
        "/** ".toList ++ ((described v).toList ++ " */".toList) := by
      simp [Comment.body, classBlock, Part.written, Said.written]
    rw [hbody]
    refine ⟨rfl, List.forall_mem_append.2 ⟨forall_eq_false_of_all (by decide),
      List.forall_mem_append.2 ⟨fun a ha => ?_, forall_eq_false_of_all (by decide)⟩⟩⟩
    exact isLineBreak_of_mem_described ha

theorem placed_of_mem_ownComments {head : ClassHead} {c : Comment} (h : c ∈ ownComments head) :
    Placed c.written where
  starts := ⟨'/', by rw [Comment.written, List.head?_append, (body_of_mem_ownComments h).1]; rfl,
    by decide⟩
  ends := by
    rw [Comment.written, List.getLast?_concat]
    decide

/-- The comments of a class are kept as they are where the class is set in. -/
theorem comments_standInClasses :
    StandsInClasses ownComments Comment.written Comment.written where
  placed _ _ hc := placed_of_mem_ownComments hc
  cut _ _ hc := cutAtBreak_concat (body_of_mem_ownComments hc).2
  standIn head _ _ h := standIn_ownComments head h

theorem written_paramParts (p : Param) :
    (paramParts p).flatMap Part.written = (paramDoc p).toList := by
  simp [paramParts, paramDoc, Part.written, Said.written]

theorem standIn_methodBlock (m : Method) :
    StandIn [(methodBlock m).written] (method m).toList := by
  have heq : (pieces ["\n", "        /**\n",
      onlyIf m.description.truthy
        (pieces ["         * ", kotlinText (described m.description), "\n"]),
      forEach m.params paramDoc, "         * @return Single<", showText m.response.type, ">\n",
      "         */\n"]).toList = "\n        ".toList ++ (methodBlock m).written ++ [] := by
    simp only [methodBlock, Comment.written, Comment.body, List.flatMap_append,
      written_descriptionParts .escaped (fun v => kotlinText (described v)) fun _ => rfl,
      written_flatMap written_paramParts]
    simp [responseParts, Part.written, Said.written]
  exact standIn_take 8 (heq ▸ .single _ _ _)

/-- The comments stand in the file, in order. -/
theorem standIn_comments (x : EmitContext) :
    StandIn ((comments x).map Comment.written) (client x).toList := by
  have hmethods : StandIn ((x.model.methods.flatMap fun m => [methodBlock m]).map Comment.written)
      (forEach x.model.methods method).toList :=
    standIn_forEach fun m _ => standIn_methodBlock m
  have hclasses : StandIn ((x.model.objects.flatMap classComments).map Comment.written)
      (forEach x.model.objects fun m => pieces [setIn (dataClass m), "\n"]).toList :=
    standIn_forEach fun m _ => comments_standInClasses.dataClass m
  rw [comments, List.map_append]
  exact standIn_drop 15 (standIn_cons hmethods (standIn_drop 5 (standIn_head hclasses)))

theorem framed_paramParts (p : Param) : Framed (paramParts p) :=
  .fixed (by decide) (.said (by decide) (.said (by decide) .nil))

theorem framed_responseParts (p : Param) : Framed (responseParts p) :=
  .fixed (by decide) (.said (by decide) .nil)

theorem wellFormed_of_mem_comments {x : EmitContext} {c : Comment} (h : c ∈ comments x) :
    c.WellFormed := by
  rw [comments, List.mem_append, List.mem_flatMap, List.mem_flatMap] at h
  rcases h with ⟨m, -, h⟩ | ⟨m, -, h⟩
  · rw [List.mem_singleton.1 h]
    exact ⟨by decide, (framed_descriptionParts (by decide) _ _).append
      ((Framed.flatMap fun p _ => framed_paramParts p).append (framed_responseParts _))⟩
  · obtain ⟨head, h⟩ := exists_head_of_mem_ofClass m h
    obtain ⟨v, rfl | rfl⟩ := form_of_mem_ownComments h
    · trivial
    · exact ⟨by decide, .said (by decide) .nil⟩

end Kotlin

/-! ## JavaScript -/

namespace JavaScript

def paramParts (x : EmitContext) (p : Param) : List Part :=
  [.fixed "   * @parameter \x7b ", .said (.name (typeName p.type)), .fixed " \x7d ",
    .said (.name (argumentName x p)), .fixed ": ", .said (.description p.description), .fixed "\n"]

/-- The comment of a method, the same in the client and in its declarations. -/
def methodBlock (x : EmitContext) (m : Method) : Comment :=
  .block "\n" (descriptionParts "   * " .description m.description ++ (.fixed "   *\n" ::
    (m.params.flatMap (paramParts x) ++ [.fixed "   "])))

def interfaceBlock (owners : String) (c : ClassHead) : Comment :=
  .block "\n" (descriptionParts " * " .description c.description ++ [.fixed " * @export\n * @class ",
    .said (.name (exportName owners c.name)), .fixed "\n "])

mutual

/-- The comments of the interface of a model and of those of the models nested in it. -/
def interfaceComments (owners : String) : Model → List Comment
  | .object head nested =>
    interfaceBlock owners head :: nestedComments (ownersOf owners head.name) nested
  | .enumeration e => [interfaceBlock owners (classHead (.enumeration e))]
  | .property p => [interfaceBlock owners (classHead (.property p))]

def nestedComments (owners : String) : List Model → List Comment
  | [] => []
  | m :: ms => interfaceComments owners m ++ nestedComments owners ms

end

/-- The comments with descriptions in the client, in the order of the file. -/
def clientComments (x : EmitContext) : List Comment :=
  x.model.methods.flatMap fun m => [methodBlock x m]

/-- The comments with descriptions in the declarations, in the order of the file. -/
def declarationComments (x : EmitContext) : List Comment :=
  x.model.objects.flatMap (interfaceComments "") ++ clientComments x

/-! ### Where they stand -/

theorem written_paramParts (x : EmitContext) (p : Param) :
    (paramParts x p).flatMap Part.written = (paramDoc x p).toList := by
  simp [paramParts, paramDoc, Part.written, Said.written]

theorem standIn_methodBlock (x : EmitContext) (m : Method) :
    StandIn [(methodBlock x m).written] (methodComment x m).toList := by
  have heq : (methodComment x m).toList = "\n  ".toList ++ (methodBlock x m).written ++ [] := by
    simp only [methodBlock, Comment.written, Comment.body, List.flatMap_append, List.flatMap_cons,
      written_descriptionParts .description described fun _ => rfl,
      written_flatMap (written_paramParts x)]
    simp [methodComment, Part.written]
  rw [heq]
  exact .single _ _ _

theorem standIn_interfaceBlock (owners : String) (c : ClassHead) :
    StandIn [(interfaceBlock owners c).written] (interfaceHead owners c).toList := by
  have heq : (pieces ["/**\n",
      onlyIf c.description.truthy (pieces [" * ", described c.description, "\n"]),
      " * @export\n", " * @class ", exportName owners c.name, "\n", " */\n"]).toList =
        [] ++ (interfaceBlock owners c).written ++ [] := by
    simp only [interfaceBlock, Comment.written, Comment.body, List.flatMap_append,
      written_descriptionParts .description described fun _ => rfl]
    simp [Part.written, Said.written]
  exact standIn_take 7 (heq ▸ .single _ _ _)

mutual

theorem standIn_interface (owners : String) (m : Model) :
    StandIn ((interfaceComments owners m).map Comment.written) (interface owners m).toList := by
  cases m with
  | object head nested =>
    have hnested := standIn_nestedInterfaces (ownersOf owners head.name) nested
    exact standIn_cons (standIn_interfaceBlock owners head) (standIn_head hnested)
  | enumeration | property => exact standIn_interfaceBlock owners _

theorem standIn_nestedInterfaces (owners : String) (ms : List Model) :
    StandIn ((nestedComments owners ms).map Comment.written) (nestedInterfaces owners ms).toList := by
  cases ms with
  | nil => exact .nothing _
  | cons m ms =>
    rw [nestedComments, List.map_append]
    exact standIn_cons (standIn_interface owners m) (standIn_head (standIn_nestedInterfaces owners ms))

end

theorem standIn_clientComments (x : EmitContext) :
    StandIn ((clientComments x).map Comment.written) (client x).toList := by
  have hmethods : StandIn ((clientComments x).map Comment.written)
      (forEach x.model.methods (method x)).toList :=
    standIn_forEach fun m _ => standIn_head (standIn_methodBlock x m)
  exact standIn_drop 9 (standIn_head hmethods)

theorem standIn_declarationComments (x : EmitContext) :
    StandIn ((declarationComments x).map Comment.written) (declarations x).toList := by
  have hinterfaces : StandIn ((x.model.objects.flatMap (interfaceComments "")).map Comment.written)
      (forEach x.model.objects fun m => pieces [interface "" m, "\n"]).toList :=
    standIn_forEach fun m _ => standIn_head (standIn_interface "" m)
  have hmethods : StandIn ((clientComments x).map Comment.written)
      (forEach x.model.methods (methodDeclaration x)).toList :=
    standIn_forEach fun m _ => standIn_head (standIn_methodBlock x m)
  rw [declarationComments, List.map_append]
  exact standIn_drop 5 (standIn_cons hinterfaces (standIn_drop 6 (standIn_head hmethods)))

theorem framed_paramParts (x : EmitContext) (p : Param) : Framed (paramParts x p) :=
  .fixed (by decide) (.said (by decide) (.said (by decide) (.said (by decide) .nil)))

theorem wellFormed_methodBlock (x : EmitContext) (m : Method) : (methodBlock x m).WellFormed := by
  refine ⟨by decide, (framed_descriptionParts (by decide) _ _).append (.fixed (by decide) ?_)⟩
  exact (Framed.flatMap fun p _ => framed_paramParts x p).append (.fixed (by decide) .nil)

theorem wellFormed_interfaceBlock (owners : String) (c : ClassHead) :
    (interfaceBlock owners c).WellFormed :=
  ⟨by decide, (framed_descriptionParts (by decide) _ _).append
    (.fixed (by decide) (.said (by decide) .nil))⟩

mutual

theorem form_of_mem_interfaceComments {c : Comment} {owners : String} (m : Model)
    (h : c ∈ interfaceComments owners m) : ∃ owners head, c = interfaceBlock owners head := by
  cases m with
  | enumeration | property => exact ⟨_, _, List.mem_singleton.1 h⟩
  | object head nested =>
    rw [interfaceComments, List.mem_cons] at h
    exact h.elim (fun h => ⟨_, _, h⟩) (form_of_mem_nestedComments nested)

theorem form_of_mem_nestedComments {c : Comment} {owners : String} (ms : List Model)
    (h : c ∈ nestedComments owners ms) : ∃ owners head, c = interfaceBlock owners head := by
  cases ms with
  | nil => cases h
  | cons m ms =>
    rw [nestedComments, List.mem_append] at h
    exact h.elim (form_of_mem_interfaceComments m) (form_of_mem_nestedComments ms)

end

theorem form_of_mem_declarationComments {x : EmitContext} {c : Comment}
    (h : c ∈ declarationComments x) :
    (∃ m, c = methodBlock x m) ∨ ∃ owners head, c = interfaceBlock owners head := by
  rw [declarationComments, List.mem_append, List.mem_flatMap, clientComments, List.mem_flatMap] at h
  rcases h with ⟨m, -, h⟩ | ⟨m, -, h⟩
  · exact .inr (form_of_mem_interfaceComments m h)
  · exact .inl ⟨m, List.mem_singleton.1 h⟩

end JavaScript

/-! ## Files -/

/-- The comments with descriptions in a file of a client in Kotlin or JavaScript. -/
def commentsIn (l : Language) (x : EmitContext) (name : String) : List Comment :=
  match l with
  | .swift => []
  | .kotlin => Kotlin.comments x
  | .js =>
    if name = "index.js" then JavaScript.clientComments x
    else if name = "index.d.ts" then JavaScript.declarationComments x
    else []

/-- Comments nest in Swift and in Kotlin. -/
def rulesOf : Language → CommentRules
  | .swift | .kotlin => nesting
  | .js => javaScript

theorem standIn_commentsIn {l : Language} {x : EmitContext} {f : OutputFile} (h : f ∈ files l x) :
    StandIn ((commentsIn l x f.name).map Comment.written) f.text.toList := by
  cases l with
  | swift => exact .nothing _
  | kotlin =>
    rw [List.mem_singleton.1 h]
    exact Kotlin.standIn_comments x
  | js =>
    have hfiles : f = ⟨"index.js", JavaScript.client x⟩ ∨
        f = ⟨"index.d.ts", JavaScript.declarations x⟩ ∨
        commentsIn .js x f.name = [] := by
      simp only [files, Language.fileNames, texts, List.zipWith_cons_cons, List.zipWith_nil_left,
        List.mem_cons, List.not_mem_nil, or_false] at h
      rcases h with rfl | rfl | rfl | rfl | rfl
      · exact .inr (.inr rfl)
      · exact .inr (.inr rfl)
      · exact .inl rfl
      · exact .inr (.inl rfl)
      · exact .inr (.inr rfl)
    rcases hfiles with rfl | rfl | hnone
    · exact JavaScript.standIn_clientComments x
    · exact JavaScript.standIn_declarationComments x
    · rw [hnone]
      exact .nothing _

theorem form_of_mem_commentsIn {x : EmitContext} {name : String} {c : Comment}
    (h : c ∈ commentsIn .js x name) :
    (∃ m, c = JavaScript.methodBlock x m) ∨ ∃ owners head, c = JavaScript.interfaceBlock owners head := by
  rw [commentsIn] at h
  split at h
  · exact JavaScript.form_of_mem_declarationComments (List.mem_append_right _ h)
  · split at h
    · exact JavaScript.form_of_mem_declarationComments h
    · cases h

theorem wellFormed_of_mem_commentsIn {l : Language} {x : EmitContext} {name : String} {c : Comment}
    (h : c ∈ commentsIn l x name) : c.WellFormed := by
  cases l with
  | swift => cases h
  | kotlin => exact Kotlin.wellFormed_of_mem_comments h
  | js =>
    rcases form_of_mem_commentsIn h with ⟨m, rfl⟩ | ⟨owners, head, rfl⟩
    · exact JavaScript.wellFormed_methodBlock x m
    · exact JavaScript.wellFormed_interfaceBlock owners head

theorem keeps_iff_of_mem_commentsIn {x : EmitContext} {name : String} {c : Comment}
    (h : c ∈ commentsIn .js x name) :
    c.Keeps javaScript ↔ ∀ t ∈ c.said, ¬ closingMark <:+: t.source := by
  rcases form_of_mem_commentsIn h with ⟨m, rfl⟩ | ⟨owners, head, rfl⟩
  · exact Comment.keeps_block_iff rfl _ _
  · exact Comment.keeps_block_iff rfl _ _

/-- The comments with descriptions stand in the files of a client, and no description in them has
a line break. A comment ends where its template ends it exactly if the texts in it, as the
document has them, leave its end where it is: in JavaScript if none holds a closing mark, and in
Kotlin, where comments nest, if they close what they open. -/
theorem comments_end_iff {l : Language} {options : EmitOptions} {apis : List Api}
    {outputs : List OutputFile} (h : render l options apis = .ok outputs) {f : OutputFile}
    (hf : f ∈ outputs) :
    ∃ api ∈ apis, ∃ x, modelOf l api = .ok x.model ∧ context options api x.model = .ok x ∧
      f ∈ files l x ∧ StandIn ((commentsIn l x f.name).map Comment.written) f.text.toList ∧
      ∀ c ∈ commentsIn l x f.name,
        (∀ t ∈ c.said, (t.isDescription = true → ∀ a ∈ t.written, Text.isLineBreak a = false) ∧
          (closingMark <:+: t.written ↔ closingMark <:+: t.source)) ∧
        (∀ after, (rulesOf l).afterComment (c.written ++ after) = some ('\n' :: after) ↔
          c.Keeps (rulesOf l)) ∧
        (l = .js → (c.Keeps (rulesOf l) ↔ ∀ t ∈ c.said, ¬ closingMark <:+: t.source)) ∧
        ((∀ t ∈ c.said, ¬ closingMark <:+: t.source ∧ ¬ openingMark <:+: t.source) →
          c.Keeps (rulesOf l)) := by
  obtain ⟨api, hapi, x, hmodel, hx, hfile⟩ := mem_files_of_render h hf
  refine ⟨api, hapi, x, hmodel, hx, hfile, standIn_commentsIn hfile, fun c hc => ⟨?_, ?_, ?_, ?_⟩⟩
  · exact fun t _ => ⟨fun ht a ha => isLineBreak_of_mem_written ht ha,
      closingMark_infix_written_iff t⟩
  · exact fun after => afterComment_iff (wellFormed_of_mem_commentsIn hc) _ after
  · rintro rfl
    exact keeps_iff_of_mem_commentsIn hc
  · exact fun hmarks => Comment.keeps_of_unmarked _ hmarks

/-! ### Strays -/

def strays : Api where
  name := "Strays"
  className := "Strays"
  basePath := ""
  packageName := none
  document.members :=
    [("paths", .obj [("/strays", .obj [("get", .obj [("operationId", .str "find"),
      ("description", .str "All */ strays")])])])]

def strayComment : List Char :=
  "/**\n         * All */ strays\n         * @return Single<Response<Void>>\n         */\n".toList

theorem exists_render_strays : ∃ outputs x c, render .kotlin plainOptions [strays] = .ok outputs ∧
    modelOf .kotlin strays = .ok x.model ∧ context plainOptions strays x.model = .ok x ∧
    outputs = [⟨"Strays.kt", Kotlin.client x⟩] ∧ Kotlin.comments x = [c] ∧
    c.written = strayComment ∧ ¬ c.Keeps nesting := by
  have hbase : Assembly.fullBasePath strays.document strays.basePath = .ok "" := by
    rfl
  obtain ⟨outputs, x, hrender, hmodel, hx, hfiles, htest⟩ := exists_render_of_sorted .kotlin plainOptions
    (fun x => (Kotlin.comments x).map Comment.written == [strayComment] &&
      (Kotlin.comments x).all fun c => !decide (c.Keeps nesting)) hbase (by decide +kernel)
  obtain ⟨hwritten, hopen⟩ := Bool.and_eq_true_iff.1 htest
  obtain ⟨c, hc, hcomment⟩ := List.map_eq_singleton_iff.1 (beq_iff_eq.1 hwritten)
  rw [hc] at hopen
  refine ⟨outputs, x, c, hrender, hmodel, hx, ?_, hc, hcomment, by simpa using hopen⟩
  rw [hfiles, putAll_files_kotlin, className_of_context hx]
  rfl

theorem comments_end_iff_strays : ∃ outputs f, render .kotlin plainOptions [strays] = .ok outputs ∧
    f ∈ outputs ∧ StandIn [strayComment] f.text.toList ∧
    ∀ after, nesting.afterComment (strayComment ++ after) ≠ some ('\n' :: after) := by
  obtain ⟨outputs, x, c, hrender, hmodel, hx, rfl, hc, hcomment, hopen⟩ := exists_render_strays
  obtain ⟨api, hapi, x', hmodel', hx', -, hplaces, hends⟩ :=
    comments_end_iff hrender List.mem_cons_self
  obtain rfl := List.mem_singleton.1 hapi
  rw [Except.ok.inj (hmodel.symm.trans hmodel')] at hx
  obtain rfl := Except.ok.inj (hx.symm.trans hx')
  have hcomments : commentsIn .kotlin x "Strays.kt" = [c] := hc
  rw [hcomments] at hplaces hends
  obtain ⟨-, hend, -⟩ := hends c List.mem_cons_self
  rw [hcomment] at hend
  refine ⟨_, _, hrender, List.mem_cons_self, hcomment ▸ hplaces, fun after hafter => ?_⟩
  exact hopen ((hend after).1 hafter)

/-- A comment ends in the middle of the description that it was written for. -/
theorem stray_comment_ends_early : ∃ outputs x, render .kotlin plainOptions [strays] = .ok outputs ∧
    outputs = [⟨"Strays.kt", Kotlin.client x⟩] ∧
    StandIn [strayComment] (Kotlin.client x).toList ∧ ∀ after,
      nesting.afterComment (strayComment ++ after) =
        some (" strays\n         * @return Single<Response<Void>>\n         */\n".toList ++ after) := by
  obtain ⟨outputs, x, c, hrender, -, -, houtputs, hc, hcomment, -⟩ := exists_render_strays
  have hplaces := Kotlin.standIn_comments x
  rw [hc, List.map_cons, hcomment] at hplaces
  exact ⟨outputs, x, hrender, houtputs, hplaces, fun after => rfl⟩

end Emit

end ClientForge
