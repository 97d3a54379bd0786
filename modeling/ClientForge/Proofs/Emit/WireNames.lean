-- SUMMARY: The literals of a Kotlin client that hold texts of the document, and which of those are read back from them.
import ClientForge.Proofs.Emit.Files
import ClientForge.Proofs.Emit.Literals

/-!
# Names on the wire

A Kotlin client has the texts of the document that matter on the wire in literals: the paths of
its methods, the names of parameters that are sent in the path, the query or a header, the keys of
properties, and the values of enumerations. They stand in the file in the order of `literals`
(`standIn_client`), and from each its text is read back exactly if the text has no character that
spoils the spelling of that place (`wire_names_kept_iff`). Only paths and the values of
enumeration cases have their dollar signs escaped, so a parameter named `$filter` is a template.
-/

namespace ClientForge

namespace Emit.Kotlin

open Outcome

/-! ## The literals of a client -/

/-- A text in the JSON text of a value: a string, or a key that is none and stands between quotes
as it is. -/
inductive Quoted
  | string (s : String)
  | verbatim (cs : List Char)
deriving DecidableEq, Repr

def Quoted.plain : Quoted → Literal
  | .string s => ⟨.quoted, s.toList⟩
  | .verbatim cs => ⟨.bare, cs⟩

def Quoted.withDollars : Quoted → Literal
  | .string s => ⟨.quotedEscaped, s.toList⟩
  | .verbatim cs => ⟨.escaped, cs⟩

def keyText : Key → Quoted
  | .text s => .string s
  | k => .verbatim (Json.writtenScalar .plain k.toJson)

mutual

/-- The texts in the JSON text of a value. -/
def textsIn : Json → List Quoted
  | .str s => [.string s]
  | .arr items => textsInItems items
  | .obj members => textsInMembers members
  | _ => []

def textsInItems : List Json → List Quoted
  | [] => []
  | v :: vs => textsIn v ++ textsInItems vs

def textsInMembers : List (Key × Json) → List Quoted
  | [] => []
  | (k, v) :: ms => keyText k :: (textsIn v ++ textsInMembers ms)

end

/-- The texts of a case, in its mark and in the value that it is made with. -/
def caseLiterals (c : EnumCase) : List Literal :=
  (textsIn c.value).map Quoted.plain ++ (textsIn c.value).map Quoted.withDollars

def enumLiterals : Model → List Literal
  | .enumeration e => e.cases.flatMap caseLiterals
  | _ => []

def propertyLiterals (p : Property) : List Literal := [⟨.member, (specText p.specName).toList⟩]

def headLiterals (c : ClassHead) : List Literal := c.initializer.flatMap propertyLiterals

/-- The keys of the properties of a class and of those nested in it. -/
def classLiterals (m : Model) : List Literal := ofClass headLiterals m

/-- The name of a parameter where its mark gives one. -/
def markLiterals (p : Param) : List Literal :=
  match p.location with
  | .str "path" | .str "query" | .str "header" => [⟨.bare, p.serverName.asText.toList⟩]
  | _ => []

def methodLiterals (m : Method) : List Literal :=
  ⟨.escaped, m.path.toList⟩ :: m.params.flatMap markLiterals

/-- The literals that hold texts of the document, in the order of the file. -/
def literals (x : EmitContext) : List Literal :=
  x.model.methods.flatMap methodLiterals ++ x.model.objects.flatMap classLiterals ++
    x.model.enums.flatMap enumLiterals

/-! ## Where they stand -/

theorem standIn_marked (mark : String) (p : Param) :
    StandIn [Literal.written ⟨.bare, p.serverName.asText.toList⟩] (marked mark p).toList := by
  have heq : (marked mark p).toList = (mark.toList ++ ['(']) ++
      Literal.written ⟨.bare, p.serverName.asText.toList⟩ ++ ") ".toList := by
    simp [marked, Literal.written, Literal.laid, flatMap_char_bare]
  rw [heq]
  exact .single _ _ _

theorem standIn_placeMark (p : Param) :
    StandIn ((markLiterals p).map Literal.written) (placeMark p).toList := by
  unfold markLiterals
  split
  · rename_i hplace
    simp only [placeMark, hplace]
    exact standIn_marked _ p
  · rename_i hplace
    simp only [placeMark, hplace]
    exact standIn_marked _ p
  · rename_i hplace
    simp only [placeMark, hplace]
    exact standIn_marked _ p
  · exact .nothing _

theorem standIn_parameter (last : Bool) (p : Param) :
    StandIn ((markLiterals p).map Literal.written) (parameter last p).toList :=
  standIn_drop 1 (standIn_head (standIn_placeMark p))

/-- The verb of a method with its path, and what comes behind them. -/
theorem standIn_route {vs : List (List Char)} {ps : List String} (verb path : String)
    (h : StandIn vs (pieces ps).toList) :
    StandIn (Literal.written ⟨.escaped, path.toList⟩ :: vs)
      (pieces (verb :: "(\"" :: kotlinText path :: "\")\n" :: ps)).toList := by
  have heq : (pieces (verb :: "(\"" :: kotlinText path :: "\")\n" :: ps)).toList =
      (verb.toList ++ ['(']) ++ Literal.written ⟨.escaped, path.toList⟩ ++
        ([')', '\n'] ++ (pieces ps).toList) := by
    simp [kotlinText, Literal.written, Literal.laid, flatMap_char_escaped]
  rw [heq]
  exact .next _ _ (h.after _)

theorem standIn_method (m : Method) :
    StandIn ((methodLiterals m).map Literal.written) (method m).toList := by
  have hparams : StandIn ((m.params.flatMap markLiterals).map Literal.written)
      (each parameter m.params).toList :=
    standIn_each fun p _ last => standIn_parameter last p
  exact standIn_drop 10 (standIn_route _ m.path (standIn_drop 6 (standIn_head hparams)))

/-! ### Classes -/

theorem standIn_propertyLine (last : Bool) (p : Property) :
    StandIn ((propertyLiterals p).map Literal.laid) (propertyLine last p).toList := by
  have heq : (propertyLine last p).toList = "    @SerializedName(".toList ++
      Literal.laid ⟨.member, (specText p.specName).toList⟩ ++
        (pieces [") val ", showText p.name, ": ", showText p.type,
          onlyIf (!p.isRequired) "? = null", comma last,
          onlyIf p.description.truthy (pieces ["  // ", described p.description]), "\n"]).toList := by
    simp [propertyLine, Literal.laid, flatMap_char_member]
  rw [heq]
  exact .single _ _ _

theorem placed_laid (l : Literal) : Placed l.laid where
  starts := ⟨'"', rfl, by decide⟩
  ends := by
    rw [Literal.laid, List.getLast?_concat]
    decide

theorem standIn_headLiterals {nested : List String} {ws : List (List Char)} (c : ClassHead)
    (h : StandIn ws (nestedText nested).toList) :
    StandIn ((headLiterals c).map Literal.laid ++ ws) (classText c nested).toList := by
  have hproperties : StandIn ((headLiterals c).map Literal.laid)
      (each propertyLine c.initializer).toList :=
    standIn_each fun p _ last => standIn_propertyLine last p
  exact standIn_drop 5
    (standIn_cons hproperties (standIn_drop 2 (standIn_head (standIn_classBody h))))

/-- A literal of a class is cut off at its first line break where the class is set in. -/
theorem literals_standInClasses : StandsInClasses headLiterals Literal.laid Literal.written where
  placed _ l _ := placed_laid l
  cut head l hl := by
    obtain ⟨p, -, hl⟩ := List.mem_flatMap.1 hl
    rw [List.mem_singleton.1 hl, Literal.written, if_pos rfl]
  standIn head _ _ h := standIn_headLiterals head h

/-! ### Enumerations -/

theorem written_plain_keyText (k : Key) : (keyText k).plain.written = Json.writtenKey .plain k := by
  cases k with
  | text s => rfl
  | int | float | bool | null =>
    change Literal.laid ⟨.bare, _⟩ = _
    rw [Literal.laid, flatMap_char_bare]
    rfl

mutual

theorem standIn_inline (v : Json) :
    StandIn ((textsIn v).map fun t => t.plain.written) (Json.inlineChars .plain v) := by
  cases v with
  | null | bool | int | float => exact .nothing _
  | str s =>
    have h := StandIn.single [] (Json.writtenText .plain s) []
    rw [List.append_nil] at h
    exact h
  | arr items => exact (standIn_inlineItems items).after ['['] |>.before [']']
  | obj members => exact (standIn_inlineMembers members).after ['\x7b'] |>.before ['\x7d']

theorem standIn_inlineItems (vs : List Json) :
    StandIn ((textsInItems vs).map fun t => t.plain.written) (Json.inlineItems .plain vs) := by
  cases vs with
  | nil => exact .nothing _
  | cons v vs =>
    rw [textsInItems, List.map_append]
    cases vs with
    | nil => exact (List.append_nil _).symm ▸ standIn_inline v
    | cons v' vs =>
      rw [Json.inlineItems]
      · exact (standIn_inline v).append ((standIn_inlineItems (v' :: vs)).after [',', ' '])
      · simp

theorem standIn_inlineMembers (ms : List (Key × Json)) :
    StandIn ((textsInMembers ms).map fun t => t.plain.written) (Json.inlineMembers .plain ms) := by
  cases ms with
  | nil => exact .nothing _
  | cons m ms =>
    obtain ⟨k, v⟩ := m
    rw [textsInMembers, List.map_cons, List.map_append, written_plain_keyText]
    cases ms with
    | nil =>
      have hvalue := (standIn_inline v).after [':', ' ']
      exact .next [] _ ((List.append_nil _).symm ▸ hvalue)
    | cons m' ms =>
      rw [Json.inlineMembers]
      · have hrest := (standIn_inlineMembers (m' :: ms)).after [',', ' ']
        have hvalue := ((standIn_inline v).append hrest).after [':', ' ']
        rw [List.append_assoc]
        exact .next [] _ hvalue
      · simp

end

theorem withDollars_written (t : Quoted) : t.withDollars.written = escapeDollars t.plain.written := by
  have hends (cs : List Char) : escapeDollars ('"' :: cs ++ ['"']) = '"' :: escapeDollars cs ++ ['"'] := by
    simp [escapeDollars]
  cases t with
  | string s =>
    change Literal.laid ⟨.quotedEscaped, _⟩ = escapeDollars (Literal.laid ⟨.quoted, _⟩)
    rw [Literal.laid, Literal.laid, flatMap_char_quotedEscaped, hends]
  | verbatim cs =>
    change Literal.laid ⟨.escaped, _⟩ = escapeDollars (Literal.laid ⟨.bare, _⟩)
    rw [Literal.laid, Literal.laid, flatMap_char_escaped, flatMap_char_bare, hends]

theorem standIn_literal (v : Json) :
    StandIn (((textsIn v).map Quoted.plain).map Literal.written) (literal v).toList := by
  rw [List.map_map, literal, Json.inline, String.toList_ofList]
  exact standIn_inline v

theorem standIn_kotlinText_literal (v : Json) :
    StandIn (((textsIn v).map Quoted.withDollars).map Literal.written)
      (kotlinText (literal v)).toList := by
  have h := (standIn_literal v).flatMap fun c => if c = '$' then ['\\', '$'] else [c]
  have heq : ((textsIn v).map Quoted.withDollars).map Literal.written =
      (((textsIn v).map Quoted.plain).map Literal.written).map escapeDollars := by
    rw [List.map_map, List.map_map, List.map_map]
    exact List.map_congr_left fun t _ => withDollars_written t
  rw [heq, kotlinText, String.toList_ofList]
  exact h

theorem standIn_enumCase (last : Bool) (c : EnumCase) :
    StandIn ((caseLiterals c).map Literal.written) (enumCase last c).toList := by
  rw [caseLiterals, List.map_append]
  exact standIn_drop 1 (standIn_cons (standIn_literal c.value)
    (standIn_drop 3 (standIn_head (standIn_kotlinText_literal c.value))))

theorem standIn_enumOf (m : Model) :
    StandIn ((enumLiterals m).map Literal.written) (enumOf m).toList := by
  cases m with
  | object | property => exact .nothing _
  | enumeration e =>
    exact standIn_drop 5 (standIn_head (standIn_each fun c _ last => standIn_enumCase last c))

/-! ### Files -/

/-- The texts of the document stand in their literals, and these in the file, in order. -/
theorem standIn_client (x : EmitContext) :
    StandIn ((literals x).map Literal.written) (client x).toList := by
  have hmethods : StandIn ((x.model.methods.flatMap methodLiterals).map Literal.written)
      (forEach x.model.methods method).toList :=
    standIn_forEach fun m _ => standIn_method m
  have hclasses : StandIn ((x.model.objects.flatMap classLiterals).map Literal.written)
      (forEach x.model.objects fun m => pieces [setIn (dataClass m), "\n"]).toList :=
    standIn_forEach fun m _ => literals_standInClasses.dataClass m
  have henums : StandIn ((x.model.enums.flatMap enumLiterals).map Literal.written)
      (forEach x.model.enums enumOf).toList :=
    standIn_forEach fun m _ => standIn_enumOf m
  rw [literals, List.append_assoc, List.map_append, List.map_append]
  exact standIn_drop 15 (standIn_cons hmethods (standIn_drop 5 (standIn_cons hclasses
    (standIn_drop 3 (standIn_head henums)))))

theorem text_of_mem_files {x : EmitContext} {f : OutputFile} (h : f ∈ files .kotlin x) :
    f.text = client x := by
  rw [List.mem_singleton.1 h]

/-- Every file of a Kotlin client holds its literals, and what a literal is read as is the text of
the document exactly if no character of that spoils the spelling. -/
theorem wire_names_kept_iff {options : EmitOptions} {apis : List Api} {outputs : List OutputFile}
    (h : render .kotlin options apis = .ok outputs) {f : OutputFile} (hf : f ∈ outputs) :
    ∃ api ∈ apis, ∃ x, modelOf .kotlin api = .ok x.model ∧
      context options api x.model = .ok x ∧ f.text = client x ∧
      StandIn ((literals x).map Literal.written) f.text.toList ∧
      ∀ l ∈ literals x, ∀ after, readLiteral (l.written ++ after) = some (units l.source, after) ↔
        ∀ c ∈ l.source, l.spelling.spoils c = false := by
  obtain ⟨api, hapi, x, hmodel, hx, hf⟩ := mem_files_of_render h hf
  have htext := text_of_mem_files hf
  exact ⟨api, hapi, x, hmodel, hx, htext, htext ▸ standIn_client x,
    fun l _ after => readLiteral_written_iff l after⟩

/-! ### Orders that can be filtered -/

def orders : Api where
  name := "Orders"
  className := "Orders"
  basePath := ""
  packageName := none
  document.members :=
    [("paths", .obj [("/$batch", .obj [("get", .obj [("operationId", .str "find"),
      ("parameters", .arr [.obj
        [("name", .str "$filter"), ("in", .str "query"), ("type", .str "string")]])])])])]

def batchPath : Literal := ⟨.escaped, "/$batch".toList⟩

def filterName : Literal := ⟨.bare, "$filter".toList⟩

theorem exists_render_orders : ∃ outputs x, render .kotlin plainOptions [orders] = .ok outputs ∧
    modelOf .kotlin orders = .ok x.model ∧ context plainOptions orders x.model = .ok x ∧
    outputs = [⟨"Orders.kt", client x⟩] ∧ literals x = [batchPath, filterName] := by
  have hbase : Assembly.fullBasePath orders.document orders.basePath = .ok "" := by
    rfl
  obtain ⟨outputs, x, hrender, hmodel, hx, hfiles, htest⟩ := exists_render_of_sorted .kotlin plainOptions
    (fun x => decide (literals x = [batchPath, filterName])) hbase
    (by decide +kernel)
  refine ⟨outputs, x, hrender, hmodel, hx, ?_, of_decide_eq_true htest⟩
  rw [hfiles, putAll_files_kotlin, className_of_context hx]
  rfl

theorem wire_names_kept_iff_orders : ∃ outputs x, render .kotlin plainOptions [orders] = .ok outputs ∧
    ⟨"Orders.kt", client x⟩ ∈ outputs ∧
    StandIn [batchPath.written, filterName.written] (client x).toList ∧ ∀ after,
      readLiteral (batchPath.written ++ after) = some (units batchPath.source, after) ∧
      readLiteral (filterName.written ++ after) ≠ some (units filterName.source, after) := by
  obtain ⟨outputs, x, hrender, hmodel, hx, rfl, hliterals⟩ := exists_render_orders
  obtain ⟨api, hapi, x', hmodel', hx', htext, hplaces, hread⟩ :=
    wire_names_kept_iff hrender List.mem_cons_self
  obtain rfl := List.mem_singleton.1 hapi
  rw [Except.ok.inj (hmodel.symm.trans hmodel')] at hx
  obtain rfl := Except.ok.inj (hx.symm.trans hx')
  rw [hliterals] at hplaces hread
  refine ⟨_, x, hrender, List.mem_cons_self, hplaces, fun after => ⟨?_, ?_⟩⟩
  · exact (hread batchPath (by simp) after).2 (forall_eq_false_of_all (by decide))
  · intro h
    have hdollar := (hread filterName (by simp) after).1 h '$' (by decide)
    exact absurd hdollar (by decide)

/-- The name of a parameter is read as a template, and a path with the same sign in it as it is. -/
theorem filter_not_read_back : ∃ outputs x, render .kotlin plainOptions [orders] = .ok outputs ∧
    outputs = [⟨"Orders.kt", client x⟩] ∧
    StandIn ["\"/\\$batch\"".toList, "\"$filter\"".toList] (client x).toList ∧ ∀ after,
      readLiteral ("\"/\\$batch\"".toList ++ after) = some (units "/$batch".toList, after) ∧
      readLiteral ("\"$filter\"".toList ++ after) = none := by
  obtain ⟨outputs, x, hrender, -, -, houtputs, hliterals⟩ := exists_render_orders
  have hplaces := standIn_client x
  rw [hliterals] at hplaces
  exact ⟨outputs, x, hrender, houtputs, hplaces, fun after => ⟨rfl, rfl⟩⟩

end Emit.Kotlin

end ClientForge
