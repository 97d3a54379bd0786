-- SUMMARY: URLs put together in several steps are those put together at once, and what they look like.
import Mathlib.Data.List.DropRight
import Mathlib.Data.List.Forall2
import ClientForge.Proofs.Api.Operations
import ClientForge.Target.Language

/-!
# Joining URLs

A URL is a slash, if its first text that is not empty starts with one, before what the texts have
between the slashes at their ends (`joinChars_eq`). A URL that is a part of another one has no
more slashes at its ends than the one in front, so it adds what its own parts add
(`joinChars_nested`), and whether it starts with a slash is a matter of its own parts as well
(`leads_cons_joinChars`). The same holds of the values that URLs are put together from, and the
path of a method, which is put together in two steps, is the URL of everything in it
(`join_flattens`).
-/

namespace ClientForge

namespace Url

open Outcome

/-! ## Slashes at the ends -/

/-- A text with no slash at its ends. -/
def Bare (cs : List Char) : Prop := cs.head? ≠ some '/' ∧ cs.getLast? ≠ some '/'

/-- What stands between the slashes at the ends of a text. -/
structure Strips (text piece : List Char) : Prop where
  around : ∃ m n, text = List.replicate m '/' ++ piece ++ List.replicate n '/'
  bare : Bare piece

theorem exists_slashes_before (cs : List Char) :
    ∃ n, cs = List.replicate n '/' ++ cs.dropWhile (· == '/') := by
  induction cs with
  | nil => exact ⟨0, rfl⟩
  | cons c cs ih =>
    by_cases hc : c = '/'
    · obtain ⟨n, hn⟩ := ih
      refine ⟨n + 1, ?_⟩
      rw [hc, List.dropWhile_cons_of_pos (by decide), List.replicate_succ, List.cons_append, ← hn]
    · refine ⟨0, ?_⟩
      rw [List.dropWhile_cons_of_neg (by simpa using hc)]
      rfl

theorem head?_dropWhile_slash (cs : List Char) : (cs.dropWhile (· == '/')).head? ≠ some '/' := by
  intro h
  have hfirst := List.head?_dropWhile_not (· == '/') cs
  rw [h] at hfirst
  cases hfirst

/-- A text that does not start with a slash does not start with one when its end is cut off. -/
theorem head?_ne_of_prefix {cs ds : List Char} (h : cs <+: ds) (hds : ds.head? ≠ some '/') :
    cs.head? ≠ some '/' := by
  obtain ⟨rest, rfl⟩ := h
  cases cs with
  | nil => simp
  | cons c cs => exact hds

theorem strips_stripSlashes (cs : List Char) : Strips cs (stripSlashes cs) := by
  obtain ⟨m, hm⟩ := exists_slashes_before cs
  obtain ⟨n, hn⟩ := exists_slashes_before (cs.dropWhile (· == '/')).reverse
  have hcut : cs.dropWhile (· == '/') = stripSlashes cs ++ List.replicate n '/' := by
    have := congrArg List.reverse hn
    rwa [List.reverse_reverse, List.reverse_append, List.reverse_replicate] at this
  refine ⟨⟨m, n, ?_⟩, ?_, ?_⟩
  · rw [List.append_assoc, ← hcut]
    exact hm
  · exact head?_ne_of_prefix ⟨_, hcut.symm⟩ (head?_dropWhile_slash cs)
  · rw [stripSlashes, List.getLast?_reverse]
    exact head?_dropWhile_slash _

theorem stripSlashes_of_bare {cs : List Char} (h : Bare cs) : stripSlashes cs = cs := by
  have hkept : ∀ ds : List Char, ds.head? ≠ some '/' → ds.dropWhile (· == '/') = ds := by
    intro ds hds
    cases ds with
    | nil => rfl
    | cons d ds => exact List.dropWhile_cons_of_neg (by simpa using hds)
  rw [stripSlashes, hkept cs h.1, hkept cs.reverse (by rw [List.head?_reverse]; exact h.2),
    List.reverse_reverse]

theorem stripSlashes_slash_cons (cs : List Char) : stripSlashes ('/' :: cs) = stripSlashes cs := rfl

/-- What starts with another character than a slash starts with it still. -/
theorem exists_stripSlashes_cons {c : Char} (hc : c ≠ '/') (cs : List Char) :
    ∃ rest, stripSlashes (c :: cs) = c :: rest := by
  obtain ⟨⟨m, n, h⟩, -⟩ := strips_stripSlashes (c :: cs)
  cases m with
  | succ m =>
    rw [List.replicate_succ] at h
    exact absurd (List.cons.inj h).1 hc
  | zero =>
    cases hpiece : stripSlashes (c :: cs) with
    | nil =>
      rw [hpiece] at h
      have hmem : c ∈ List.replicate n '/' := by
        have hc : c ∈ c :: cs := List.mem_cons_self
        rwa [h] at hc
      exact absurd (List.eq_of_mem_replicate hmem) hc
    | cons d rest =>
      rw [hpiece] at h
      exact ⟨rest, by rw [(List.cons.inj h).1]⟩

/-! ## Pieces -/

theorem segments_append (ps qs : List (List Char)) :
    segments (ps ++ qs) = segments ps ++ segments qs := by
  simp [segments]

theorem segments_filter (ps : List (List Char)) :
    segments (ps.filter (! ·.isEmpty)) = segments ps := by
  induction ps with
  | nil => rfl
  | cons p ps ih =>
    cases p with
    | nil => exact ih
    | cons c cs =>
      rw [List.filter_cons_of_pos rfl, segments, List.map_cons, List.filter_cons, ← segments, ih]
      rw [segments, segments, List.map_cons, List.filter_cons]

theorem of_mem_segments {ps : List (List Char)} {piece : List Char} (h : piece ∈ segments ps) :
    piece ≠ [] ∧ Bare piece := by
  obtain ⟨hmem, hne⟩ := List.mem_filter.1 h
  obtain ⟨p, -, rfl⟩ := List.mem_map.1 hmem
  exact ⟨by simpa using hne, (strips_stripSlashes p).bare⟩

/-- Pieces with one slash between each two are something if there is one. -/
theorem intercalate_ne_nil {pieces : List (List Char)} (hne : pieces ≠ []) (h : ∀ p ∈ pieces, p ≠ []) :
    ['/'].intercalate pieces ≠ [] := by
  match pieces with
  | [] => exact absurd rfl hne
  | [p] => simpa using h p
  | p :: q :: ps => simp [List.intercalate_cons_cons]

theorem head?_intercalate {p : List Char} (hp : p ≠ []) (ps : List (List Char)) :
    (['/'].intercalate (p :: ps)).head? = p.head? := by
  obtain ⟨c, cs, rfl⟩ := List.exists_cons_of_ne_nil hp
  cases ps with
  | nil => simp
  | cons q qs => simp [List.intercalate_cons_cons]

/-- The slashes between pieces are not at the ends. -/
theorem bare_intercalate {pieces : List (List Char)} (h : ∀ p ∈ pieces, p ≠ [] ∧ Bare p) :
    Bare (['/'].intercalate pieces) := by
  induction pieces with
  | nil => exact ⟨by simp, by simp⟩
  | cons p ps ih =>
    obtain ⟨⟨hp, hbare⟩, hps⟩ := List.forall_mem_cons.1 h
    refine ⟨by rw [head?_intercalate hp]; exact hbare.1, ?_⟩
    cases ps with
    | nil => simpa using hbare.2
    | cons q qs =>
      have hrest := intercalate_ne_nil (List.cons_ne_nil q qs) fun p hp => (hps p hp).1
      rw [List.intercalate_cons_cons, List.getLast?_append_of_ne_nil _ hrest]
      exact (ih hps).2

/-- Pieces of which one is put together from others are those others in its place. -/
theorem intercalate_nested (ps : List (List Char)) {qs : List (List Char)} (hqs : qs ≠ [])
    (rs : List (List Char)) :
    ['/'].intercalate (ps ++ ['/'].intercalate qs :: rs) = ['/'].intercalate (ps ++ qs ++ rs) := by
  have hfirst : ['/'].intercalate (['/'].intercalate qs :: rs) = ['/'].intercalate (qs ++ rs) := by
    cases rs with
    | nil => simp
    | cons r rs =>
      induction qs with
      | nil => exact absurd rfl hqs
      | cons q qs ih =>
        cases qs with
        | nil => simp
        | cons q' qs =>
          have ih := ih (List.cons_ne_nil _ _)
          simp only [List.intercalate_cons_cons, List.cons_append, List.append_assoc] at ih ⊢
          rw [ih]
  induction ps with
  | nil => exact hfirst
  | cons p ps ih =>
    cases ps with
    | nil =>
      obtain ⟨q, qs, rfl⟩ := List.exists_cons_of_ne_nil hqs
      simp only [List.nil_append, List.cons_append, List.intercalate_cons_cons] at hfirst ⊢
      rw [hfirst]
    | cons p' ps =>
      simp only [List.cons_append, List.intercalate_cons_cons] at ih ⊢
      rw [ih]

/-! ## The slash in front -/

/-- The first text that is not empty starts with a slash. -/
def leads : List (List Char) → Bool
  | [] => false
  | [] :: ps => leads ps
  | (c :: _) :: _ => c == '/'

/-- The slash in front of a URL. -/
def front (ps : List (List Char)) : List Char := if leads ps then ['/'] else []

theorem joinChars_eq (ps : List (List Char)) :
    joinChars ps = front ps ++ ['/'].intercalate (segments ps) := by
  induction ps with
  | nil => rfl
  | cons p ps ih =>
    cases p with
    | nil => exact ih
    | cons c cs =>
      have hpieces : segments ((c :: cs) :: ps.filter (! ·.isEmpty)) = segments ((c :: cs) :: ps) := by
        rw [← List.singleton_append, segments_append, segments_filter, ← segments_append,
          List.singleton_append]
      rw [joinChars, List.filter_cons_of_pos rfl]
      simp only [hpieces, front, leads, List.head?_cons, Option.some.injEq, beq_iff_eq]

/-- A URL starts with a slash exactly if the first of its texts does. -/
theorem head?_joinChars_cons (c : Char) (cs : List Char) (ps : List (List Char)) :
    (joinChars ((c :: cs) :: ps)).head? = some c := by
  rw [joinChars_eq, front, leads]
  by_cases hc : c = '/'
  · rw [hc, if_pos (by decide)]
    rfl
  · obtain ⟨rest, hrest⟩ := exists_stripSlashes_cons hc cs
    have hpieces : segments ((c :: cs) :: ps) = (c :: rest) :: segments ps := by
      rw [segments, List.map_cons, hrest, List.filter_cons_of_pos rfl, ← segments]
    rw [if_neg (by simp [hc]), List.nil_append, hpieces, head?_intercalate (List.cons_ne_nil _ _),
      List.head?_cons]

theorem leads_cons_joinChars (ys zs : List (List Char)) :
    leads (joinChars ys :: zs) = leads (ys ++ zs) := by
  induction ys with
  | nil => rfl
  | cons y ys ih =>
    cases y with
    | nil => exact ih
    | cons c cs =>
      obtain ⟨rest, hrest⟩ := List.head?_eq_some_iff.1 (head?_joinChars_cons c cs ys)
      rw [hrest]
      rfl

theorem head?_joinChars_iff {ps : List (List Char)} :
    (joinChars ps).head? = some '/' ↔ leads ps = true := by
  induction ps with
  | nil => simp [joinChars, leads]
  | cons p ps ih =>
    cases p with
    | nil => exact ih
    | cons c cs => rw [head?_joinChars_cons, Option.some.injEq, leads, beq_iff_eq]

theorem leads_append_congr (xs : List (List Char)) {ys zs : List (List Char)}
    (h : leads ys = leads zs) : leads (xs ++ ys) = leads (xs ++ zs) := by
  induction xs with
  | nil => exact h
  | cons x xs ih =>
    cases x with
    | nil => exact ih
    | cons c cs => rfl

/-! ## URLs in URLs -/

theorem stripSlashes_joinChars (ys : List (List Char)) :
    stripSlashes (joinChars ys) = ['/'].intercalate (segments ys) := by
  have hbare : Bare (['/'].intercalate (segments ys)) := bare_intercalate fun p => of_mem_segments
  rw [joinChars_eq, front]
  split
  · rw [List.singleton_append, stripSlashes_slash_cons, stripSlashes_of_bare hbare]
  · rw [List.nil_append, stripSlashes_of_bare hbare]

/-- A URL is one piece, unless nothing but slashes is in it. -/
theorem segments_joinChars (ys : List (List Char)) :
    segments [joinChars ys] =
      if segments ys = [] then [] else [['/'].intercalate (segments ys)] := by
  rw [segments, List.map_singleton, stripSlashes_joinChars]
  split
  · rename_i hnone
    rw [hnone]
    rfl
  · rename_i hsome
    have hne := intercalate_ne_nil hsome fun p hp => (of_mem_segments hp).1
    exact List.filter_cons_of_pos (by simpa using hne)

/-- A URL that is a part of another one adds what its own parts add. -/
theorem joinChars_nested (xs ys zs : List (List Char)) :
    joinChars (xs ++ joinChars ys :: zs) = joinChars (xs ++ ys ++ zs) := by
  have hfront : front (xs ++ joinChars ys :: zs) = front (xs ++ ys ++ zs) := by
    rw [front, front, List.append_assoc, leads_append_congr xs (leads_cons_joinChars ys zs)]
  have hurl : segments (joinChars ys :: zs) = segments [joinChars ys] ++ segments zs :=
    segments_append [joinChars ys] zs
  rw [joinChars_eq, joinChars_eq (xs ++ ys ++ zs), hfront, segments_append, hurl, segments_joinChars,
    segments_append, segments_append]
  split
  · rename_i hnone
    rw [hnone, List.nil_append, List.append_nil]
  · rename_i hsome
    rw [List.singleton_append, intercalate_nested _ hsome]

theorem join_nested (xs ys zs : List String) : join (xs ++ join ys :: zs) = join (xs ++ ys ++ zs) := by
  simp only [join, List.map_append, List.map_cons, String.toList_ofList, joinChars_nested]

/-! ## What URLs look like -/

/-- A URL made from some texts is nothing, a slash alone, or what the texts have between the
slashes at their ends, where that is something, with one slash between each two of these pieces
and one in front if the first text that is not empty starts with one. -/
inductive IsJoin (texts : List (List Char)) : List Char → Prop
  | nothing (h : ∀ t ∈ texts, t = []) : IsJoin texts []
  | slash (h : ∀ t ∈ texts, ∀ c ∈ t, c = '/') (hsome : ∃ t ∈ texts, t ≠ []) : IsJoin texts ['/']
  | pieces {stripped : List (List Char)} (h : List.Forall₂ Strips texts stripped)
      (hsome : ∃ p ∈ stripped, p ≠ []) :
      IsJoin texts (front texts ++ ['/'].intercalate (stripped.filter (! ·.isEmpty)))

theorem isJoin_joinChars (ps : List (List Char)) : IsJoin ps (joinChars ps) := by
  rw [joinChars_eq]
  by_cases hnone : segments ps = []
  · have hslashes : ∀ t ∈ ps, ∀ c ∈ t, c = '/' := by
      intro t ht c hc
      have hempty : stripSlashes t = [] := by
        simpa using List.filter_eq_nil_iff.1 hnone (stripSlashes t) (List.mem_map_of_mem ht)
      obtain ⟨⟨m, n, h⟩, -⟩ := strips_stripSlashes t
      rw [h, hempty] at hc
      rcases List.mem_append.1 hc with hc | hc
      · exact List.eq_of_mem_replicate (by simpa using hc)
      · exact List.eq_of_mem_replicate hc
    have hleads : leads ps = true ↔ ∃ t ∈ ps, t ≠ [] := by
      induction ps with
      | nil => simp [leads]
      | cons p ps ih =>
        obtain ⟨hp, hps⟩ := List.forall_mem_cons.1 hslashes
        cases p with
        | nil => simpa [leads] using ih hnone hps
        | cons c cs => simp [leads, hp c List.mem_cons_self]
    rw [hnone, front]
    split
    · rename_i h
      exact .slash hslashes (hleads.1 h)
    · rename_i h
      refine .nothing fun t ht => ?_
      by_contra hne
      exact h (hleads.2 ⟨t, ht, hne⟩)
  · obtain ⟨p, hp⟩ := List.exists_mem_of_ne_nil _ hnone
    refine .pieces ?_ ⟨p, (List.mem_filter.1 hp).1, (of_mem_segments hp).1⟩
    rw [List.forall₂_map_right_iff]
    exact List.forall₂_same.2 fun t _ => strips_stripSlashes t

/-- No slash at the end of a URL but the one that stands alone. -/
theorem getLast?_joinChars {ps : List (List Char)} (h : joinChars ps ≠ ['/']) :
    (joinChars ps).getLast? ≠ some '/' := by
  have hbare : Bare (['/'].intercalate (segments ps)) := bare_intercalate fun p => of_mem_segments
  rw [joinChars_eq] at h ⊢
  by_cases hnone : ['/'].intercalate (segments ps) = []
  · rw [hnone, List.append_nil, front] at h ⊢
    split
    · rename_i hleads
      exact absurd (by rw [if_pos hleads]) h
    · simp
  · rw [List.getLast?_append_of_ne_nil _ hnone]
    exact hbare.2

/-! ## URLs from values -/

/-- The URL put together from some values: of those that are false nothing is left. -/
def ofValues (parts : List Json) : Except Failure String := do
  return join (← parts.mapM Method.pathPart)

/-- A value as text, nothing if it is false. -/
def textOf (v : Json) : String := if v.truthy then v.asText else ""

/-- Whether what is shown of a value can be written. -/
def isShowable (v : Json) : Bool := !v.truthy || v.isWritable

theorem pathPart_eq (v : Json) :
    Method.pathPart v = if isShowable v then .ok (textOf v) else .error (.malformed .noNumber) := by
  rw [Method.pathPart, Json.shown, isShowable, textOf]
  cases v.truthy <;> cases v.isWritable <;> rfl

theorem ofValues_of_parts {parts : List Json} {texts : List String}
    (h : List.Forall₂ (fun v t => Method.pathPart v = .ok t) parts texts) :
    ofValues parts = .ok (join texts) := by
  rw [ofValues, mapM_eq_ok.2 h, ok_bind, pure_eq]

theorem ofValues_eq (parts : List Json) :
    ofValues parts = if parts.all isShowable then .ok (join (parts.map textOf))
      else .error (.malformed .noNumber) := by
  have hparts : parts.mapM Method.pathPart = if parts.all isShowable then .ok (parts.map textOf)
      else .error (.malformed .noNumber) := by
    induction parts with
    | nil => rfl
    | cons v vs ih =>
      rw [List.mapM_cons, pathPart_eq, ih, List.all_cons]
      cases isShowable v <;> cases vs.all isShowable <;> rfl
  rw [ofValues, hparts]
  cases parts.all isShowable <;> rfl

theorem textOf_str (s : String) : textOf (.str s) = s := by
  by_cases hs : s = ""
  · rw [hs]
    rfl
  · simp [textOf, Json.truthy, hs, Json.asText]

theorem isShowable_str (s : String) : isShowable (.str s) = true := by
  simp [isShowable, Json.isWritable]

theorem pathPart_str (s : String) : Method.pathPart (.str s) = .ok s := by
  rw [pathPart_eq, isShowable_str, if_pos rfl, textOf_str]

/-- A URL that is put together first is what it is made from, also where nothing comes of it. -/
theorem ofValues_nested (xs ys zs : List Json) :
    (do let inner ← ofValues ys; ofValues (xs ++ .str inner :: zs)) = ofValues (xs ++ ys ++ zs) := by
  rw [ofValues_eq ys, ofValues_eq (xs ++ ys ++ zs)]
  cases hys : ys.all isShowable with
  | false =>
    simp only [List.all_append, hys, Bool.and_false, Bool.false_and, Bool.false_eq_true, if_false,
      error_bind]
  | true =>
    simp only [if_true, ok_bind, ofValues_eq, List.all_append, List.all_cons, hys, isShowable_str,
      Bool.true_and, Bool.and_true, List.map_append, List.map_cons, textOf_str, join_nested]

/-! ## The paths of methods -/

theorem path_of_build {s : Inference.Setting} {basePath base : String} {op : Operation}
    {built : BuiltMethod} (hbase : Assembly.fullBasePath s.document basePath = .ok base)
    (h : op.build s base = .ok built) :
    ofValues [.str "/", .str basePath, Document.basePath s.document, op.path.toJson] =
      .ok built.method.path := by
  obtain ⟨own, hown, hfull⟩ := bind_eq_ok.1 hbase
  unfold Operation.build Method.ofOperation at h
  simp only [bind_eq_ok, pure_eq, Except.ok.injEq] at h hfull
  obtain ⟨-, -, -, -, -, -, -, -, -, -, -, -, part, hpart, rfl⟩ := h
  have hinner : ofValues [.str basePath, Document.basePath s.document] = .ok base := by
    rw [ofValues_of_parts (.cons (pathPart_str basePath) (.cons hown .nil)), hfull]
  have houter : ofValues [.str "/", .str base, op.path.toJson] = .ok (join ["/", base, part]) :=
    ofValues_of_parts (.cons (pathPart_str "/") (.cons (pathPart_str base) (.cons hpart .nil)))
  have hnested := ofValues_nested [.str "/"] [.str basePath, Document.basePath s.document]
    [op.path.toJson]
  rw [hinner, ok_bind] at hnested
  exact hnested.symm.trans houter

/-- Values that are joined before they are joined with others make the URL that all of them make at
once, or fail as that does. A URL is nothing, a slash, or pieces without slashes at their ends that
single slashes part; it starts with one exactly if its first text does and ends with none unless
it is one. The path of every method is the URL of a slash, the path in front of all methods, that
of the document, and the path of its operation. -/
theorem join_flattens :
    (∀ xs ys zs : List Json, (do let inner ← ofValues ys; ofValues (xs ++ .str inner :: zs)) =
      ofValues (xs ++ ys ++ zs)) ∧
    (∀ (parts : List Json) (url : String), ofValues parts = .ok url →
      IsJoin (parts.map fun v => (textOf v).toList) url.toList ∧
      (url.toList.head? = some '/' ↔ leads (parts.map fun v => (textOf v).toList) = true) ∧
      (url ≠ "/" → url.toList.getLast? ≠ some '/')) ∧
    ∀ (types : TypeTable) (document : Document) (name basePath : String) (api : ApiModel),
      ApiModel.build types document name basePath = .ok api → ∀ m ∈ api.methods,
        ∃ base, Assembly.fullBasePath document basePath = .ok base ∧
          ∃ op ∈ Document.operations document, ∃ built, op.build ⟨document, types⟩ base = .ok built ∧
            built.method = m ∧
            ofValues [.str "/", .str basePath, Document.basePath document, op.path.toJson] =
              .ok m.path := by
  refine ⟨ofValues_nested, fun parts url hurl => ?_, fun types document name basePath api hapi m hm => ?_⟩
  · obtain ⟨hall, rfl⟩ : parts.all isShowable = true ∧ join (parts.map textOf) = url := by
      rw [ofValues_eq] at hurl
      split at hurl
      · rename_i hall
        exact ⟨hall, Except.ok.inj hurl⟩
      · cases hurl
    have hchars : (join (parts.map textOf)).toList =
        joinChars (parts.map fun v => (textOf v).toList) := by
      simp [join, Function.comp_def]
    rw [hchars]
    refine ⟨isJoin_joinChars _, head?_joinChars_iff, fun hne => getLast?_joinChars fun h => hne ?_⟩
    rw [← String.toList_inj, hchars, h]
    rfl
  · obtain ⟨base, hbase, hapi⟩ := bind_eq_ok.1 hapi
    obtain ⟨methods, hmethods, hapi⟩ := bind_eq_ok.1 hapi
    obtain ⟨⟨objects, enums⟩, -, hapi⟩ := bind_eq_ok.1 hapi
    cases hapi
    obtain ⟨built, hbuilt, rfl⟩ := List.mem_map.1 hm
    obtain ⟨all, hall, hperm⟩ := exists_methods_of_operations hmethods
    obtain ⟨op, hop, hbuild⟩ := exists_of_mem_right hall (hperm.mem_iff.1 hbuilt)
    exact ⟨base, hbase, op, hop, built, hbuild, rfl, path_of_build hbase hbuild⟩

/-- A zoo whose cats are found under a path with slashes at all ends. -/
def zoo : Document where
  members :=
    [("basePath", .str "//zoo//"),
      ("paths", .obj [("/cats/", .obj [("get", .obj [("operationId", .str "list")])])])]

theorem join_flattens_zoo : ∃ api, ApiModel.build Language.swiftTypes zoo "Zoo" "v1/" = .ok api ∧
    (∃ m ∈ api.methods, m.path = "/v1/zoo/cats") ∧ ∀ m ∈ api.methods, ∃ op ∈ Document.operations zoo,
      ofValues [.str "/", .str "v1/", Document.basePath zoo, op.path.toJson] = .ok m.path := by
  have hbuilds : ((ApiModel.build Language.swiftTypes zoo "Zoo" "v1/").toOption.any
      fun api => api.methods.any fun m => m.path == "/v1/zoo/cats") = true := by
    decide +kernel
  obtain ⟨api, hbuild, htest⟩ := exists_ok_of_any hbuilds
  obtain ⟨m, hm, hpath⟩ := List.any_eq_true.1 htest
  refine ⟨api, hbuild, ⟨m, hm, beq_iff_eq.1 hpath⟩, fun m hm => ?_⟩
  obtain ⟨-, -, op, hop, -, -, -, hjoin⟩ := join_flattens.2.2 _ zoo "Zoo" "v1/" api hbuild m hm
  exact ⟨op, hop, hjoin⟩

example : join ["//", "", "a//b/", "/", "c"] = "/a//b/c" ∧ join ["", "a/", "//"] = "a" := by decide

end Url

end ClientForge
