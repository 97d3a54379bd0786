-- SUMMARY: A file of a name that comes up again takes the place of the one before, and when no file is lost to that.
import Mathlib.Data.List.Dedup
import Mathlib.Data.List.Induction
import ClientForge.Emit.Client
import ClientForge.Proofs.Api.Starts
import ClientForge.Proofs.Audit.Findings
import ClientForge.Proofs.Outcome

/-!
# Files of several clients

The clients of all APIs are written out one after another, a file for every template
(`IsClient`), and put together by name. A file that comes after one of its name takes its
place, so of the files of one name the last is kept (`mem_putAll_iff`), and all are kept
exactly if no two have one name (`putAll_eq_self_iff`, `length_putAll_eq_iff`).

Whether the names differ is a matter of the language (`nodup_allNames_iff`): it names files
after the API, after its class, or after nothing at all. So all files of APIs with names of
their own are there if the language is Swift, if it is Kotlin and their classes have names of
their own too, or if it is JavaScript and there is one API at most (`render_keeps_all_iff`).
-/

namespace ClientForge

namespace Emit

open Outcome

/-! ## Files under their names -/

/-- Files put one after another, each where one of its name is or else at the end. -/
def putAll (fs : List OutputFile) : List OutputFile := fs.foldl putFile []

/-- The last file of its name. -/
def IsLast (fs : List OutputFile) (f : OutputFile) : Prop :=
  ∃ before after, fs = before ++ f :: after ∧ ∀ g ∈ after, g.name ≠ f.name

theorem names_putFile (gs : List OutputFile) (f : OutputFile) :
    (putFile gs f).map (·.name) =
      if f.name ∈ gs.map (·.name) then gs.map (·.name) else gs.map (·.name) ++ [f.name] := by
  induction gs with
  | nil => simp [putFile]
  | cons g gs ih =>
    rw [putFile]
    by_cases hg : g.name = f.name
    · simp [hg]
    · have hother : ¬ f.name = g.name := Ne.symm hg
      simp only [if_neg hg, List.map_cons, ih, List.mem_cons, hother, false_or]
      split <;> rfl

theorem mem_putFile_iff {gs : List OutputFile} (hgs : (gs.map (·.name)).Nodup) {f g : OutputFile} :
    g ∈ putFile gs f ↔ g = f ∨ g ∈ gs ∧ g.name ≠ f.name := by
  induction gs with
  | nil => simp [putFile]
  | cons first gs ih =>
    obtain ⟨hfirst, hgs⟩ := List.nodup_cons.1 hgs
    rw [putFile]
    split
    · rename_i hsame
      have hrest : g ∈ gs → g.name ≠ f.name := by
        intro hg heq
        exact hfirst (List.mem_map.2 ⟨g, hg, heq.trans hsame.symm⟩)
      constructor
      · intro hg
        rcases List.mem_cons.1 hg with rfl | hg
        · exact .inl rfl
        · exact .inr ⟨List.mem_cons_of_mem _ hg, hrest hg⟩
      · rintro (rfl | ⟨hg, hname⟩)
        · exact List.mem_cons_self
        · rcases List.mem_cons.1 hg with rfl | hg
          · exact absurd hsame hname
          · exact List.mem_cons_of_mem _ hg
    · rename_i hother
      rw [List.mem_cons, List.mem_cons, ih hgs]
      constructor
      · rintro (rfl | rfl | ⟨hg, hname⟩)
        · exact .inr ⟨.inl rfl, hother⟩
        · exact .inl rfl
        · exact .inr ⟨.inr hg, hname⟩
      · rintro (rfl | ⟨rfl | hg, hname⟩)
        · exact .inr (.inl rfl)
        · exact .inl rfl
        · exact .inr (.inr ⟨hg, hname⟩)

theorem putAll_concat (fs : List OutputFile) (f : OutputFile) :
    putAll (fs ++ [f]) = putFile (putAll fs) f :=
  List.foldl_concat putFile [] f fs

theorem mem_names_putAll {fs : List OutputFile} {name : String} :
    name ∈ (putAll fs).map (·.name) ↔ name ∈ fs.map (·.name) := by
  induction fs using List.reverseRecOn with
  | nil => rfl
  | append_singleton fs f ih =>
    rw [putAll_concat, names_putFile, List.map_append, List.mem_append, ← ih]
    split
    · rename_i hmem
      exact ⟨.inl, fun h => h.elim id fun h => List.mem_singleton.1 h ▸ hmem⟩
    · exact List.mem_append

theorem nodup_names_putAll (fs : List OutputFile) : ((putAll fs).map (·.name)).Nodup := by
  induction fs using List.reverseRecOn with
  | nil => exact List.nodup_nil
  | append_singleton fs f ih =>
    rw [putAll_concat, names_putFile]
    split
    · exact ih
    · rename_i hnew
      exact List.nodup_append.2 ⟨ih, List.nodup_singleton _, fun _ hs _ ht heq =>
        hnew (List.mem_singleton.1 ht ▸ heq ▸ hs)⟩

theorem isLast_concat_iff {fs : List OutputFile} {f g : OutputFile} :
    IsLast (fs ++ [f]) g ↔ g = f ∨ IsLast fs g ∧ g.name ≠ f.name := by
  constructor
  · rintro ⟨before, after, hfs, hlast⟩
    rcases List.eq_nil_or_concat after with rfl | ⟨after, h, rfl⟩
    · exact .inl (List.append_inj_right' hfs rfl |> List.cons.inj |>.1).symm
    · rw [List.concat_eq_append] at hfs hlast
      rw [← List.cons_append, ← List.append_assoc] at hfs
      obtain ⟨rfl, hf⟩ := List.append_inj' hfs rfl
      cases hf
      refine .inr ⟨⟨before, after, rfl, fun g hg => hlast g (List.mem_append_left _ hg)⟩, ?_⟩
      exact (hlast f (by simp)).symm
  · rintro (rfl | ⟨⟨before, after, rfl, hlast⟩, hname⟩)
    · exact ⟨fs, [], rfl, List.forall_mem_nil _⟩
    · refine ⟨before, after ++ [f], by simp, fun h hh => ?_⟩
      rcases List.mem_append.1 hh with hh | hh
      · exact hlast h hh
      · exact List.mem_singleton.1 hh ▸ hname.symm

/-- Of the files of one name the last is kept. -/
theorem mem_putAll_iff {fs : List OutputFile} {f : OutputFile} : f ∈ putAll fs ↔ IsLast fs f := by
  induction fs using List.reverseRecOn with
  | nil =>
    refine ⟨nofun, ?_⟩
    rintro ⟨before, after, h, -⟩
    cases List.append_eq_nil_iff.1 h.symm |>.2
  | append_singleton fs g ih =>
    rw [putAll_concat, mem_putFile_iff (nodup_names_putAll fs), isLast_concat_iff, ih]

theorem putFile_of_not_mem {gs : List OutputFile} {f : OutputFile} (h : f.name ∉ gs.map (·.name)) :
    putFile gs f = gs ++ [f] := by
  induction gs with
  | nil => rfl
  | cons g gs ih =>
    rw [List.map_cons, List.mem_cons, not_or] at h
    rw [putFile, if_neg (Ne.symm h.1), ih h.2, List.cons_append]

theorem length_putAll_eq_iff {fs : List OutputFile} :
    (putAll fs).length = fs.length ↔ (fs.map (·.name)).Nodup := by
  have hperm : ((putAll fs).map (·.name)).Perm (fs.map (·.name)).dedup := by
    refine (List.perm_ext_iff_of_nodup (nodup_names_putAll fs) (List.nodup_dedup _)).2 fun name => ?_
    rw [mem_names_putAll, List.mem_dedup]
  have hlength : (putAll fs).length = (fs.map (·.name)).dedup.length := by
    rw [← hperm.length_eq, List.length_map]
  have hlength' : fs.length = (fs.map (·.name)).length := List.length_map _ |>.symm
  rw [hlength, hlength']
  constructor
  · intro h
    rw [← (List.dedup_sublist _).eq_of_length h]
    exact List.nodup_dedup _
  · intro h
    rw [h.dedup]

/-- All files are kept exactly if no two have one name. -/
theorem putAll_eq_self_iff {fs : List OutputFile} : putAll fs = fs ↔ (fs.map (·.name)).Nodup := by
  refine ⟨fun h => length_putAll_eq_iff.1 (congrArg List.length h), fun h => ?_⟩
  induction fs using List.reverseRecOn with
  | nil => rfl
  | append_singleton fs f ih =>
    rw [List.map_append, List.nodup_append] at h
    have hnew : f.name ∉ fs.map (·.name) := fun hmem => h.2.2 _ hmem _ List.mem_cons_self rfl
    rw [putAll_concat, ih h.1, putFile_of_not_mem hnew]

/-! ## The names of the files of several clients -/

/-- How many files a client has. -/
def fileCount : Language → Nat
  | .swift => 2
  | .kotlin => 1
  | .js => 5

theorem length_fileNames (l : Language) (apiName className : String) :
    (l.fileNames apiName className).length = fileCount l := by
  cases l <;> rfl

/-- The file names of all clients. -/
def allNames (l : Language) (apis : List Api) : List String :=
  apis.flatMap fun api => l.fileNames api.name api.className

theorem length_allNames (l : Language) (apis : List Api) :
    (allNames l apis).length = apis.length * fileCount l := by
  rw [allNames, List.length_flatMap]
  simp only [length_fileNames, List.map_const', List.sum_replicate_nat]

/-- APIs whose clients have no file name in common, by what the language names files after. -/
def Apart : Language → List Api → Prop
  | .swift, _ => True
  | .kotlin, apis => (apis.map Api.className).Nodup
  | .js, apis => apis.length ≤ 1

theorem append_swift_ne_podspec (s t : String) : s ++ ".swift" ≠ t ++ ".podspec" := by
  intro h
  have hlast : (s ++ ".swift").toList.getLast? = (t ++ ".podspec").toList.getLast? := by rw [h]
  simp at hlast

/-- Of APIs with names of their own, the file names differ exactly if the APIs are apart. -/
theorem nodup_allNames_iff {l : Language} {apis : List Api} (hnames : (apis.map Api.name).Nodup) :
    (allNames l apis).Nodup ↔ Apart l apis := by
  cases l with
  | swift =>
    simp only [Apart, iff_true]
    refine List.nodup_flatMap.2 ⟨fun api _ => ?_, ?_⟩
    · simp [Language.fileNames]
    · refine (List.pairwise_map.1 hnames).imp fun {a b} hab => ?_
      simp [Language.fileNames, hab.symm, append_swift_ne_podspec,
        (append_swift_ne_podspec _ _).symm]
  | kotlin =>
    have hnames' : allNames .kotlin apis = (apis.map Api.className).map (· ++ ".kt") := by
      rw [allNames, List.map_map, ← List.flatMap_pure_eq_map]
      simp [Language.fileNames, Function.comp_def]
    rw [hnames']
    exact List.nodup_map_iff fun s t h => by simpa using h
  | js =>
    rw [Apart]
    match apis with
    | [] => simp [allNames]
    | [api] => simp [allNames, Language.fileNames]
    | a :: b :: rest => simp [allNames, Language.fileNames]

/-! ## The clients of a run -/

/-- The files of an API's client, which every template of the language gives one of: the API's
model is built, the audit finds nothing about it, and it is written out. -/
def IsClient (l : Language) (options : EmitOptions) (api : Api) (fs : List OutputFile) : Prop :=
  ∃ model x, modelOf l api = .ok model ∧ model.findings = .ok [] ∧ context options api model = .ok x ∧
    fs.map (·.name) = l.fileNames api.name api.className ∧ fs.map (·.text) = texts l x

theorem names_files (l : Language) (x : EmitContext) :
    (files l x).map (·.name) = l.fileNames x.apiName x.className := by
  cases l <;> rfl

theorem texts_files (l : Language) (x : EmitContext) : (files l x).map (·.text) = texts l x := by
  cases l <;> rfl

theorem isClient_of_filesOf {l : Language} {options : EmitOptions} {api : Api} {model : ApiModel}
    {fs : List OutputFile} (hmodel : modelOf l api = .ok model) (hclean : model.findings = .ok [])
    (h : filesOf l options api model = .ok fs) : IsClient l options api fs := by
  obtain ⟨x, hx, h⟩ := Outcome.bind_eq_ok.1 h
  obtain ⟨version, -, hfields⟩ := Outcome.bind_eq_ok.1 hx
  split at h
  · cases hfields
    cases h
    exact ⟨model, _, hmodel, hclean, hx, names_files l _, texts_files l _⟩
  · cases h

theorem checkedModels_eq_ok {l : Language} {apis : List Api} {models : List ApiModel} :
    checkedModels l apis = .ok models ↔
      List.Forall₂ (fun api model => modelOf l api = .ok model) apis models ∧
        ∀ model ∈ models, model.findings = .ok [] := by
  rw [← ApiModel.checkAll_eq_ok_iff]
  constructor
  · intro h
    obtain ⟨_, hbuilt, h⟩ := Outcome.bind_eq_ok.1 h
    obtain ⟨_, hcheck, hsame⟩ := Outcome.bind_eq_ok.1 h
    cases hsame
    exact ⟨Outcome.mapM_eq_ok.1 hbuilt, hcheck⟩
  · rintro ⟨hbuilt, hcheck⟩
    exact Outcome.bind_eq_ok.2 ⟨models, Outcome.mapM_eq_ok.2 hbuilt,
      Outcome.bind_eq_ok.2 ⟨(), hcheck, rfl⟩⟩

/-- What is generated is the clients of all APIs, put together by name. -/
theorem clients_of_render {l : Language} {options : EmitOptions} {apis : List Api}
    {outputs : List OutputFile} (h : render l options apis = .ok outputs) :
    ∃ clients, List.Forall₂ (IsClient l options) apis clients ∧
      outputs = putAll clients.flatten := by
  obtain ⟨models, hmodels, h⟩ := Outcome.bind_eq_ok.1 h
  obtain ⟨clients, hclients, h⟩ := Outcome.bind_eq_ok.1 h
  cases h
  obtain ⟨hbuilt, hclean⟩ := checkedModels_eq_ok.1 hmodels
  refine ⟨clients, ?_, rfl⟩
  refine (Outcome.forall₂_of_zip hbuilt (Outcome.mapM_eq_ok.1 hclients)).imp fun api fs => ?_
  rintro ⟨model, hmem, hmodel, hfs⟩
  exact isClient_of_filesOf hmodel (hclean model hmem) hfs

/-- The clients of some APIs are generated exactly if the model of each can be built, is
clean, and can be written out. -/
theorem exists_render_iff {l : Language} {options : EmitOptions} {apis : List Api} :
    (∃ outputs, render l options apis = .ok outputs) ↔ ∀ api ∈ apis, ∃ model,
      modelOf l api = .ok model ∧ model.findings = .ok [] ∧
        ∃ fs, filesOf l options api model = .ok fs := by
  constructor
  · rintro ⟨outputs, h⟩ api hapi
    obtain ⟨models, hmodels, h⟩ := Outcome.bind_eq_ok.1 h
    obtain ⟨clients, hclients, -⟩ := Outcome.bind_eq_ok.1 h
    obtain ⟨hbuilt, hclean⟩ := checkedModels_eq_ok.1 hmodels
    obtain ⟨fs, -, model, hmem, hmodel, hfs⟩ := Outcome.exists_of_mem_left
      (Outcome.forall₂_of_zip hbuilt (Outcome.mapM_eq_ok.1 hclients)) hapi
    exact ⟨model, hmodel, hclean model hmem, fs, hfs⟩
  · intro h
    obtain ⟨models, hmodels⟩ := Outcome.exists_mapM_eq_ok.2 fun api hapi =>
      (h api hapi).imp fun _ hmodel => hmodel.1
    have hbuilt := Outcome.mapM_eq_ok.1 hmodels
    have hclean : ∀ model ∈ models, model.findings = .ok [] := by
      intro model hmem
      obtain ⟨api, hapi, hmodel⟩ := Outcome.exists_of_mem_right hbuilt hmem
      obtain ⟨model', hmodel', hclean, -⟩ := h api hapi
      cases hmodel.symm.trans hmodel'
      exact hclean
    obtain ⟨clients, hclients⟩ : ∃ clients, (apis.zip models).mapM
        (fun am => filesOf l options am.1 am.2) = .ok clients := by
      refine Outcome.exists_mapM_eq_ok.2 fun (api, model) hmem => ?_
      obtain ⟨model', hmodel', -, hfs⟩ := h api (List.of_mem_zip hmem).1
      cases ((List.forall₂_iff_zip.1 hbuilt).2 hmem).symm.trans hmodel'
      exact hfs
    exact ⟨_, Outcome.bind_eq_ok.2 ⟨models, checkedModels_eq_ok.2 ⟨hbuilt, hclean⟩,
      Outcome.bind_eq_ok.2 ⟨clients, hclients, rfl⟩⟩⟩

theorem names_of_clients {l : Language} {options : EmitOptions} {apis : List Api}
    {clients : List (List OutputFile)} (h : List.Forall₂ (IsClient l options) apis clients) :
    clients.flatten.map (·.name) = allNames l apis := by
  induction h with
  | nil => rfl
  | cons hclient _ ih =>
    obtain ⟨model, x, -, -, -, hnames, -⟩ := hclient
    rw [List.flatten_cons, List.map_append, hnames, ih, allNames, allNames, List.flatMap_cons]

/-- Of the files of all clients, those are there that no later one of their name takes the
place of. All are there, and as many as there are templates for all APIs, exactly if the
APIs are apart. -/
theorem render_keeps_all_iff {l : Language} {options : EmitOptions} {apis : List Api}
    {outputs : List OutputFile} (hnames : (apis.map Api.name).Nodup)
    (h : render l options apis = .ok outputs) :
    ∃ clients, List.Forall₂ (IsClient l options) apis clients ∧
      (∀ f, f ∈ outputs ↔ IsLast clients.flatten f) ∧
      (outputs = clients.flatten ↔ Apart l apis) ∧
      (outputs.length = apis.length * fileCount l ↔ Apart l apis) := by
  obtain ⟨clients, hclients, rfl⟩ := clients_of_render h
  have hall : (clients.flatten.map (·.name)).Nodup ↔ Apart l apis := by
    rw [names_of_clients hclients]
    exact nodup_allNames_iff hnames
  have hlength : clients.flatten.length = apis.length * fileCount l := by
    rw [← length_allNames, ← names_of_clients hclients, List.length_map]
  refine ⟨clients, hclients, fun f => mem_putAll_iff, putAll_eq_self_iff.trans hall, ?_⟩
  rw [← hlength, length_putAll_eq_iff, hall]

/-! ### A single file -/

theorem model_of_context {options : EmitOptions} {api : Api} {model : ApiModel} {x : EmitContext}
    (h : context options api model = .ok x) : x.model = model := by
  obtain ⟨version, -, h⟩ := bind_eq_ok.1 h
  cases h
  rfl

theorem className_of_context {options : EmitOptions} {api : Api} {model : ApiModel}
    {x : EmitContext} (h : context options api model = .ok x) : x.className = api.className := by
  obtain ⟨version, -, h⟩ := bind_eq_ok.1 h
  cases h
  rfl

/-- Files are known by their names and their texts. -/
theorem zipWith_names_texts (fs : List OutputFile) :
    List.zipWith OutputFile.mk (fs.map (·.name)) (fs.map (·.text)) = fs := by
  induction fs with
  | nil => rfl
  | cons f fs ih => rw [List.map_cons, List.map_cons, List.zipWith_cons_cons, ih]

/-- Every file that is there is one of those of an API. -/
theorem mem_files_of_render {l : Language} {options : EmitOptions} {apis : List Api}
    {outputs : List OutputFile} (h : render l options apis = .ok outputs) {f : OutputFile}
    (hf : f ∈ outputs) : ∃ api ∈ apis, ∃ x, modelOf l api = .ok x.model ∧
      context options api x.model = .ok x ∧ f ∈ files l x := by
  obtain ⟨clients, hclients, rfl⟩ := clients_of_render h
  obtain ⟨before, after, hflatten, -⟩ := mem_putAll_iff.1 hf
  have hmem : f ∈ clients.flatten := hflatten ▸ List.mem_append_right _ List.mem_cons_self
  obtain ⟨fs, hfs, hf⟩ := List.mem_flatten.1 hmem
  obtain ⟨api, hapi, model, x, hmodel, -, hx, hnames, htexts⟩ := exists_of_mem_right hclients hfs
  obtain rfl := model_of_context hx
  refine ⟨api, hapi, x, hmodel, hx, ?_⟩
  obtain ⟨version, -, hfields⟩ := bind_eq_ok.1 hx
  have hfiles : fs = files l x := by
    rw [← zipWith_names_texts fs, hnames, htexts, files, ← Except.ok.inj hfields]
  exact hfiles ▸ hf

/-- The client of an API by itself, whose methods are found in the order of their paths, can be
tested without sorting them. -/
theorem exists_render_of_sorted (l : Language) (options : EmitOptions) {api : Api} {base : String}
    (test : EmitContext → Bool)
    (hbase : Assembly.fullBasePath api.document api.basePath = .ok base)
    (h : (((Method.attempts ⟨api.document, l.types⟩ base).mapM id).toOption.any fun methods =>
      decide (methods.Pairwise fun a b => Method.byPath a b = true) &&
        (Assembly.ofMethods api.name methods).toOption.any fun model => model.findings.toOption.any List.isEmpty &&
          (context options api model).toOption.any fun x =>
            Json.areWritable (values l x) && test x) = true) :
    ∃ outputs x, render l options [api] = .ok outputs ∧ modelOf l api = .ok x.model ∧
      context options api x.model = .ok x ∧ outputs = putAll (files l x) ∧ test x = true := by
  obtain ⟨model, hmodel, hbuilt⟩ := exists_build_of_sorted (s := ⟨api.document, l.types⟩) api.name
    (fun model => model.findings.toOption.any List.isEmpty && (context options api model).toOption.any fun x =>
      Json.areWritable (values l x) && test x) hbase h
  obtain ⟨hclean, hcontext⟩ := Bool.and_eq_true_iff.1 hbuilt
  obtain ⟨x, hx, htested⟩ := exists_ok_of_any hcontext
  obtain ⟨hwritable, htest⟩ := Bool.and_eq_true_iff.1 htested
  obtain rfl := model_of_context hx
  have hfiles : filesOf l options api x.model = .ok (files l x) := by
    rw [filesOf, hx, ok_bind, if_pos hwritable]
    rfl
  have hchecked : checkedModels l [api] = .ok [x.model] :=
    checkedModels_eq_ok.2 ⟨.cons hmodel .nil, by simpa using eq_ok_nil_of_any hclean⟩
  refine ⟨putAll (files l x), x, ?_, hmodel, hx, rfl, htest⟩
  rw [render, hchecked, ok_bind, List.zip_cons_cons, List.zip_nil_right, List.mapM_cons, hfiles]
  simp [putAll]

theorem putAll_files_kotlin (x : EmitContext) :
    putAll (files .kotlin x) = [⟨x.className ++ ".kt", Kotlin.client x⟩] :=
  rfl

/-! ### Two APIs -/

def cats : Api := ⟨"Cats", "Cats", "", none, default⟩

def dogs : Api := ⟨"Dogs", "Dogs", "", none, default⟩

/-- What the command line lets the generated text depend on when nothing is said. -/
def plainOptions : EmitOptions := ⟨false, EmitOptions.defaultPackage⟩

theorem render_keeps_all_swift : ∃ outputs,
    render .swift plainOptions [cats, dogs] = .ok outputs ∧ outputs.length = 4 := by
  have hrender : ((render .swift plainOptions [cats, dogs]).toOption.any fun _ => true) = true := by
    decide +kernel
  obtain ⟨outputs, houtputs, -⟩ := Outcome.exists_ok_of_any hrender
  obtain ⟨-, -, -, -, hcount⟩ := render_keeps_all_iff (by decide) houtputs
  exact ⟨outputs, houtputs, hcount.2 trivial⟩

/-- A client in JavaScript is overwritten by that of the next API. -/
theorem overwritten_by_next : ([cats, dogs].map Api.name).Nodup ∧
    ∃ client outputs, render .js plainOptions [cats] = .ok client ∧
      render .js plainOptions [cats, dogs] = .ok outputs ∧
      outputs.length = 5 ∧ ∃ f ∈ client, f ∉ outputs := by
  have hruns : (do
      let client ← render .js plainOptions [cats]
      let outputs ← render .js plainOptions [cats, dogs]
      return (client, outputs) : Except Failure (List OutputFile × List OutputFile)).toOption.any
        (fun r => r.2.length = 5 ∧ ∃ f ∈ r.1, f ∉ r.2) = true := by
    decide +kernel
  obtain ⟨⟨client, outputs⟩, hruns, hlost⟩ := Outcome.exists_ok_of_any hruns
  obtain ⟨_, hclient, hruns⟩ := Outcome.bind_eq_ok.1 hruns
  obtain ⟨_, houtputs, hruns⟩ := Outcome.bind_eq_ok.1 hruns
  cases hruns
  exact ⟨by decide, client, outputs, hclient, houtputs, of_decide_eq_true hlost⟩

end Emit

end ClientForge
