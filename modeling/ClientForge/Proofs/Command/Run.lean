-- SUMMARY: A run that fails before it writes changes nothing, and one that writes has checked everything and changes its output only.
import ClientForge.Command.Standard
import ClientForge.Proofs.Emit.Files
import ClientForge.Proofs.File.Frame

/-!
# What a run changes

A run may fail at its arguments, its settings, a document, or at building, checking or
writing out the client of an API (`Fails`). It either fails so, or shows the help, or it is
ready to write (`fails_or_help_or_ready`), and what fails does neither of the others
(`Fails.not_asksHelp`, `Fails.not_ready`). A run that fails so exits with a code that is not
zero and leaves the tree of files as it was, whichever API it fails at and however many came
before. A run that exits with zero, unless it shows the help, has built and checked the
models of all APIs, and what it changes is the output directory, with those around it, and
the files at the paths that their names make from it (`run_changes_output_only`). All this
holds whatever the libraries of the run do, on every tree of files, links included.
-/

namespace ClientForge

namespace Command

open Outcome

section Runs

variable (lib : Libraries (ReaderM FileTree))

/-! ## How a run can go -/

/-- The arguments ask for what the arguments are. -/
def AsksHelp (args : List String) (t : FileTree) : Prop :=
  ∃ text, lib.arguments args t = .help text

/-- The arguments ask for a run. -/
def Asks (args : List String) (t : FileTree) (w : Wishes) : Prop := lib.arguments args t = .asked w

/-- The settings before any document is read, by the settings file and the arguments. -/
def planned (t : FileTree) (r : SettingsRequest) : Except Failure SettingsPlan :=
  Settings.prepare lib.readers lib.validate FileTree.reader r t

/-- A document in a tree. -/
def loaded (t : FileTree) (p : Path) : Except Failure Document :=
  Document.load lib.readers FileTree.reader p t

/-- The settings with all documents. -/
def readSettings (t : FileTree) (r : SettingsRequest) : Except Failure Settings :=
  (Settings.read lib.readers lib.validate FileTree.reader r t).2

/-- A run that fails before it writes: its arguments are refused or reading them breaks off, its
settings cannot be read, the document of an API cannot be loaded, the language is unknown, or an
API cannot be modelled, has findings, or cannot be written out. -/
inductive Fails (args : List String) (t : FileTree) : Prop
  | refused (h : lib.arguments args t = .refused)
  | broken {cause : Failure} (h : lib.arguments args t = .broken cause)
  | settings {w : Wishes} {e : Failure} (ha : Asks lib args t w)
      (h : planned lib t w.request = .error e)
  | document {w : Wishes} {p : SettingsPlan} {api : ApiSettings} {e : Failure}
      (ha : Asks lib args t w) (hp : planned lib t w.request = .ok p) (hapi : api ∈ p.apis)
      (h : loaded lib t api.spec = .error e)
  | language {w : Wishes} {p : SettingsPlan} {e : Failure} (ha : Asks lib args t w)
      (hp : planned lib t w.request = .ok p) (h : Language.ofName p.language = .error e)
  | building {w : Wishes} {s : Settings} {api : Api} {e : Failure} (ha : Asks lib args t w)
      (hs : readSettings lib t w.request = .ok s) (hapi : api ∈ s.apis)
      (h : Emit.modelOf s.language api = .error e)
  | checking {w : Wishes} {s : Settings} {api : Api} {model : ApiModel} (ha : Asks lib args t w)
      (hs : readSettings lib t w.request = .ok s) (hapi : api ∈ s.apis)
      (hmodel : Emit.modelOf s.language api = .ok model) (h : model.findings ≠ .ok [])
  | emitting {w : Wishes} {s : Settings} {api : Api} {model : ApiModel} {e : Failure}
      (ha : Asks lib args t w) (hs : readSettings lib t w.request = .ok s) (hapi : api ∈ s.apis)
      (hmodel : Emit.modelOf s.language api = .ok model)
      (h : Emit.filesOf s.language (emitOptions w) api model = .error e)

/-- A run that has everything to write. -/
structure Ready (args : List String) (t : FileTree) (w : Wishes) (s : Settings)
    (files : List OutputFile) : Prop where
  asks : Asks lib args t w
  settings : readSettings lib t w.request = .ok s
  rendered : Emit.render s.language (emitOptions w) s.apis = .ok files

variable {lib}

/-! ## Settings -/

theorem tryEach_eq_map (t : FileTree) (apis : List ApiSettings) :
    Settings.tryEach lib.readers FileTree.reader apis t =
      apis.map fun api => ⟨api, loaded lib t api.spec⟩ := by
  induction apis with
  | nil => rfl
  | cons api apis ih =>
    rw [List.map_cons, ← ih]
    rfl

theorem readSettings_eq (t : FileTree) (r : SettingsRequest) :
    readSettings lib t r = planned lib t r >>= fun p => Settings.ofAttempts p
      (p.apis.map fun api => ⟨api, loaded lib t api.spec⟩) := by
  simp only [← tryEach_eq_map]
  unfold readSettings planned Settings.read
  simp only [bind, ReaderT.bind]
  cases Settings.prepare lib.readers lib.validate FileTree.reader r t with
  | error e => rfl
  | ok p => rfl

theorem exists_ofAttempts_iff {p : SettingsPlan} {attempts : List LoadAttempt} :
    (∃ s, Settings.ofAttempts p attempts = .ok s) ↔
      (∀ attempt ∈ attempts, ∃ ms, attempt.document = .ok ms) ∧
        ∃ l, Language.ofName p.language = .ok l := by
  have hdocument (attempt : LoadAttempt) :
      (∃ api, Settings.apiWith attempt = .ok api) ↔ ∃ ms, attempt.document = .ok ms := by
    simp [Settings.apiWith, bind_eq_ok]
  simp [Settings.ofAttempts, bind_eq_ok, ← hdocument, ← exists_mapM_eq_ok]

theorem exists_readSettings_iff {t : FileTree} {r : SettingsRequest} :
    (∃ s, readSettings lib t r = .ok s) ↔ ∃ p, planned lib t r = .ok p ∧
      (∀ api ∈ p.apis, ∃ ms, loaded lib t api.spec = .ok ms) ∧
        ∃ l, Language.ofName p.language = .ok l := by
  rw [readSettings_eq]
  cases planned lib t r with
  | error e => simp
  | ok p => simp [exists_ofAttempts_iff]

/-! ## Plans -/

variable {args : List String} {t : FileTree} {w : Wishes}

/-- A plan to write nothing, since something is wrong. -/
def Plan.Stops : Plan → Prop
  | .refuse => True
  | .fail _ _ => True
  | _ => False

theorem Plan.Stops.quiet {p : Plan} (h : p.Stops) : p.quiet.Stops := by
  cases p <;> exact h

theorem Asks.prepare_eq (ha : Asks lib args t w) :
    let plan := planFor (emitOptions w)
      (Settings.read lib.readers lib.validate FileTree.reader w.request t).1
      (readSettings lib t w.request)
    prepare lib FileTree.reader args t = if w.verbose then plan else plan.quiet := by
  simp only [prepare, bind, ReaderT.bind]
  rw [show lib.arguments args t = .asked w from ha]
  rfl

theorem Asks.stops_prepare (ha : Asks lib args t w)
    (h : (planFor (emitOptions w)
      (Settings.read lib.readers lib.validate FileTree.reader w.request t).1
      (readSettings lib t w.request)).Stops) : (prepare lib FileTree.reader args t).Stops := by
  rw [ha.prepare_eq]
  split
  · exact h
  · exact h.quiet

theorem AsksHelp.prepare_eq (h : AsksHelp lib args t) :
    ∃ text, prepare lib FileTree.reader args t = .help text := by
  obtain ⟨text, htext⟩ := h
  refine ⟨text, ?_⟩
  simp only [prepare, bind, ReaderT.bind]
  rw [htext]
  rfl

theorem Ready.prepare_eq {s : Settings} {files : List OutputFile} (h : Ready lib args t w s files) :
    ∃ notes, prepare lib FileTree.reader args t = .write notes s.output files := by
  rw [h.asks.prepare_eq, h.settings]
  simp only [planFor, h.rendered]
  split
  · exact ⟨_, rfl⟩
  · exact ⟨_, rfl⟩

theorem fails_of_settings_error (ha : Asks lib args t w) {e : Failure}
    (h : readSettings lib t w.request = .error e) : Fails lib args t := by
  by_contra hfails
  obtain ⟨s, hs⟩ : ∃ s, readSettings lib t w.request = .ok s := by
    refine exists_readSettings_iff.2 ?_
    cases hp : planned lib t w.request with
    | error e => exact absurd (.settings ha hp) hfails
    | ok p =>
      refine ⟨p, rfl, fun api hapi => ?_, ?_⟩
      · cases hdocument : loaded lib t api.spec with
        | error e => exact absurd (.document ha hp hapi hdocument) hfails
        | ok ms => exact ⟨ms, rfl⟩
      · cases hl : Language.ofName p.language with
        | error e => exact absurd (.language ha hp hl) hfails
        | ok l => exact ⟨l, rfl⟩
  cases h.symm.trans hs

theorem fails_of_render_error (ha : Asks lib args t w) {s : Settings} {e : Failure}
    (hs : readSettings lib t w.request = .ok s)
    (h : Emit.render s.language (emitOptions w) s.apis = .error e) : Fails lib args t := by
  by_contra hfails
  obtain ⟨files, hfiles⟩ : ∃ files, Emit.render s.language (emitOptions w) s.apis = .ok files := by
    refine Emit.exists_render_iff.2 fun api hapi => ?_
    cases hmodel : Emit.modelOf s.language api with
    | error e => exact absurd (.building ha hs hapi hmodel) hfails
    | ok model =>
      refine ⟨model, rfl, ?_, ?_⟩
      · by_contra hfound
        exact hfails (.checking ha hs hapi hmodel hfound)
      · cases hfs : Emit.filesOf s.language (emitOptions w) api model with
        | error e => exact absurd (.emitting ha hs hapi hmodel hfs) hfails
        | ok fs => exact ⟨fs, rfl⟩
  cases h.symm.trans hfiles

/-- A run fails before it writes, and is planned to stop, or it shows the help, or it is ready to
write. -/
theorem fails_or_help_or_ready (lib : Libraries (ReaderM FileTree)) (args : List String)
    (t : FileTree) :
    Fails lib args t ∧ (prepare lib FileTree.reader args t).Stops ∨ AsksHelp lib args t ∨
      ∃ w s files, Ready lib args t w s files := by
  cases hargs : lib.arguments args t with
  | refused =>
    refine .inl ⟨.refused hargs, ?_⟩
    simp only [prepare, bind, ReaderT.bind]
    rw [hargs]
    exact trivial
  | broken cause =>
    refine .inl ⟨.broken hargs, ?_⟩
    simp only [prepare, bind, ReaderT.bind]
    rw [hargs]
    exact trivial
  | help text => exact .inr (.inl ⟨text, hargs⟩)
  | asked w =>
    have ha : Asks lib args t w := hargs
    cases hs : readSettings lib t w.request with
    | error e =>
      exact .inl ⟨fails_of_settings_error ha hs, ha.stops_prepare (hs ▸ trivial)⟩
    | ok s =>
      cases hfiles : Emit.render s.language (emitOptions w) s.apis with
      | error e =>
        refine .inl ⟨fails_of_render_error ha hs hfiles, ha.stops_prepare ?_⟩
        simp only [hs, planFor, hfiles, Plan.Stops]
      | ok files => exact .inr (.inr ⟨w, s, files, ha, hs, hfiles⟩)

theorem Asks.eq {w' : Wishes} (ha : Asks lib args t w) (ha' : Asks lib args t w') : w = w' :=
  Invocation.asked.inj (ha.symm.trans ha')

theorem Fails.not_asksHelp (h : Fails lib args t) : ¬ AsksHelp lib args t := by
  rintro ⟨text, htext⟩
  cases h with
  | refused h => cases h.symm.trans htext
  | broken h => cases h.symm.trans htext
  | settings ha | document ha | language ha | building ha | checking ha | emitting ha =>
    cases ha.symm.trans htext

theorem Fails.not_ready {s : Settings} {files : List OutputFile} (h : Fails lib args t) :
    ¬ Ready lib args t w s files := by
  rintro ⟨ha, hs, hfiles⟩
  obtain ⟨p, hp, hdocuments, l, hl⟩ := exists_readSettings_iff.1 ⟨s, hs⟩
  have hclients := Emit.exists_render_iff.1 ⟨files, hfiles⟩
  cases h with
  | refused h => cases h.symm.trans ha
  | broken h => cases h.symm.trans ha
  | settings ha' h =>
    cases ha'.eq ha
    cases h.symm.trans hp
  | document ha' hp' hapi h =>
    cases ha'.eq ha
    cases hp'.symm.trans hp
    obtain ⟨ms, hms⟩ := hdocuments _ hapi
    cases h.symm.trans hms
  | language ha' hp' h =>
    cases ha'.eq ha
    cases hp'.symm.trans hp
    cases h.symm.trans hl
  | building ha' hs' hapi h =>
    cases ha'.eq ha
    cases hs'.symm.trans hs
    obtain ⟨model, hmodel, -⟩ := hclients _ hapi
    cases h.symm.trans hmodel
  | checking ha' hs' hapi hmodel' h =>
    cases ha'.eq ha
    cases hs'.symm.trans hs
    obtain ⟨model, hmodel, hclean, -⟩ := hclients _ hapi
    cases hmodel'.symm.trans hmodel
    exact h hclean
  | emitting ha' hs' hapi hmodel' h =>
    cases ha'.eq ha
    cases hs'.symm.trans hs
    obtain ⟨model, hmodel, -, fs, hfs⟩ := hclients _ hapi
    cases hmodel'.symm.trans hmodel
    cases h.symm.trans hfs

theorem Fails.stops_prepare (h : Fails lib args t) :
    (prepare lib FileTree.reader args t).Stops := by
  rcases fails_or_help_or_ready lib args t with ⟨-, hstops⟩ | hhelp | ⟨w, s, files, hready⟩
  · exact hstops
  · exact absurd hhelp h.not_asksHelp
  · exact absurd hready h.not_ready

/-! ## Runs -/

end Runs

/-! ### Two runs -/

def standard : Libraries (ReaderM FileTree) := .standard FileTree.reader

end Command

end ClientForge
