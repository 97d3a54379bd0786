-- SUMMARY: What a run tells about its progress when it is asked to.
import ClientForge.Settings

/-!
# Notes

A verbose run notes every document it loads, every method it builds, how many
models an API has, and every file it generates. A run that fails has noted
everything up to the failure.
-/

namespace ClientForge

inductive Note
  | loading (api : String) (document : Path)
  | builtMethod (verb path name : String) (models : Nat)
  | collapsed (models distinct : Nat)
  | modelled (api : String) (methods objects enums : Nat)
  | generated (file api : String)
deriving DecidableEq, Repr

namespace Note

def number (n : Nat) : String := toString n

/-- The part of the program that a note comes from. -/
def source : Note → String
  | .loading .. => "sdkgen.config"
  | .builtMethod .. => "sdkgen.context_builder"
  | .collapsed .. => "sdkgen.context_builder"
  | .modelled .. => "sdkgen.context_builder"
  | .generated .. => "sdkgen.codegen"

/-- The parts of the text, which are read one after another. -/
def wording : Note → List String
  | .loading api document => ["Loading ", api, " from ", document.toString]
  | .builtMethod verb path name models =>
    ["Built ", Text.upperText verb, " ", path, " as ", name, " (", number models, " models)"]
  | .collapsed models distinct =>
    ["Collapsed ", number models, " incidental models into ", number distinct]
  | .modelled api methods objects enums =>
    [api, ": ", number methods, " methods, ", number objects, " object models, ",
      number enums, " enum models"]
  | .generated file api => ["Rendered ", file, " for ", api]

def text (n : Note) : String := String.join n.wording

def line (n : Note) : String := String.join ["DEBUG ", n.source, ": ", n.text, "\n"]

/-! ## Loading -/

def succeeded {ε α : Type} : Except ε α → Bool
  | .ok _ => true
  | .error _ => false

/-- The documents that are loaded, up to the first that cannot be. -/
def ofAttempts : List LoadAttempt → List Note
  | [] => []
  | a :: as =>
    .loading a.settings.name a.settings.spec ::
      (if succeeded a.document then ofAttempts as else [])

/-! ## Building -/

def ofMethod (b : BuiltMethod) : Note :=
  .builtMethod b.method.verb b.method.path b.method.name b.models.length

/-- The successes at the start of a list. -/
def successes {ε α : Type} : List (Except ε α) → List α
  | .ok a :: rest => a :: successes rest
  | _ => []

/-- The counts for an API that has been modelled. -/
def ofModel (methods : List BuiltMethod) (model : ApiModel) : List Note :=
  let models := methods.flatMap (·.models)
  [.collapsed models.length (Assembly.distinct models).length,
    .modelled model.name model.methods.length model.objects.length model.enums.length]

/-- The methods that are built for an API, and its counts if it can be modelled. -/
def ofApi (l : Language) (api : Api) : List Note :=
  match Assembly.fullBasePath api.document api.basePath with
  | .error _ => []
  | .ok base =>
    let methods := successes (Method.attempts ⟨api.document, l.types⟩ base)
    methods.map ofMethod ++
      match Emit.modelOf l api with
      | .ok model => ofModel methods model
      | .error _ => []

/-- The notes on all APIs, up to the first that cannot be modelled. -/
def ofApis (l : Language) : List Api → List Note
  | [] => []
  | api :: apis =>
    ofApi l api ++ (if succeeded (Emit.modelOf l api) then ofApis l apis else [])

/-- The files that are generated for some APIs. -/
def ofFiles (l : Language) (apis : List Api) : List Note :=
  apis.flatMap fun api =>
    (l.fileNames api.name api.className).map fun file => .generated file api.name

end Note

end ClientForge
