-- SUMMARY: The checks that the model of an API has to pass before anything is generated.
import ClientForge.Failure
import ClientForge.Text.Upper

/-!
# Checks

Every check reports every offender: parameters and responses without a type, form
data that is no file, models of the wrong kind, models without a name, and names
that several models share. A report is worded when it is made, so the findings about
an API are those reports, or the failure to word one of them. `ApiModel.checkAll`
fails with all findings about all APIs, or passes.
-/

namespace ClientForge

namespace Audit

/-- A finding with the values that its message shows. -/
structure Report where
  diagnostic : Diagnostic
  values : List Json

/-- The finding, if what it shows can be written. -/
def Report.worded (r : Report) : Except Failure Diagnostic :=
  if Json.areWritable r.values then .ok r.diagnostic else .error (.malformed .noNumber)

/-- Whether a text is there and not empty. -/
def isNamed : Option String → Bool
  | some s => s != ""
  | none => false

/-! ## Methods -/

/-- What a finding about a method starts with. -/
def methodLabel (m : Method) : String :=
  String.join [Text.upperText m.verb, " ", m.path, " (", m.name, "): "]

def missingType (m : Method) (p : Param) : Report where
  diagnostic :=
    ⟨Diagnostic.missingType,
      String.join [methodLabel m, p.serverName.displayed, " has no type"]⟩
  values := [p.serverName]

def formDataType (m : Method) (p : Param) : Report where
  diagnostic :=
    ⟨Diagnostic.formDataType,
      String.join
        [methodLabel m, "form data param ", p.serverName.displayed, " is of type ",
          p.schemaType.displayed, ", not 'file'"]⟩
  values := [p.serverName, p.schemaType]

def lacksType (p : Param) : Bool := !isNamed p.type

/-- Form data whose schema is not that of a file. -/
def isTextForm (p : Param) : Bool :=
  p.location.same (.str "formData") && !p.schemaType.same (.str "file")

def ofMethod (m : Method) : List Report :=
  ((m.params ++ [m.response]).filter lacksType).map (missingType m) ++
    (m.params.filter isTextForm).map (formDataType m)

/-! ## Models -/

def wrongKind (expected : String) (m : Model) : Report where
  diagnostic :=
    ⟨Diagnostic.modelKind,
      String.join
        ["Found non-", expected, " model among ", expected, " models: ", m.displayed]⟩
  values := m.values

def missingName (m : Model) : Report where
  diagnostic :=
    ⟨Diagnostic.missingName, String.join ["Found model without name: ", m.displayed]⟩
  values := m.values

/-- The report about one model of a list of a kind, if any. -/
def ofModel (expected : String) (isExpected : Model → Bool) (m : Model) : Option Report :=
  if !isExpected m then some (wrongKind expected m)
  else if !isNamed m.name then some (missingName m)
  else none

def duplicateName (name : String) (count : Nat) : Report where
  diagnostic :=
    ⟨Diagnostic.duplicateName,
      String.join [toString count, " models are named ", displayText (some name)]⟩
  values := []

/-- The first occurrences in a list, in order. -/
def firsts {α : Type} [BEq α] : List α → List α
  | [] => []
  | a :: as => a :: (firsts as).filter (! · == a)

/-- The names that are used more than once, in order of their first use. -/
def ofNames (names : List String) : List Report :=
  (firsts names).filterMap fun n =>
    if 1 < names.count n then some (duplicateName n (names.count n)) else none

/-- The names that models have; one that is empty is none. -/
def givenNames (models : List Model) : List String :=
  models.filterMap fun m => if isNamed m.name then m.name else none

def ofModels (objects enums : List Model) : List Report :=
  objects.filterMap (ofModel "object" Model.isObject) ++
    enums.filterMap (ofModel "enum" Model.isEnumeration) ++
    ofNames (givenNames (objects ++ enums))

/-! ## APIs -/

/-- All reports about the parts of an API. -/
def reports (methods : List Method) (objects enums : List Model) : List Report :=
  methods.flatMap ofMethod ++ ofModels objects enums

/-- All findings about the parts of an API, or the failure to word one. -/
def findings (methods : List Method) (objects enums : List Model) :
    Except Failure (List Diagnostic) :=
  (reports methods objects enums).mapM Report.worded

end Audit

namespace ApiModel

def findings (a : ApiModel) : Except Failure (List Diagnostic) :=
  Audit.findings a.methods a.objects a.enums

/-- The findings about an API among several, told with its name. -/
def namedFindings (a : ApiModel) : Except Failure (List Diagnostic) := do
  return (← a.findings).map (Diagnostic.inApi a.name)

/-- The findings about several APIs, each told with the name of its API. -/
def findingsOfAll (apis : List ApiModel) : Except Failure (List Diagnostic) := do
  return (← apis.mapM namedFindings).flatten

/-- Fails with all findings if there are any. -/
def checkAll (apis : List ApiModel) : Except Failure Unit := do
  match ← findingsOfAll apis with
  | [] => return ()
  | ds => .error (.verification ds)

end ApiModel

end ClientForge
