-- SUMMARY: Every way in which reading, modelling, checking or writing a client can fail, and its message.
import ClientForge.Audit.Diagnostic
import ClientForge.Json.Layout
import ClientForge.Json.Writable
import ClientForge.Model.Display

/-!
# Failures

A failure is a cause; `Failure.message` words it. Causes about a schema carry the
schema, which is laid out below the message; a null schema is not shown. A failure
whose message would show what cannot be written is that failure (`worded`). What
goes wrong when a document has a value of the wrong kind where an object, a text
or a list is needed is `Malformed`, and what the file system refuses is
`FileFault`; neither has a message of its own.
-/

namespace ClientForge

/-- What is wrong with a reference. -/
inductive ReferenceFault
  | notLocal
  | dangling
  | notAnObject
  | circular
  | other (text : String)
deriving DecidableEq, Repr

/-- What is wrong with a schema. -/
inductive SchemaFault
  | notAnObject
  | keyword (name : String)
  | typeNotText (type : Json)
  | arrayWithoutItems
  | needsInnerType (type : Option String)
  | unknownType (type : Option String)
  | circularInheritance (name superclass : String)
  | other (text : String)
deriving Repr

/-- What is wrong with the settings or with a file they name. -/
inductive ConfigFault
  | cannotRead (path reason : String)
  | cannotParse (path : String)
  | notAMapping (path : String)
  | noLanguage
  | noSpec
  | invalid
  | unknownLanguage (name : String) (known : List String)
  | other (text : String)
deriving DecidableEq, Repr

/-- What a value of the wrong kind cannot do. -/
inductive Malformed
  /-- It has no members to look up. -/
  | noMembers
  /-- It is no text. -/
  | noText
  /-- It has no entries to go through. -/
  | noEntries
  /-- A list or an object cannot be looked up. -/
  | noKey
  /-- Its digits are not those of a number, or too many. -/
  | noNumber
  /-- It cannot be appended to a path. -/
  | noPath
  /-- It is the text of something that is no value here. -/
  | noValue
deriving DecidableEq, Repr

/-- What the file system refuses. -/
inductive FileFault
  | notUtf8
  | exists
  | missing
  | notADirectory
  | isADirectory
  | nameTooLong
  | tooManyLinks
  /-- A path holds the character that ends all texts of the system. -/
  | endedEarly
  /-- Anything else, in the words of the system. -/
  | refused (reason : String)
deriving DecidableEq, Repr

inductive Failure
  | general (text : String)
  | schema (text : String) (about : Json)
  | reference (fault : ReferenceFault) (ref : Json) (about : Json)
  | unsupported (fault : SchemaFault) (about : Json)
  | config (fault : ConfigFault)
  | strayModel (model : Model)
  | generator (text : String)
  | verification (diagnostics : List Diagnostic)
  | malformed (cause : Malformed)
  | file (cause : FileFault)
  /-- Schemas nest more deeply than is followed. -/
  | tooDeep
deriving Repr

/-! ## Messages -/

def ReferenceFault.message : ReferenceFault → String
  | .notLocal => "Only refs starting with '#/' are supported"
  | .dangling => "Reference does not point at anything"
  | .notAnObject => "Reference does not point at an object"
  | .circular => "Circular reference while merging"
  | .other text => text

/-- The parts of the message, which are read one after another. -/
def SchemaFault.wording : SchemaFault → List String
  | .notAnObject => ["Expected a schema object"]
  | .keyword name => ["'", name, "' schemas are not supported"]
  | .typeNotText type => ["Unsupported schema type ", type.displayed]
  | .arrayWithoutItems => ["Array schema without 'items'"]
  | .needsInnerType type =>
    ["Type ", displayText type, " needs an inner type and cannot be used as a primitive"]
  | .unknownType type => ["I don't know how to process a schema of type ", displayText type]
  | .circularInheritance name superclass =>
    ["Circular inheritance between ", displayText name, " and ", displayText superclass]
  | .other text => [text]

def SchemaFault.message (f : SchemaFault) : String := String.join f.wording

/-- The parts of the message, which are read one after another. -/
def ConfigFault.wording : ConfigFault → List String
  | .cannotRead path reason => ["Cannot read ", path, ": ", reason]
  | .cannotParse path => ["Cannot parse ", path]
  | .notAMapping path => ["Expected a mapping at the top of ", path]
  | .noLanguage =>
    ["Missing language: add \"language\": \"swift\", \"language\": \"kotlin\" or ",
      "\"language\": \"js\" to the top level of your config file, or pass --language."]
  | .noSpec => ["Missing configuration file or spec/name arguments"]
  | .invalid => ["Invalid configuration:"]
  | .unknownLanguage name known =>
    ["Unknown language ", displayText name, "; expected one of: ", ", ".intercalate known]
  | .other text => [text]

def ConfigFault.message (f : ConfigFault) : String := String.join f.wording

/-- Whether a report by the reader of a file would follow the message. -/
def ConfigFault.isOpenEnded : ConfigFault → Bool
  | .cannotParse _ => true
  | .invalid => true
  | _ => false

/-- A message with the schema it is about. -/
def withSchema (message : String) : Json → String
  | .null => message
  | schema => String.join [message, "\n  ", schema.laidOut]

def verificationMessage (diagnostics : List Diagnostic) : String :=
  String.join
    ["Found ", toString diagnostics.length, " problem(s):\n",
      "\n".intercalate (diagnostics.map fun d => String.join ["  - ", d.text])]

/-- The wording of a failure; `none` for one that has no wording of its own. -/
def Failure.message : Failure → Option String
  | .general text => some text
  | .schema text about => some (withSchema text about)
  | .reference fault ref about =>
    some (withSchema (String.join [fault.message, ": ", ref.displayed]) about)
  | .unsupported fault about => some (withSchema fault.message about)
  | .config fault => some fault.message
  | .strayModel model => some (String.join ["Found non-object-or-enum model: ", model.displayed])
  | .generator text => some text
  | .verification diagnostics => some (verificationMessage diagnostics)
  | .malformed _ => none
  | .file _ => none
  | .tooDeep => none

/-! ## Values in messages -/

def SchemaFault.values : SchemaFault → List Json
  | .typeNotText type => [type]
  | _ => []

/-- The values that the message shows. What a finding shows has been written when it
was found. -/
def Failure.values : Failure → List Json
  | .schema _ about => [about]
  | .reference _ ref about => [ref, about]
  | .unsupported fault about => about :: fault.values
  | .strayModel model => model.values
  | _ => []

/-- The failure itself if its message can be written. -/
def Failure.worded (e : Failure) : Failure :=
  if Json.areWritable e.values then e else .malformed .noNumber

/-! ## Reading values of a kind -/

namespace Json

/-- The members of an object. -/
def members : Json → Except Failure Members
  | .obj ms => .ok ms
  | _ => .error (.malformed .noMembers)

/-- The characters of a text. -/
def text : Json → Except Failure String
  | .str s => .ok s
  | _ => .error (.malformed .noText)

/-- What going through a value meets: the items of an array, the characters of a
text, the keys of an object. -/
def entries : Json → Except Failure (List Json)
  | .arr items => .ok items
  | .str s => .ok (s.toList.map fun c => .str (String.singleton c))
  | .obj ms => .ok (ms.map fun m => m.1.toJson)
  | _ => .error (.malformed .noEntries)

/-- Neither a list nor an object. -/
def isKey : Json → Bool
  | .arr _ => false
  | .obj _ => false
  | _ => true

/-- The text of a value that can be written. -/
def shown (v : Json) : Except Failure String :=
  if v.isWritable then .ok v.asText else .error (.malformed .noNumber)

/-- A value that is looked up. -/
def key (v : Json) : Except Failure Json :=
  if v.isKey then .ok v else .error (.malformed .noKey)

end Json

end ClientForge
