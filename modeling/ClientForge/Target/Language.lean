-- SUMMARY: The target languages: their type tables and the files generated for an API.
import ClientForge.Target.TypeTable

/-!
# Target languages

Clients are generated for Swift, Kotlin and JavaScript. A language has its type
table, the names of the files of an API, and a say on whether properties keep the
names they have in the document.
-/

namespace ClientForge

inductive Language
  | swift
  | kotlin
  | js
deriving DecidableEq, Repr, Inhabited

namespace Language

def all : List Language := [.js, .kotlin, .swift]

def name : Language → String
  | .swift => "swift"
  | .kotlin => "kotlin"
  | .js => "js"

def swiftTypes : TypeTable where
  void := "Void"
  any := "Any"
  array := "Array<\x7b\x7d>"
  object := "Dictionary<String, \x7b\x7d>"
  primitives :=
    [("boolean", .always "Bool"),
      ("number", .byFormat [("int64", "Int64"), ("int32", "Int32")] "Double"),
      ("file", .always "URL"),
      ("integer", .byFormat [("int64", "Int64")] "Int32"),
      ("string", .byFormat [("date", "Date"), ("date-time", "Date")] "String")]

def kotlinTypes : TypeTable where
  void := "Response<Void>"
  any := "Any"
  array := "List<\x7b\x7d>"
  object := "Map<String, \x7b\x7d>"
  primitives :=
    [("boolean", .always "Boolean"),
      ("number", .byFormat [("int64", "Long"), ("int32", "Int")] "Double"),
      ("file", .always "MultipartBody.Part"),
      ("integer", .byFormat [("int64", "Long")] "Int"),
      ("string",
        .byFormat [("date", "OffsetDateTime"), ("date-time", "OffsetDateTime")] "String")]

/-- Platforms disagree on what a file in a form is, so it stays untyped. -/
def jsTypes : TypeTable where
  void := "void"
  any := "any"
  array := "Array<\x7b\x7d>"
  object := "Record<string, \x7b\x7d>"
  primitives :=
    [("boolean", .always "boolean"),
      ("number", .always "number"),
      ("file", .always "any"),
      ("integer", .always "number"),
      ("string", .always "string")]

def types : Language → TypeTable
  | .swift => swiftTypes
  | .kotlin => kotlinTypes
  | .js => jsTypes

/-- The names of the files of an API, in the order in which they are written. -/
def fileNames (l : Language) (apiName className : String) : List String :=
  match l with
  | .swift => [String.join [apiName, ".swift"], String.join [apiName, ".podspec"]]
  | .kotlin => [String.join [className, ".kt"]]
  | .js => ["package.json", "babel.config.js", "index.js", "index.d.ts", "spec.json"]

/-- Whether properties are named as the document spells them. -/
def keepsPropertyNames : Language → Bool
  | .js => true
  | _ => false

/-- The language of a name. -/
def ofName (s : String) : Except Failure Language :=
  match all.find? (·.name == s) with
  | some l => .ok l
  | none => .error (.config (.unknownLanguage s (all.map name)))

end Language

end ClientForge
