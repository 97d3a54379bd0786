-- SUMMARY: A single finding about the model of an API.

/-!
# Diagnostics

A finding is a category and a message. The categories are those of the audit.
-/

namespace ClientForge

structure Diagnostic where
  category : String
  message : String
deriving DecidableEq, Repr, Inhabited

namespace Diagnostic

def text (d : Diagnostic) : String := String.join ["[", d.category, "] ", d.message]

def missingType : String := "missing-type"
def formDataType : String := "form-data-type"
def duplicateName : String := "duplicate-name"
def modelKind : String := "model-kind"
def missingName : String := "missing-name"

/-- A finding about one of several APIs. -/
def inApi (api : String) (d : Diagnostic) : Diagnostic :=
  { d with message := String.join [api, ": ", d.message] }

end Diagnostic

end ClientForge
