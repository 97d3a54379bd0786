-- SUMMARY: How a model is shown in a message.
import ClientForge.Model.Basic
import ClientForge.Json.Display

/-!
# Showing models

A model in a message is its kind and all its fields in order, each with its
value as `Json.display` shows it. `Model.values` lists the values that are shown.
-/

namespace ClientForge

/-! ## Texts -/

/-- A kind with its named fields. -/
def recordDisplay (kind : String) (fields : List (String × String)) : String :=
  String.join
    [kind, "(", ", ".intercalate (fields.map fun f => String.join [f.1, "=", f.2]), ")"]

def listDisplay {α : Type} (display : α → String) (items : List α) : String :=
  String.join ["[", ", ".intercalate (items.map display), "]"]

def displayKey : Option Key → String
  | some k => String.ofList k.display
  | none => String.ofList nullDisplay

def Property.displayed (p : Property) : String :=
  recordDisplay "Property"
    [("name", displayText p.name), ("spec_name", displayKey p.specName),
      ("type", displayText p.type), ("format", displayText p.format),
      ("is_required", (Json.bool p.isRequired).displayed),
      ("description", p.description.displayed)]

def Subclass.displayed (s : Subclass) : String :=
  recordDisplay "SubclassRef"
    [("name", displayText s.name), ("spec_name", displayKey s.specName)]

def EnumCase.displayed (c : EnumCase) : String :=
  recordDisplay "EnumValue" [("name", displayText c.name), ("value", c.value.displayed)]

def EnumModel.displayed (e : EnumModel) : String :=
  recordDisplay "EnumModel"
    [("name", displayText e.name), ("enum_type", displayText e.enumType),
      ("values", listDisplay EnumCase.displayed e.cases),
      ("description", e.description.displayed)]

/-- A class, given how the models nested in it are shown. -/
def ClassHead.displayed (c : ClassHead) (nested : String) : String :=
  recordDisplay "ObjectModel"
    [("name", displayText c.name), ("spec_name", displayKey c.specName),
      ("superclass", displayText c.superclass), ("discriminator", c.discriminator.displayed),
      ("properties", listDisplay Property.displayed c.properties),
      ("inherited_properties", listDisplay Property.displayed c.inherited),
      ("initializer_properties", listDisplay Property.displayed c.initializer),
      ("nested_models", nested), ("subclasses", listDisplay Subclass.displayed c.subclasses),
      ("description", c.description.displayed)]

mutual

def Model.displayed : Model → String
  | .object head nested =>
    head.displayed (String.join ["[", ", ".intercalate (Model.displayedEach nested), "]"])
  | .enumeration e => e.displayed
  | .property p => p.displayed

def Model.displayedEach : List Model → List String
  | [] => []
  | m :: ms => m.displayed :: Model.displayedEach ms

end

/-! ## The values in them -/

def keyValues (k : Option Key) : List Json := (k.map Key.toJson).toList

def Property.values (p : Property) : List Json := p.description :: keyValues p.specName

def EnumModel.values (e : EnumModel) : List Json := e.description :: e.cases.map (·.value)

def ClassHead.values (c : ClassHead) : List Json :=
  c.description :: c.discriminator :: keyValues c.specName ++
    (c.properties ++ c.inherited ++ c.initializer).flatMap Property.values ++
    c.subclasses.flatMap fun s => keyValues s.specName

mutual

def Model.values : Model → List Json
  | .object head nested => head.values ++ Model.valuesOfEach nested
  | .enumeration e => e.values
  | .property p => p.values

def Model.valuesOfEach : List Model → List Json
  | [] => []
  | m :: ms => m.values ++ Model.valuesOfEach ms

end

end ClientForge
