-- SUMMARY: The classes, enumerations, methods and parameters that clients are generated from.
import ClientForge.Json.Equality

/-!
# Models

What a client consists of: object models (classes with properties and nested
models), enumeration models, and methods with their parameters. A list of models
may also hold a property that ended up there by mistake, which the audit reports.

Descriptions are free text. `Model.same` and its companions compare everything
else, so two models that differ only in what is said about them are the same.
-/

namespace ClientForge

/-- A field of a class. `specName` is its key in the document. -/
structure Property where
  name : Option String
  specName : Option Key
  type : Option String
  format : Option String
  isRequired : Bool
  description : Json
deriving Repr, Inhabited

/-- A class derived from a discriminated one. -/
structure Subclass where
  name : Option String
  specName : Option Key
deriving DecidableEq, Repr, Inhabited

/-- A case of an enumeration and the value it stands for. -/
structure EnumCase where
  name : Option String
  value : Json
deriving Repr, Inhabited

structure EnumModel where
  name : Option String
  enumType : Option String
  cases : List EnumCase
  description : Json
deriving Repr, Inhabited

/-- A class without the models nested in it. The initializer takes the
properties of the class followed by the inherited ones. -/
structure ClassHead where
  name : Option String
  specName : Option Key
  superclass : Option String
  discriminator : Json
  properties : List Property
  inherited : List Property
  initializer : List Property
  subclasses : List Subclass
  description : Json
deriving Repr, Inhabited

inductive Model
  | object (head : ClassHead) (nested : List Model)
  | enumeration (enum : EnumModel)
  | property (property : Property)
deriving Repr, Inhabited

/-- A parameter of a method, or its response. -/
structure Param where
  name : Option String
  serverName : Json
  location : Json
  type : Option String
  format : Option String
  isRequired : Bool
  schemaType : Json
  description : Json
deriving Repr, Inhabited

structure Method where
  path : String
  verb : String
  name : String
  params : List Param
  response : Param
  description : Json
deriving Repr, Inhabited

/-- A method with the models that its parameters and its response need. -/
structure BuiltMethod where
  method : Method
  models : List Model
deriving Repr, Inhabited

/-- Everything that is generated for one API. -/
structure ApiModel where
  name : String
  methods : List Method
  objects : List Model
  enums : List Model
deriving Repr, Inhabited

/-! ## Parts of a model -/

namespace Model

def name : Model → Option String
  | .object head _ => head.name
  | .enumeration e => e.name
  | .property p => p.name

def isObject : Model → Bool
  | .object .. => true
  | _ => false

def isEnumeration : Model → Bool
  | .enumeration _ => true
  | _ => false

def nested : Model → List Model
  | .object _ models => models
  | _ => []

end Model

/-! ## Equality up to descriptions -/

/-- Keys of the same meaning, or none. -/
def sameSpecName (k k' : Option Key) : Bool := k.map Key.meaning == k'.map Key.meaning

/-- Equal in everything but the description. -/
def Property.same (p q : Property) : Bool :=
  p.name == q.name && sameSpecName p.specName q.specName && p.type == q.type &&
    p.format == q.format && p.isRequired == q.isRequired

/-- Equal but for the description and for being required. -/
def Property.sameShape (p q : Property) : Bool :=
  Property.same { p with isRequired := q.isRequired } q

/-- Two lists that agree entry by entry. -/
def sameLists {α : Type} (same : α → α → Bool) : List α → List α → Bool
  | [], [] => true
  | a :: as, b :: bs => same a b && sameLists same as bs
  | _, _ => false

def Subclass.same (a b : Subclass) : Bool :=
  a.name == b.name && sameSpecName a.specName b.specName

def EnumCase.same (a b : EnumCase) : Bool := a.name == b.name && a.value.same b.value

def EnumModel.same (a b : EnumModel) : Bool :=
  a.name == b.name && a.enumType == b.enumType && sameLists EnumCase.same a.cases b.cases

def ClassHead.same (a b : ClassHead) : Bool :=
  a.name == b.name && sameSpecName a.specName b.specName && a.superclass == b.superclass &&
    a.discriminator.same b.discriminator &&
    sameLists Property.same a.properties b.properties &&
    sameLists Property.same a.inherited b.inherited &&
    sameLists Property.same a.initializer b.initializer &&
    sameLists Subclass.same a.subclasses b.subclasses

mutual

def Model.same : Model → Model → Bool
  | .object a as, .object b bs => a.same b && Model.sameNested as bs
  | .enumeration a, .enumeration b => a.same b
  | .property p, .property q => p.same q
  | _, _ => false

def Model.sameNested : List Model → List Model → Bool
  | [], [] => true
  | m :: ms, n :: ns => m.same n && Model.sameNested ms ns
  | _, _ => false

end

/-- Whether a model is among some others, descriptions apart. -/
def Model.isAmong (m : Model) (ms : List Model) : Bool := ms.any (·.same m)

end ClientForge
