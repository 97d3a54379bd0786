-- SUMMARY: The Swift client of an API.
import ClientForge.Emit.Text

/-!
# Swift

A class with one method per API method, then the models: a class per object
model, with nested models inside it, and an enumeration per enumeration model.
Beside it goes the package description.
-/

namespace ClientForge

namespace Emit.Swift

/-- A property's type, optional unless the property is required. -/
def optionalType (p : Property) : String := pieces [showText p.type, onlyIf (!p.isRequired) "?"]

/-- The format argument of a conversion. -/
def formatArgument (format : Option String) : String :=
  match format.filter (· != "") with
  | some f => pieces ["\"", f, "\""]
  | none => "nil"

def docLine (margin : String) (description : Json) : String :=
  onlyIf description.truthy (pieces [margin, "/// ", described description, "\n"])

/-! ## Classes -/

def propertyLines (p : Property) : String :=
  pieces
    [docLine "    " p.description,
      "    public var ", showText p.name, ": ", optionalType p, "\n"]

def initializerParam (last : Bool) (p : Property) : String :=
  pieces
    ["        ", showText p.name, ": ", optionalType p, onlyIf (!p.isRequired) "=nil", comma last,
      "\n"]

def inheritedArgument (last : Bool) (p : Property) : String :=
  pieces ["            ", showText p.name, ": ", showText p.name, comma last, "\n"]

def initializer (c : ClassHead) : String :=
  pieces
    ["    public init(\n",
      each initializerParam c.initializer,
      "    ) \x7b\n",
      forEach c.properties fun p =>
        pieces ["        self.", showText p.name, " = ", showText p.name, "\n"],
      onlyIf (superclass? c).isSome (pieces
        ["        super.init(\n",
          each inheritedArgument c.inherited,
          "        )\n"]),
      "    \x7d\n"]

/-- How a member is declared that every class has. -/
def access (c : ClassHead) : String :=
  if (superclass? c).isSome then "open override" else "public"

def serializedProperty (p : Property) : String :=
  pieces
    ["            \"", specText p.specName, "\": ", showText p.name, onlyIf (!p.isRequired) "?",
      ".serialize(format: ", formatArgument p.format, "),\n"]

def serializer (c : ClassHead) : String :=
  pieces
    ["    ", access c, " func serialize(format: String? = nil) -> Any? \x7b\n",
      "        let retVal: [String: Any?] = [\n",
      forEach c.initializer serializedProperty,
      onlyIf c.discriminator.truthy (pieces
        ["            \"", c.discriminator.asText, "\": \"", specText c.specName, "\",\n"]),
      "        ]\n",
      "        return retVal.filter \x7b (_: String, val: Any?) -> Bool in return val != nil \x7d\n",
      "    \x7d\n"]

def subclassCase (s : Subclass) : String :=
  pieces
    ["        case \"", specText s.specName, "\":\n",
      "            return try cast(", showText s.name, ".deserialize(json: json, format: format))\n"]

/-- The choice of a subclass by the discriminator. -/
def subclassSwitch (c : ClassHead) : String :=
  onlyIf (!c.subclasses.isEmpty) (pieces
    ["        switch dictionary[\"", c.discriminator.asText, "\"] as? String \x7b\n",
      forEach c.subclasses subclassCase,
      "        default:\n",
      "            break\n",
      "        \x7d\n"])

/-- The type that a property is read as. -/
def readType (p : Property) : String :=
  if p.isRequired then showText p.type else pieces ["Optional<", showText p.type, ">"]

def readProperty (last : Bool) (p : Property) : String :=
  pieces
    ["            ", showText p.name, ": try ", readType p,
      ".deserialize(json: dictionary[\"", specText p.specName, "\"], format: ",
      formatArgument p.format, ")", comma last, "\n"]

def deserializer (c : ClassHead) : String :=
  pieces
    ["    ", access c,
      " class func deserialize(json: Any?, format: String? = nil) throws -> Self \x7b\n",
      "        guard let dictionary = json as? [String: Any] else \x7b\n",
      "            throw deserializationError(\"Trying to deserialize a ", showText c.name,
      " but got \\(String(describing: json))\")\n",
      "        \x7d\n",
      subclassSwitch c,
      "        let object = ", showText c.name, "(\n",
      each readProperty c.initializer,
      "        )\n",
      "        return try cast(object)\n",
      "    \x7d\n"]

/-- A class, given the text of the classes nested in it. -/
def classText (c : ClassHead) (nested : List String) : String :=
  pieces
    ["open class ", showText c.name, ": ", (superclass? c).getD "SwaggerModel", " \x7b\n",
      forEach c.properties propertyLines,
      "\n", initializer c,
      "\n", serializer c,
      "\n", deserializer c,
      forEach nested fun text => pieces ["\n", setIn text, "\n"],
      "\x7d\n"]

mutual

def modelClass : Model → String
  | .object head nested => classText head (nestedClasses nested)
  | .enumeration e => classText (classHead (.enumeration e)) []
  | .property p => classText (classHead (.property p)) []

def nestedClasses : List Model → List String
  | [] => []
  | m :: ms => modelClass m :: nestedClasses ms

end

/-! ## Enumerations -/

def enumCase (c : EnumCase) : String :=
  pieces ["    case ", showText c.name, " = ", literal c.value, "\n"]

def enumText (e : EnumModel) : String :=
  pieces
    [docLine "" e.description,
      "public enum ", showText e.name, ": ", showText e.enumType, ", SwaggerEnum \x7b\n",
      forEach e.cases enumCase,
      "\x7d\n"]

def enumOf : Model → String
  | .enumeration e => enumText e
  | _ => ""

/-! ## Methods -/

def paramDoc (p : Param) : String :=
  onlyIf p.description.truthy
    (pieces ["    /// - parameter ", showText p.name, ": ", described p.description, "\n"])

def argument (p : Param) : String :=
  pieces
    ["        ", showText p.name, ": ", showText p.type, onlyIf (!p.isRequired) "? = nil", ",\n"]

def requestParam (last : Bool) (p : Param) : String :=
  pieces
    ["            .init(name: \"", p.serverName.asText, "\", in: .", p.location.asText,
      ", value: ", showText p.name, ", format: ", formatArgument p.format, ")", comma last, "\n"]

def method (m : Method) : String :=
  pieces
    [docLine "    " m.description,
      forEach m.params paramDoc,
      "    open func ", m.name, "(\n",
      forEach m.params argument,
      "        timeout: TimeInterval? = nil,\n",
      "        completion: @escaping (", showText m.response.type, "?, ErrorResponse?) -> Void\n",
      "    ) \x7b\n",
      "        self.request(method: .", m.verb, ", path: \"", m.path,
      "\", timeout: timeout, params: [\n",
      each requestParam m.params,
      "        ], completion: completion)\n",
      "    \x7d\n",
      "\n"]

/-! ## Files -/

def client (x : EmitContext) : String :=
  pieces
    ["import Foundation\n",
      "import SwaggerClientSupport\n",
      "\n",
      "open class ", x.className, "Class: SwaggerApi \x7b\n",
      forEach x.model.methods method,
      "\x7d\n",
      "\n",
      "public let ", x.className, " = ", x.className, "Class()\n",
      forEach x.model.objects fun m => pieces ["\n\n", modelClass m],
      forEach x.model.enums fun m => pieces ["\n", enumOf m]]

def podspec (x : EmitContext) : String :=
  pieces
    ["Pod::Spec.new do |s|\n",
      "  s.name         = \"", x.apiName, "\"\n",
      "  s.version      = \"", x.version.asText, "\"\n",
      "  s.summary      = \"Generated Swift client for ", x.apiName, ".\"\n",
      "  s.homepage     = \"https://github.com/\"\n",
      "  s.license      = \"MIT\"\n",
      "  s.author       = \"sdkgen\"\n",
      "  s.platform     = :ios, \"10.0\"\n",
      "  s.source       = \x7b :path => \".\" \x7d\n",
      "  s.source_files = \"", x.apiName, ".swift\"\n",
      "  s.dependency \"SwaggerClientSupport\"\n",
      "end\n"]

/-! ## Values -/

def valuesOfMethod (m : Method) : List Json :=
  m.description :: m.params.flatMap fun p => [p.serverName, p.location, p.description]

def valuesOfHead (c : ClassHead) : List Json :=
  c.discriminator :: c.properties.map (·.description)

def valuesOfEnum : Model → List Json
  | .enumeration e => e.description :: e.cases.map (·.value)
  | _ => []

/-- The values of the document that the files hold. Keys need not be listed: names have
been built from them. -/
def values (x : EmitContext) : List Json :=
  x.version :: x.model.methods.flatMap valuesOfMethod ++
    x.model.objects.flatMap (valuesOfClass valuesOfHead) ++ x.model.enums.flatMap valuesOfEnum

end Emit.Swift

end ClientForge
