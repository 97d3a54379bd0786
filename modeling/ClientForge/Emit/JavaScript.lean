-- SUMMARY: The JavaScript client of an API and its TypeScript declarations.
import ClientForge.Emit.Text
import ClientForge.Text.Upper

/-!
# JavaScript

The files of a package: its description, the build settings, the client, the type
declarations, and the document itself as JSON. Nested models are declared beside
their owners, under the names of all owners and their own joined by underscores.
-/

namespace ClientForge

namespace Emit.JavaScript

/-- The name of an argument: the parameter's own or the one on the wire. -/
def argumentName (x : EmitContext) (p : Param) : String :=
  if x.options.serverNames then p.serverName.asText else showText p.name

/-- A type with nested names joined. -/
def typeName (type : Option String) : String := flatName (showText type)

def paramDoc (x : EmitContext) (p : Param) : String :=
  pieces
    ["   * @parameter \x7b ", typeName p.type, " \x7d ", argumentName x p, ": ",
      described p.description, "\n"]

/-- The comment above a method. -/
def methodComment (x : EmitContext) (m : Method) : String :=
  pieces
    ["\n",
      "  /**\n",
      onlyIf m.description.truthy (pieces ["   * ", described m.description, "\n"]),
      "   *\n",
      forEach m.params (paramDoc x),
      "   */\n"]

/-! ## Client -/

/-- The first line of a method, with its arguments. -/
def signature (x : EmitContext) (m : Method) : String :=
  if m.params.isEmpty then pieces ["  ", m.name, "(hasNoArguments, $$fetchOptions) \x7b\n"]
  else
    pieces
      ["  ", m.name, "(\x7b\n",
        forEach m.params fun p => pieces ["    ", argumentName x p, ",\n"],
        "  \x7d, $$fetchOptions) \x7b\n"]

/-- A parameter put into the request. -/
def requestParam (x : EmitContext) (p : Param) : String :=
  pieces
    ["      .", p.location.asText, "('", p.serverName.asText, "', ", argumentName x p, ")\n"]

def method (x : EmitContext) (m : Method) : String :=
  pieces
    [methodComment x m,
      signature x m,
      "    // Build parameters, run request interceptors, fetch, and then run response interceptors\n",
      "    // eslint-disable-next-line prefer-rest-params\n",
      "    const $$source = \x7b method: '", m.name, "', client: '", x.className,
      "', arguments: arguments[0] \x7d;\n",
      "    const $$fetchArgs = parameterBuilder('", Text.upperText m.verb,
      "', this.baseUrl, '", m.path, "', this, $$fetchOptions)\n",
      forEach m.params (requestParam x),
      "      .build();\n",
      "    return fetchHelper(this, $$fetchArgs, $$fetchOptions, $$source);\n",
      "  \x7d\n"]

def constructorOf (x : EmitContext) : String :=
  pieces
    ["  constructor(configOrGenerator) \x7b\n",
      "    let config = (configOrGenerator && configOrGenerator[CONFIG_FUNCTION]) || ",
      "configOrGenerator;\n",
      "    if (typeof config === 'function') \x7b\n",
      "      config = config(", x.className, ");\n",
      "    \x7d\n",
      lines
        ["    const \x7b",
          "      baseUrl = '',",
          "      fetch,",
          "      FormData,",
          "      AbortController,",
          "      timeout,",
          "      EventSource,",
          "      requestInterceptor,",
          "      responseInterceptor,",
          "      onRetry,",
          "    \x7d = config || \x7b\x7d"],
      "    Object.assign(this, \x7b baseUrl, fetch, requestInterceptor, responseInterceptor, ",
      "onRetry, AbortController, EventSource, timeout, FormData \x7d);\n",
      "  \x7d\n"]

def exportLine (x : EmitContext) : String := pieces ["export default ", x.className, ";\n"]

def client (x : EmitContext) : String :=
  pieces
    [lines
        ["// eslint-disable camelcase",
          "// eslint-disable-next-line no-unused-vars",
          "import \x7b parameterBuilder, fetchHelper, eventSourceHelper \x7d from 'rest-api-support';",
          "",
          "const CONFIG_FUNCTION = Symbol.for('sdkgen::configurationGenerator');",
          "",
          "/**",
          " *",
          " * @export"],
      " * @class ", x.className, "\n",
      " */\n",
      "export class ", x.className, " \x7b\n",
      constructorOf x,
      forEach x.model.methods (method x),
      "\x7d\n",
      "\n",
      exportLine x]

/-! ## Type declarations -/

/-- The name of a property: as the document spells it. -/
def propertyName (p : Property) : String := specText p.specName

/-- The name that a model is exported under, `owners` being the joined names of
the models around it. -/
def exportName (owners : String) (name : Option String) : String :=
  pieces [owners, showText name]

/-- The joined names of the models around those nested in a model. -/
def ownersOf (owners : String) (name : Option String) : String :=
  pieces [exportName owners name, "_"]

def propertyLine (p : Property) : String :=
  pieces
    ["  ", propertyName p, onlyIf (!p.isRequired) "?", ": ", typeName p.type, ";\n"]

def extension (c : ClassHead) : String :=
  match superclass? c with
  | some s => pieces [" extends ", s]
  | none => ""

def interfaceHead (owners : String) (c : ClassHead) : String :=
  pieces
    ["/**\n",
      onlyIf c.description.truthy (pieces [" * ", described c.description, "\n"]),
      " * @export\n",
      " * @class ", exportName owners c.name, "\n",
      " */\n",
      "export interface ", exportName owners c.name, extension c, " \x7b\n",
      forEach c.properties propertyLine,
      "\x7d\n"]

mutual

/-- The interface of a model and those of the models nested in it. -/
def interface (owners : String) : Model → String
  | .object head nested =>
    pieces [interfaceHead owners head, nestedInterfaces (ownersOf owners head.name) nested]
  | .enumeration e => interfaceHead owners (classHead (.enumeration e))
  | .property p => interfaceHead owners (classHead (.property p))

def nestedInterfaces (owners : String) : List Model → String
  | [] => ""
  | m :: ms => pieces [interface owners m, nestedInterfaces owners ms]

end

def enumText (e : EnumModel) : String :=
  pieces
    ["export type ", showText e.name, " = ",
      " | ".intercalate (e.cases.map fun c => literal c.value), ";\n"]

def enumOf : Model → String
  | .enumeration e => enumText e
  | _ => ""

def argumentLine (x : EmitContext) (p : Param) : String :=
  pieces
    ["  ", argumentName x p, onlyIf (!p.isRequired) "?", ": ", typeName p.type, ",\n"]

/-- The interface of a method's arguments; a method without any has none. -/
def argumentsInterface (x : EmitContext) (m : Method) : String :=
  onlyIf (!m.params.isEmpty) (pieces
    ["export interface ", m.name, "Arguments \x7b\n",
      forEach m.params (argumentLine x),
      "\x7d\n",
      "\n"])

/-- The type of the first argument of a method. -/
def requestType (m : Method) : String :=
  if m.params.isEmpty then "(request?: null | undefined"
  else pieces ["(request: ", m.name, "Arguments"]

def methodDeclaration (x : EmitContext) (m : Method) : String :=
  pieces
    [methodComment x m,
      "  ", m.name, requestType m,
      ", options?: FetchPerRequestOptions) : ServiceCallPromise<RestApiSuccessResponse<",
      typeName m.response.type, "> | RestApiErrorResponse>;\n"]

def importedTypes : String :=
  lines
    ["import type \x7b",
      "  EventSource,",
      "  ResponseHeaders,",
      "  ServiceCallPromise,",
      "  SystemFetchResponse,",
      "  AbortController,",
      "  FetchConfig,",
      "  FetchPerRequestOptions,",
      "  RestApiErrorResponse,",
      "  RestApiSuccessResponse,",
      "\x7d from 'rest-api-support';"]

def declarations (x : EmitContext) : String :=
  pieces
    ["// tslint:disable\n",
      importedTypes,
      "\n",
      forEach x.model.enums enumOf,
      "\n",
      forEach x.model.objects fun m => pieces [interface "" m, "\n"],
      "\n",
      forEach x.model.methods (argumentsInterface x),
      "export class ", x.className, " \x7b\n",
      "  constructor(configOrFunctionGeneratingConfig: FetchConfig);\n",
      forEach x.model.methods (methodDeclaration x),
      "\x7d\n",
      "\n",
      exportLine x]

/-! ## Package files -/

def packageJson (x : EmitContext) : String :=
  pieces
    ["\x7b\n",
      "  \"name\": \"", x.package, "\",\n",
      "  \"version\": \"", x.version.asText, "\",\n",
      "  \"description\": \"Generated client for ", x.apiName, "\",\n",
      lines
        ["  \"main\": \"index.js\",",
          "  \"types\": \"index.d.ts\",",
          "  \"dependencies\": \x7b",
          "    \"rest-api-support\": \"^1.0.0\"",
          "  \x7d,",
          "  \"devDependencies\": \x7b",
          "    \"@babel/preset-env\": \"^7.0.0\"",
          "  \x7d",
          "\x7d"]]

def babelConfig : String :=
  lines
    ["module.exports = \x7b",
      "  presets: [",
      "    ['@babel/preset-env', \x7b targets: \x7b node: 'current' \x7d \x7d],",
      "  ],",
      "\x7d;"]

def specJson (x : EmitContext) : String := pieces [(Json.obj x.document).indented, "\n"]

/-- The values of the document that the files hold: all of it, since it is one of the
files. -/
def values (x : EmitContext) : List Json := [.obj x.document]

end Emit.JavaScript

end ClientForge
