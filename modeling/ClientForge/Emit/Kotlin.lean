-- SUMMARY: The Kotlin client of an API.
import ClientForge.Emit.Text
import ClientForge.Text.Upper

/-!
# Kotlin

One file per API: an interface of annotated functions, a data class per object
model, with nested models inside it, and an enumeration class per enumeration
model.
-/

namespace ClientForge

namespace Emit.Kotlin

/-! ## Classes -/

def propertyLine (last : Bool) (p : Property) : String :=
  pieces
    ["    @SerializedName(\"", specText p.specName, "\") val ", showText p.name, ": ",
      showText p.type, onlyIf (!p.isRequired) "? = null", comma last,
      onlyIf p.description.truthy (pieces ["  // ", described p.description]), "\n"]

/-- The call of the base class's constructor. -/
def superCall (c : ClassHead) : String :=
  match superclass? c with
  | some s =>
    pieces [" : ", s, "(", ", ".intercalate (c.inherited.map fun p => showText p.name), ")"]
  | none => ""

/-- The body of a class that has others nested in it. -/
def classBody (nested : List String) : String :=
  onlyIf (!nested.isEmpty) (pieces
    [" \x7b\n", forEach nested fun text => pieces [setIn text, "\n"], "\x7d"])

/-- A class, given the text of the classes nested in it. -/
def classText (c : ClassHead) (nested : List String) : String :=
  pieces
    [onlyIf c.description.truthy (pieces ["/** ", described c.description, " */\n"]),
      if c.subclasses.isEmpty then "data" else "open", " class ", showText c.name, " (\n",
      each propertyLine c.initializer,
      ")", superCall c, classBody nested, "\n"]

mutual

def dataClass : Model → String
  | .object head nested => classText head (nestedClasses nested)
  | .enumeration e => classText (classHead (.enumeration e)) []
  | .property p => classText (classHead (.property p)) []

def nestedClasses : List Model → List String
  | [] => []
  | m :: ms => dataClass m :: nestedClasses ms

end

/-! ## Enumerations -/

def enumCase (last : Bool) (c : EnumCase) : String :=
  pieces
    ["        @SerializedName(", literal c.value, ") ", showText c.name, "(",
      kotlinText (literal c.value), ")", if last then ";" else ",", "\n"]

def enumText (e : EnumModel) : String :=
  pieces
    ["    enum class ", showText e.name, "(val value: ", showText e.enumType, ") \x7b\n",
      each enumCase e.cases,
      "    \x7d\n",
      "\n"]

def enumOf : Model → String
  | .enumeration e => enumText e
  | _ => ""

/-! ## Methods -/

/-- A mark with the name of a parameter on the wire. -/
def marked (mark : String) (p : Param) : String :=
  pieces [mark, "(\"", p.serverName.asText, "\") "]

/-- The mark that says where a parameter goes. -/
def placeMark (p : Param) : String :=
  match p.location with
  | .str "path" => marked "@Path" p
  | .str "query" => marked "@Query" p
  | .str "header" => marked "@Header" p
  | .str "formData" => "@Part "
  | .str "body" => "@Body "
  | _ => ""

def isForm (p : Param) : Bool := p.location.same (.str "formData")

def paramDoc (p : Param) : String :=
  pieces
    ["         * @param ", showText p.name, " ", kotlinText (described p.description), "\n"]

def parameter (last : Bool) (p : Param) : String :=
  pieces
    ["            ", placeMark p, showText p.name, ": ", showText p.type,
      onlyIf (!p.isRequired) "? = null", comma last, "\n"]

def method (m : Method) : String :=
  pieces
    ["\n",
      "        /**\n",
      onlyIf m.description.truthy
        (pieces ["         * ", kotlinText (described m.description), "\n"]),
      forEach m.params paramDoc,
      "         * @return Single<", showText m.response.type, ">\n",
      "         */\n",
      if m.params.any isForm then "        @Multipart\n"
        else "        @Headers(\"Content-Type:application/json\")\n",
      "        @", Text.upperText m.verb, "(\"", kotlinText m.path, "\")\n",
      "        fun ", m.name, "(\n",
      "            @HeaderMap headerMap: Map<String, String>", comma m.params.isEmpty, "\n",
      each parameter m.params,
      "        ) : Single<", showText m.response.type, ">\n"]

/-! ## Files -/

def imports : String :=
  lines
    ["import com.google.gson.annotations.SerializedName",
      "import io.reactivex.Single",
      "import retrofit2.Response",
      "import retrofit2.http.*",
      "import java.time.OffsetDateTime",
      "import okhttp3.MultipartBody"]

def client (x : EmitContext) : String :=
  pieces
    ["@file:Suppress(\"unused\", \"UnusedImport\", \"EnumEntryName\")\n",
      "\n",
      "package ", x.options.package, "\n",
      "\n",
      imports,
      "\n",
      "\n",
      "class ", x.className, "WebServices \x7b\n",
      "\n",
      "    //region Web Services\n",
      "    interface API \x7b\n",
      forEach x.model.methods method,
      "    \x7d\n",
      "    //endregion\n",
      "\n",
      "\n",
      "    //region Models\n",
      forEach x.model.objects fun m => pieces [setIn (dataClass m), "\n"],
      "    //endregion\n",
      "\n",
      "    //region Enums\n",
      forEach x.model.enums enumOf,
      "    //endregion\n",
      "\x7d\n"]

/-! ## Values -/

def valuesOfMethod (m : Method) : List Json :=
  m.description :: m.params.flatMap fun p => [p.serverName, p.description]

def valuesOfHead (c : ClassHead) : List Json :=
  c.description :: c.initializer.map (·.description)

def valuesOfEnum : Model → List Json
  | .enumeration e => e.cases.map (·.value)
  | _ => []

/-- The values of the document that the file holds. Keys need not be listed: names have
been built from them. -/
def values (x : EmitContext) : List Json :=
  x.model.methods.flatMap valuesOfMethod ++
    x.model.objects.flatMap (valuesOfClass valuesOfHead) ++ x.model.enums.flatMap valuesOfEnum

end Emit.Kotlin

end ClientForge
