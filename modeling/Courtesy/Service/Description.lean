import Courtesy.Diagnostic
import Courtesy.ValueType
import Courtesy.Yaml.Document

/-!
# The description of the service

The OpenAPI document of the development server: its paths and the shapes of what it takes and gives.
-/

namespace Courtesy.Service

open Courtesy.Yaml

/-- The version of this program. -/
def version : String := "0.1.0"

namespace Description

/-- A reference to a shape. -/
def shape (name : String) : Document := .mapping [("$ref", .text ("#/components/schemas/" ++ name))]

/-- A property of a type, with its description if that is not empty. -/
def property (type description : String) : Document :=
  .mapping (("type", .text type) ::
    if description == "" then [] else [("description", .text description)])

def names (ns : List String) : Document := .sequence (ns.map .text)

/-- One of several words. -/
def choice (words : List String) : Document :=
  .mapping [("type", .text "string"), ("enum", names words)]

/-- A list of things of a shape. -/
def listOf (name : String) : Document :=
  .mapping [("type", .text "array"), ("items", shape name)]

/-- An object with properties, some of them required. -/
def object (properties : List (String × Document)) (required : List String) : Document :=
  .mapping ([("type", .text "object"), ("properties", .mapping properties)]
    ++ if required.isEmpty then [] else [("required", names required)])

/-- What is sent as JSON. -/
def body (schema : Document) : Document :=
  .mapping [("application/json", .mapping [("schema", schema)])]

def response (description : String) : Document :=
  .mapping [("description", .text description)]

def responseWith (description : String) (schema : Document) : Document :=
  .mapping [("description", .text description), ("content", body schema)]

/-- An operation that takes nothing. -/
def operation (summary : String) (responses : List (String × Document)) : Document :=
  .mapping [("summary", .text summary), ("responses", .mapping responses)]

def paths : List (String × Document) :=
  [("/api/health", .mapping [("get", operation "Health check"
      [("200", responseWith "Service is up" (shape "Health"))])]),
   ("/api/translate", .mapping [("post", .mapping [
      ("summary", .text "Translate PoliteCode source to C#"),
      ("requestBody", .mapping [
        ("required", .flag true), ("content", body (shape "TranslateRequest"))]),
      ("responses", .mapping [
        ("200", responseWith "Translation result" (shape "TranslateResponse")),
        ("400", response "Malformed request"),
        ("429", response "Rate limit exceeded")])])]),
   ("/api/templates", .mapping [("get", operation "List the bundled example programs"
      [("200", responseWith "Template names and sources" (listOf "Template"))])]),
   ("/metrics", .mapping [("get", operation "Prometheus metrics"
      [("200", response "Metrics in text exposition format")])])]

def schemas : List (String × Document) :=
  [("Health", object [("status", property "string" "")] []),
   ("TranslateRequest", object [
      ("source", property "string" "PoliteCode program, one statement per line"),
      ("namespace", property "string" "Wrapping namespace; empty emits the class alone")]
      ["source"]),
   ("TranslateResponse", object [
      ("id", .mapping [("type", .text "string"), ("format", .text "uuid")]),
      ("ok", property "boolean" ""),
      ("code", property "string" "Generated C# program"),
      ("diagnostics", listOf "Diagnostic")]
      ["id", "ok", "diagnostics"]),
   ("Diagnostic", object [
      ("category", choice (Category.all.map (·.name))),
      ("message", property "string" ""),
      ("line", property "integer" "1-based source line"),
      ("column", property "integer" "1-based source column"),
      ("terminal", property "boolean" "The run stopped here")]
      ["category", "message"]),
   ("Template", object [("name", property "string" ""), ("source", property "string" "")]
      ["name", "source"]),
   ("DeclaredType", choice (ValueType.declared.map (·.name)))]

end Description

/-- The wording with which a version without a name is refused. -/
def versionRefusal : String := "empty API version"

/-- The description of a version of the service; there is none of a version without a name. -/
def description? (version : String) : Option String :=
  if version == "" then none
  else some (Document.render (.mapping [
    ("openapi", .text "3.0.0"),
    ("info", .mapping [
      ("title", .text "PoliteCode Translate API"), ("version", .text version)]),
    ("paths", .mapping Description.paths),
    ("components", .mapping [("schemas", .mapping Description.schemas)])]))

end Courtesy.Service
