import Novella.Dict
import Novella.Json.Value

/-!
# Schemas of JSON documents

The words in which a schema describes a document. The fields of a record are listed in the
order of their names, whatever order a document has them in.
-/

namespace Novella.Json

/-- What a schema says of a value. -/
abbrev Shape := List (String × Json)

namespace Shape

def text : Shape := [("type", .text "string")]

def truth : Shape := [("type", .text "boolean")]

def number : Shape := [("type", .text "number"), ("format", .text "double")]

def natural (width : Nat) : Shape := [
  ("type", .text "integer"), ("format", .text ("uint" ++ toString width)), ("minimum", .float 0)]

def optionalText : Shape := [("type", Json.texts ["string", "null"])]

def optionalNatural (width : Nat) : Shape := [
  ("type", Json.texts ["integer", "null"]), ("format", .text ("uint" ++ toString width)),
  ("minimum", .float 0)]

def listOf (items : Shape) : Shape := [("type", .text "array"), ("items", .record items)]

def dictOf (values : Shape) : Shape := [
  ("type", .text "object"), ("additionalProperties", .record values)]

def anyDict : Shape := [("type", .text "object"), ("additionalProperties", .bool true)]

def oneOf (names : List String) : Shape := [
  ("type", .text "string"), ("enum", Json.texts names)]

/-- What a definition of the schema says. -/
def definition (name : String) : Shape := [("$ref", .text ("#/definitions/" ++ name))]

/-- What a definition says, or nothing. -/
def optionalDefinition (name : String) : Shape := [
  ("anyOf", .list [.record (definition name), .record [("type", .text "null")]])]

/-- What a definition says, as one of the things that are said. -/
def allOf (name : String) : Shape := [("allOf", .list [.record (definition name)])]

def described (s : Shape) (description : String) : Shape :=
  ("description", .text description) :: s

def defaulted (s : Shape) (v : Json) : Shape := ("default", v) :: s

end Shape

structure Field where
  name : String
  required : Bool
  shape : Shape

def Field.must (name : String) (shape : Shape) : Field := ⟨name, true, shape⟩

def Field.may (name : String) (shape : Shape) : Field := ⟨name, false, shape⟩

def Shape.object (fields : List Field) : Shape :=
  let required := (Dict.ofList ((fields.filter (·.required)).map fun f => (f.name, ()))).keys
  [("type", .text "object")] ++
  (if required.isEmpty then [] else [("required", Json.texts required)]) ++
  [("properties", .record (Dict.ofList (fields.map fun f => (f.name, Json.record f.shape))).entries)]

/-- A whole schema: the title and the fields of a document, and the definitions it uses. -/
def schema (title : String) (fields : List Field) (definitions : List (String × Shape)) : Json :=
  .record ([("$schema", .text "http://json-schema.org/draft-07/schema#"),
    ("title", .text title)] ++ Shape.object fields ++
    [("definitions", .record (Dict.ofList (definitions.map fun (name, s) =>
      (name, Json.record s))).entries)])

end Novella.Json
