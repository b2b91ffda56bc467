import IntegrationCompiler.Request.Plan

/-!
# Looking into schemas

What a resolved schema says about the values it describes.

Main definitions: `Schema.type`, `Schema.properties`, `Schema.valueKind`.
-/

namespace IntegrationCompiler.Schema

/-- The entry of a schema; null for a value that is no schema. -/
def entry (schema : Value) (key : String) : Value :=
  match schema with
  | .map es => Entries.getOrNull es key
  | _ => .null

/-- The type of a schema: the first one that is not null where it lists several, and `object` where
it has properties and names none. -/
def type (schema : Value) : Value :=
  match entry schema "type" with
  | .list types => (types.find? fun t => !t.isText "null").getD .null
  | .null =>
    match entry schema "properties" with
    | .map _ => .str "object"
    | _ => .null
  | other => other

/-- The properties of a schema. -/
def properties (schema : Value) : Entries :=
  match entry schema "properties" with
  | .map es => es
  | _ => []

/-- Whether a schema has the given type. -/
def hasType (schema : Value) (name : String) : Bool :=
  (type schema).isText name

/-- Whether a schema describes numbers. -/
def isNumeric (schema : Value) : Bool :=
  hasType schema "integer" || hasType schema "number"

/-- Whether a schema describes text of the given format. -/
def isTextOf (schema : Value) (format : String) : Bool :=
  hasType schema "string" && (entry schema "format").isText format

/-- How an input for a schema is read. -/
def valueKind (schema : Value) : ValueKind :=
  if isTextOf schema "date" then .date
  else if isNumeric schema then .number
  else if hasType schema "boolean" then .boolean
  else if hasType schema "array" then .array
  else if hasType schema "object" then .object
  else .string

end IntegrationCompiler.Schema
