import IntegrationCompiler.Diagnostics.Failure
import IntegrationCompiler.Endpoint.Basic
import IntegrationCompiler.Field.Basic
import IntegrationCompiler.Json.Printer
import IntegrationCompiler.Naming.Label
import IntegrationCompiler.Schema.Basic

/-!
# Fields from schemas

The input fields for parameters and for the properties of a body. Lists and objects are entered as
JSON text, and a default is kept only where the field holds text.

Main definitions:

* `defaultText` — a value as the text of a field;
* `Field.ofSchema` — the field for one schema;
* `Field.ofParameters`, `Field.ofProperties`.
-/

namespace IntegrationCompiler

/-- A value as the text of a field: a text is itself, anything else is JSON. -/
def defaultText (v : Value) : Except Failure String :=
  match v with
  | .str s => .ok s
  | other => orMalformed (Json.render? .compact other)

/-- How dates are written. -/
def dateFormat : String := "YYYY-MM-DD"

/-- The text of a value without blanks at its ends. -/
def trimmed (s : String) : String :=
  String.ofList (Text.trim s.toList)

namespace Field

/-- A help text with a note behind it; a help that cannot be written has none. -/
def noted (help : Value) (note : String) : Except Failure String := do
  let text ← orMalformed help.text?
  .ok (text ++ note)

/-- The help text of a date field, which says how dates are written. -/
def dateHelp (help : Value) : Except Failure Value :=
  if help.truthy then do
    let said ← orMalformed (help.contains? dateFormat)
    if said then .ok help else (noted help (" (Format: " ++ dateFormat ++ ")")).map .str
  else .ok (.str ("Format: " ++ dateFormat))

/-- What the type of a schema decides about its field. -/
structure Form where
  type : FieldType := .string
  help : Value
  choices : Value := .null
  placeholder : Value := .null

/-- The choices that an enumeration offers, as texts. Each has to be one that can be written. -/
def choicesOf (schema : Value) : Except Failure Value :=
  match (Schema.entry schema "enum").present? with
  | none => .ok .null
  | some v => do
    let items ← orMalformed v.walk?
    let texts ← items.mapM fun item => orMalformed item.text?
    .ok (.texts texts)

/-- The form of the field for a schema with the given help text. -/
def formOf (schema help : Value) : Except Failure Form := do
  if Schema.isTextOf schema "date" then
    let help ← dateHelp help
    .ok { help := help, placeholder := .str dateFormat }
  else if Schema.isTextOf schema "date-time" then .ok { type := .datetime, help := help }
  else if Schema.hasType schema "string" then
    let choices ← choicesOf schema
    .ok { help := help, choices := choices }
  else if Schema.isNumeric schema then
    let choices ← choicesOf schema
    .ok { type := .number, help := help, choices := choices }
  else if Schema.hasType schema "boolean" then .ok { type := .boolean, help := help }
  else if Schema.hasType schema "array" then
    let help ← noted help " (JSON array format)"
    .ok { help := .str (trimmed help) }
  else if Schema.hasType schema "object" then
    let help ← noted help " (JSON object format)"
    .ok { help := .str (trimmed help) }
  else .ok { help := help }

/-- The default of a field: only fields that hold text have one. -/
def defaultOf (schema : Value) (type : FieldType) : Except Failure Value :=
  if type = .string then
    match Schema.entry schema "default" with
    | .null => .ok .null
    | v => (defaultText v).map .str
  else .ok .null

/-- The field for a schema. A description that is given wins over that of the schema; a schema that
is not present makes a plain text field. -/
def ofSchema (schema : Value) (key : String) (required : Bool) (description : Value) :
    Except Failure Field := do
  let fields (type : FieldType) (help : Value) : List (String × Value) := [
    ("key", .str key), ("label", .str (formatLabel key)), ("type", .str type.name),
    ("help_text", help), ("required", .bool required)]
  let described := (description.present?).getD (.str "")
  if !schema.truthy then (Field.read (.object (fields .string described))).orFail
  else
    match schema with
    | .map _ =>
      let own := ((Schema.entry schema "description").present?).getD (.str "")
      let form ← formOf schema ((description.present?).getD own)
      let default ← defaultOf schema form.type
      (Field.read (.object (fields form.type form.help ++ [
        ("choices", form.choices), ("default", default),
        ("placeholder", form.placeholder)]))).orFail
    | _ => .error .malformed

/-- The fields for parameters, apart from those with the excluded names. A parameter's own
description wins over that of its schema. -/
def ofParameters (parameters : List Parameter) (exclude : List String) :
    Except Failure (List Field) :=
  (parameters.filter fun p => !exclude.contains p.name).mapM fun p =>
    let schema := Value.map (p.schema.getD [])
    let own := Value.optionalText p.description
    let description := if own.truthy then own else Schema.entry schema "description"
    ofSchema schema p.name p.required description

/-- The names that a schema requires; each has to be a scalar. A schema that does not count as
present requires nothing. -/
def requiredNames (schema : Value) : Except Failure (List Scalar) :=
  match schema with
  | .map es =>
    match (Entries.getOrNull es "required").present? with
    | none => .ok []
    | some v => do
      let items ← orMalformed v.walk?
      items.mapM fun item => match item with
        | .scalar s => .ok s
        | _ => .error .malformed
  | other => if other.truthy then .error .malformed else .ok []

/-- The fields for the properties of a schema, apart from the excluded ones. -/
def ofProperties (schema : Value) (exclude : List String) : Except Failure (List Field) := do
  let required ← requiredNames schema
  let kept := (Schema.properties schema).filter fun (name, _) =>
    !exclude.any fun e => name == .str e
  kept.mapM fun (name, property) =>
    match name with
    | .str key => ofSchema property key (required.any (·.same name)) .null
    | _ => .error .malformed

end Field

end IntegrationCompiler
