import IntegrationCompiler.Diagnostics.Issue

/-!
# Input fields

What the user fills in. A field either holds a value or groups other fields, never both.

Main definitions:

* `Field`, `FieldType`, `Binding`;
* `Field.shapeFault?` — how a field breaks the rule, `Field.checked` and `Field.WellShaped`;
* `Field.read`, `Field.toValue`.
-/

namespace IntegrationCompiler

/-- The kinds of value that a field may hold. -/
inductive FieldType where
  | string
  | text
  | integer
  | number
  | boolean
  | datetime
  | password
  | file
  | copy
  deriving DecidableEq, Repr

namespace FieldType

/-- All types. -/
def all : List FieldType :=
  [.string, .text, .integer, .number, .boolean, .datetime, .password, .file, .copy]

/-- The name of a type. -/
def name : FieldType → String
  | .string => "string"
  | .text => "text"
  | .integer => "integer"
  | .number => "number"
  | .boolean => "boolean"
  | .datetime => "datetime"
  | .password => "password"
  | .file => "file"
  | .copy => "copy"

/-- The type with the given name. -/
def ofName? (s : String) : Option FieldType :=
  all.find? (·.name == s)

end FieldType

/-- The trigger that fills a field's dropdown, and the property that is chosen. -/
structure Binding where
  triggerKey : String
  valueProperty : String := "id"
  deriving DecidableEq, Repr

namespace Binding

/-- The trigger and the property with a point between them. -/
def reference (b : Binding) : String :=
  b.triggerKey ++ "." ++ b.valueProperty

/-- Checks a binding. -/
def read : Value → Checked Binding := Value.asRecord fun es =>
  Binding.mk
    <$> es.need ["trigger_key"] Value.asText
    <*> es.want ["value_property"] Value.asText "id"

/-- Writes a binding. -/
def toValue (b : Binding) : Value := .object [
  ("trigger_key", .str b.triggerKey), ("value_property", .str b.valueProperty)]

end Binding

/-- An input field. -/
structure Field where
  key : String
  label : String
  type : Option FieldType := none
  children : List Field := []
  helpText : Option String := none
  required : Bool := false
  choices : Option (List String) := none
  default : Option String := none
  placeholder : Option String := none
  dynamic : Option Binding := none
  deriving Repr, Inhabited

namespace Field

/-! ## Shape -/

/-- How a field breaks the rule of shapes, if it does: it has either a type or children, and a
default only if it holds text. -/
def shapeFault? (f : Field) : Option ShapeFault :=
  if !f.children.isEmpty && f.type.isSome then some (.typedGroup f.key)
  else if f.children.isEmpty && f.type.isNone then some (.empty f.key)
  else if f.default.isSome && f.type != some .string then some (.defaultNotText f.key)
  else none

/-- A field that keeps the rule of shapes. -/
def checked (f : Field) : Checked Field :=
  match f.shapeFault? with
  | some fault => .fail (.shape fault)
  | none => .ok f

/-! ## Reading and writing -/

/-- Checks a field whose children are read by `readChild`. -/
def readWith (readChild : Value → Checked Field) : Value → Checked Field := fun v =>
  (Value.asRecord (fun es =>
    Field.mk
      <$> es.need ["key"] Value.asText
      <*> es.need ["label"] Value.asText
      <*> es.want ["type"] (Value.asOptional (Value.asOneOf FieldType.ofName?)) none
      <*> es.want ["children"] (Value.asList readChild) []
      <*> es.want ["help_text"] (Value.asOptional Value.asText) none
      <*> es.want ["required"] Value.asBool false
      <*> es.want ["choices"] (Value.asOptional (Value.asList Value.asText)) none
      <*> es.want ["default"] (Value.asOptional Value.asText) none
      <*> es.want ["placeholder"] (Value.asOptional Value.asText) none
      <*> es.want ["dynamic"] (Value.asOptional Binding.read) none) v).andThen checked

/-- Checks a field nested less than `depth` deep. -/
def readTo : Nat → Value → Checked Field
  | 0 => fun _ => .fail .object
  | depth + 1 => readWith (readTo depth)

/-- Checks a field. A value cannot hold fields nested deeper than itself. -/
def read (v : Value) : Checked Field :=
  readTo v.depth v

mutual

/-- Writes a field. -/
def toValue : Field → Value
  | ⟨key, label, type, children, helpText, required, choices, default, placeholder, dynamic⟩ =>
    .object [
      ("key", .str key), ("label", .str label), ("type", .optionalText (type.map FieldType.name)),
      ("children", .list (toValues children)), ("help_text", .optionalText helpText),
      ("required", .bool required),
      ("choices", match choices with
        | some cs => .texts cs
        | none => .null),
      ("default", .optionalText default), ("placeholder", .optionalText placeholder),
      ("dynamic", match dynamic with
        | some b => b.toValue
        | none => .null)]

/-- Writes fields. -/
def toValues : List Field → List Value
  | [] => []
  | f :: rest => f.toValue :: toValues rest

end

end Field

end IntegrationCompiler
