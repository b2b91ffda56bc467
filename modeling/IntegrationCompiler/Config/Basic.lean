import IntegrationCompiler.Endpoint.Basic

/-!
# Configuration

What the user says about operations: which are left out, renamed, reshaped or polled, and how a
connection is authenticated. Keys of several words may be written in camel case or with underscores.

Main definitions: `GeneratorConfig`, with `ActionConfig`, `TriggerConfig` and `AuthConfig`, and
`Settings`. Each has a `read`, which checks a value, and a `toValue`, which writes it.
-/

namespace IntegrationCompiler

/-! ## Names of keys -/

/-- A name with underscores in camel case: each underscore goes, and the letter after it is a
capital. -/
def camelCase (name : String) : String :=
  String.ofList (go name.toList)
where
  /-- The characters in camel case. -/
  go : List Char → List Char
    | '_' :: c :: rest => c.toUpper :: go rest
    | c :: rest => c :: go rest
    | [] => []

/-- The names a key goes by, the preferred one first. -/
def keyNames (name : String) : List String :=
  [camelCase name, name]

/-- The name under which a key is written. -/
def NameForm.key : NameForm → String → String
  | .plain, name => name
  | .alias, name => camelCase name

/-- A list of named records under their names. -/
def Value.named {α : Type} (write : α → Value) (records : List (String × α)) : Value :=
  .object (records.map fun (key, r) => (key, write r))

/-- A record or null. -/
def Value.optional {α : Type} (write : α → Value) : Option α → Value
  | some r => write r
  | none => .null

/-! ## Actions -/

/-- A field whose dropdown is filled by a trigger. -/
structure DropdownConfig where
  sourceTrigger : String
  valueField : String := "id"
  deriving DecidableEq, Repr

namespace DropdownConfig

/-- Checks a dropdown. -/
def read : Value → Checked DropdownConfig := Value.asRecord fun es =>
  DropdownConfig.mk
    <$> es.need (keyNames "source_trigger") Value.asText
    <*> es.want (keyNames "value_field") Value.asText "id"

/-- Writes a dropdown. -/
def toValue (form : NameForm) (c : DropdownConfig) : Value := .object [
  (form.key "source_trigger", .str c.sourceTrigger), (form.key "value_field", .str c.valueField)]

end DropdownConfig

/-- A body that holds one list is presented as the fields of one item. -/
structure FlattenConfig where
  arrayField : String
  /-- The named schema of an item. -/
  itemSchema : String
  /-- The group around the fields of the item; without it they stand alone. -/
  publicName : Option String := none
  deriving DecidableEq, Repr

namespace FlattenConfig

/-- Checks a flattening. -/
def read : Value → Checked FlattenConfig := Value.asRecord fun es =>
  FlattenConfig.mk
    <$> es.need (keyNames "array_field") Value.asText
    <*> es.need (keyNames "item_schema") Value.asText
    <*> es.want (keyNames "public_name") (Value.asOptional Value.asText) none

/-- Writes a flattening. -/
def toValue (form : NameForm) (c : FlattenConfig) : Value := .object [
  (form.key "array_field", .str c.arrayField), (form.key "item_schema", .str c.itemSchema),
  (form.key "public_name", .optionalText c.publicName)]

end FlattenConfig

/-- How an action unwraps an object that holds a list. -/
structure UnwrapConfig where
  extractSingle : Bool := false
  arrayProperty : Option String := none
  deriving DecidableEq, Repr

namespace UnwrapConfig

/-- Checks an unwrapping. -/
def read : Value → Checked UnwrapConfig := Value.asRecord fun es =>
  UnwrapConfig.mk
    <$> es.want (keyNames "extract_single") Value.asBool false
    <*> es.want (keyNames "array_property") (Value.asOptional Value.asText) none

/-- Writes an unwrapping. -/
def toValue (form : NameForm) (c : UnwrapConfig) : Value := .object [
  (form.key "extract_single", .bool c.extractSingle),
  (form.key "array_property", .optionalText c.arrayProperty)]

end UnwrapConfig

/-- A simpler presentation of an action. -/
structure SimplifyConfig where
  enabled : Bool := false
  name : Option String := none
  flattenArray : Option FlattenConfig := none
  additionalProperties : List String := []
  responseExtraction : Option UnwrapConfig := none
  deriving DecidableEq, Repr

namespace SimplifyConfig

/-- Checks a simplification. -/
def read : Value → Checked SimplifyConfig := Value.asRecord fun es =>
  SimplifyConfig.mk
    <$> es.want ["enabled"] Value.asBool false
    <*> es.want ["name"] (Value.asOptional Value.asText) none
    <*> es.want (keyNames "flatten_array") (Value.asOptional FlattenConfig.read) none
    <*> es.want (keyNames "additional_properties") (Value.asList Value.asText) []
    <*> es.want (keyNames "response_extraction") (Value.asOptional UnwrapConfig.read) none

/-- Writes a simplification. -/
def toValue (form : NameForm) (c : SimplifyConfig) : Value := .object [
  ("enabled", .bool c.enabled), ("name", .optionalText c.name),
  (form.key "flatten_array", .optional (FlattenConfig.toValue form) c.flattenArray),
  (form.key "additional_properties", .texts c.additionalProperties),
  (form.key "response_extraction", .optional (UnwrapConfig.toValue form) c.responseExtraction)]

end SimplifyConfig

/-- An extra input whose values are merged into a property of the body. -/
structure HelperConfig where
  mapTo : String
  label : Option String := none
  type : String := "string"
  helpText : Option String := none
  dynamicFields : Option DropdownConfig := none
  deriving DecidableEq, Repr

namespace HelperConfig

/-- Checks a helper. -/
def read : Value → Checked HelperConfig := Value.asRecord fun es =>
  HelperConfig.mk
    <$> es.need (keyNames "map_to") Value.asText
    <*> es.want ["label"] (Value.asOptional Value.asText) none
    <*> es.want ["type"] Value.asText "string"
    <*> es.want (keyNames "help_text") (Value.asOptional Value.asText) none
    <*> es.want (keyNames "dynamic_fields") (Value.asOptional DropdownConfig.read) none

/-- Writes a helper. -/
def toValue (form : NameForm) (c : HelperConfig) : Value := .object [
  (form.key "map_to", .str c.mapTo), ("label", .optionalText c.label), ("type", .str c.type),
  (form.key "help_text", .optionalText c.helpText),
  (form.key "dynamic_fields", .optional (DropdownConfig.toValue form) c.dynamicFields)]

end HelperConfig

/-- What the user says about an action. -/
structure ActionConfig where
  isOmitted : Bool := false
  hideQueryParams : List String := []
  hideRequestBodyProperties : List String := []
  fieldDefaults : Entries := []
  simplify : Option SimplifyConfig := none
  dynamicFields : List (String × DropdownConfig) := []
  helperFields : List (String × HelperConfig) := []
  deriving Repr

namespace ActionConfig

/-- The simplification, where it is enabled. -/
def simplified? (c : ActionConfig) : Option SimplifyConfig :=
  c.simplify.filter (·.enabled)

/-- Checks an action's configuration. -/
def read : Value → Checked ActionConfig := Value.asRecord fun es =>
  ActionConfig.mk
    <$> es.want ["omit"] Value.asBool false
    <*> es.want (keyNames "hide_query_params") (Value.asList Value.asText) []
    <*> es.want (keyNames "hide_request_body_properties") (Value.asList Value.asText) []
    <*> es.want (keyNames "field_defaults") Value.asEntries []
    <*> es.want ["simplify"] (Value.asOptional SimplifyConfig.read) none
    <*> es.want (keyNames "dynamic_fields") (Value.asMapping DropdownConfig.read) []
    <*> es.want (keyNames "helper_fields") (Value.asMapping HelperConfig.read) []

/-- Writes an action's configuration. -/
def toValue (form : NameForm) (c : ActionConfig) : Value := .object [
  ("omit", .bool c.isOmitted), (form.key "hide_query_params", .texts c.hideQueryParams),
  (form.key "hide_request_body_properties", .texts c.hideRequestBodyProperties),
  (form.key "field_defaults", .map c.fieldDefaults),
  ("simplify", .optional (SimplifyConfig.toValue form) c.simplify),
  (form.key "dynamic_fields", .named (DropdownConfig.toValue form) c.dynamicFields),
  (form.key "helper_fields", .named (HelperConfig.toValue form) c.helperFields)]

end ActionConfig

/-! ## Triggers -/

/-- How the items of a dropdown are labelled. -/
structure LabelConfig where
  template : Option String := none
  fallback : Option String := none
  deriving DecidableEq, Repr

namespace LabelConfig

/-- Checks a label. -/
def read : Value → Checked LabelConfig := Value.asRecord fun es =>
  LabelConfig.mk
    <$> es.want ["template"] (Value.asOptional Value.asText) none
    <*> es.want ["fallback"] (Value.asOptional Value.asText) none

/-- Writes a label. -/
def toValue (c : LabelConfig) : Value := .object [
  ("template", .optionalText c.template), ("fallback", .optionalText c.fallback)]

end LabelConfig

/-- What the user says about a trigger. -/
structure TriggerConfig where
  endpoint : String
  name : Option String := none
  title : Option String := none
  description : Option String := none
  arrayProperty : Option String := none
  queryParams : Entries := []
  filters : Entries := []
  filterCode : Option String := none
  hidden : Bool := false
  label : Option LabelConfig := none
  deriving Repr

namespace TriggerConfig

/-- Checks a trigger's configuration. -/
def read : Value → Checked TriggerConfig := Value.asRecord fun es =>
  TriggerConfig.mk
    <$> es.need ["endpoint"] Value.asText
    <*> es.want ["name"] (Value.asOptional Value.asText) none
    <*> es.want ["title"] (Value.asOptional Value.asText) none
    <*> es.want ["description"] (Value.asOptional Value.asText) none
    <*> es.want (keyNames "array_property") (Value.asOptional Value.asText) none
    <*> es.want (keyNames "query_params") Value.asEntries []
    <*> es.want ["filters"] Value.asEntries []
    <*> es.want (keyNames "filter_code") (Value.asOptional Value.asText) none
    <*> es.want ["hidden"] Value.asBool false
    <*> es.want ["label"] (Value.asOptional LabelConfig.read) none

/-- Writes a trigger's configuration. -/
def toValue (form : NameForm) (c : TriggerConfig) : Value := .object [
  ("endpoint", .str c.endpoint), ("name", .optionalText c.name), ("title", .optionalText c.title),
  ("description", .optionalText c.description),
  (form.key "array_property", .optionalText c.arrayProperty),
  (form.key "query_params", .map c.queryParams), ("filters", .map c.filters),
  (form.key "filter_code", .optionalText c.filterCode), ("hidden", .bool c.hidden),
  ("label", .optional LabelConfig.toValue c.label)]

end TriggerConfig

/-! ## Authentication -/

/-- One bearer token for all operations. -/
structure AuthConfig where
  testEndpoint : String := "/me"
  authType : String := "custom"
  fieldKey : String := "access_token"
  fieldLabel : String := "API Key"
  fieldType : String := "password"
  helpText : String := "Enter your API key"
  helpLink : Option String := none
  connectionLabel : Entries := [(.str "type", .str "string"), (.str "value", .str "API Account")]
  deriving Repr

namespace AuthConfig

/-- Checks the authentication. -/
def read : Value → Checked AuthConfig := Value.asRecord fun es =>
  let usual : AuthConfig := {}
  AuthConfig.mk
    <$> es.want (keyNames "test_endpoint") Value.asText usual.testEndpoint
    <*> es.want (keyNames "auth_type") Value.asText usual.authType
    <*> es.want (keyNames "field_key") Value.asText usual.fieldKey
    <*> es.want (keyNames "field_label") Value.asText usual.fieldLabel
    <*> es.want (keyNames "field_type") Value.asText usual.fieldType
    <*> es.want (keyNames "help_text") Value.asText usual.helpText
    <*> es.want (keyNames "help_link") (Value.asOptional Value.asText) none
    <*> es.want (keyNames "connection_label") Value.asEntries usual.connectionLabel

/-- Writes the authentication. -/
def toValue (form : NameForm) (c : AuthConfig) : Value := .object [
  (form.key "test_endpoint", .str c.testEndpoint), (form.key "auth_type", .str c.authType),
  (form.key "field_key", .str c.fieldKey), (form.key "field_label", .str c.fieldLabel),
  (form.key "field_type", .str c.fieldType), (form.key "help_text", .str c.helpText),
  (form.key "help_link", .optionalText c.helpLink),
  (form.key "connection_label", .map c.connectionLabel)]

end AuthConfig

/-! ## Together -/

/-- The whole configuration; actions and triggers go by their keys. -/
structure GeneratorConfig where
  actions : List (String × ActionConfig) := []
  triggers : List (String × TriggerConfig) := []
  authentication : AuthConfig := {}
  deriving Repr

namespace GeneratorConfig

/-- The configuration of an action, an empty one if it has none. -/
def action (c : GeneratorConfig) (key : String) : ActionConfig :=
  (c.actions.lookup key).getD {}

/-- Checks the configuration. -/
def read : Value → Checked GeneratorConfig := Value.asRecord fun es =>
  GeneratorConfig.mk
    <$> es.want ["actions"] (Value.asMapping ActionConfig.read) []
    <*> es.want ["triggers"] (Value.asMapping TriggerConfig.read) []
    <*> es.want ["authentication"] AuthConfig.read {}

/-- Writes the configuration. -/
def toValue (form : NameForm) (c : GeneratorConfig) : Value := .object [
  ("actions", .named (ActionConfig.toValue form) c.actions),
  ("triggers", .named (TriggerConfig.toValue form) c.triggers),
  ("authentication", c.authentication.toValue form)]

end GeneratorConfig

end IntegrationCompiler
