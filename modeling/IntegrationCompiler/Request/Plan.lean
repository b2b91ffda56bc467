import IntegrationCompiler.Config.Basic

/-!
# Request plans

How a set of inputs becomes a request, as data: what fills the address, what goes into the query,
and how the body is put together.

Main definitions: `RequestPlan`, with `QueryPlan`, `BodyPlan`, `FlattenPlan` and `MergePlan`, and
`PreparedRequest`. Each has a `read`, which checks a value, and a `toValue`, which writes it.
-/

namespace IntegrationCompiler

/-- How an input is read before it is placed in a request. -/
inductive ValueKind where
  | string
  | number
  | boolean
  | date
  | array
  | object
  deriving DecidableEq, Repr

namespace ValueKind

/-- All kinds. -/
def all : List ValueKind := [.string, .number, .boolean, .date, .array, .object]

/-- The name of a kind. -/
def name : ValueKind → String
  | .string => "string"
  | .number => "number"
  | .boolean => "boolean"
  | .date => "date"
  | .array => "array"
  | .object => "object"

/-- The kind with the given name. -/
def ofName? (s : String) : Option ValueKind :=
  all.find? (·.name == s)

end ValueKind

/-- A property of the body. -/
structure PropertyPlan where
  name : String
  kind : ValueKind := .string
  /-- Whether the value comes from a dropdown: then a number of zero means that nothing is chosen. -/
  dynamic : Bool := false
  deriving DecidableEq, Repr

namespace PropertyPlan

/-- Checks a property. -/
def read : Value → Checked PropertyPlan := Value.asRecord fun es =>
  PropertyPlan.mk
    <$> es.need ["name"] Value.asText
    <*> es.want ["kind"] (Value.asOneOf ValueKind.ofName?) .string
    <*> es.want ["dynamic"] Value.asBool false

/-- Writes a property. -/
def toValue (p : PropertyPlan) : Value := .object [
  ("name", .str p.name), ("kind", .str p.kind.name), ("dynamic", .bool p.dynamic)]

end PropertyPlan

/-- The fields of an item are put back into a list of one item. -/
structure FlattenPlan where
  arrayField : String
  groupKey : Option String := none
  itemProperties : List PropertyPlan := []
  deriving DecidableEq, Repr

namespace FlattenPlan

/-- Checks a flattening. -/
def read : Value → Checked FlattenPlan := Value.asRecord fun es =>
  FlattenPlan.mk
    <$> es.need ["array_field"] Value.asText
    <*> es.want ["group_key"] (Value.asOptional Value.asText) none
    <*> es.want ["item_properties"] (Value.asList PropertyPlan.read) []

/-- Writes a flattening. -/
def toValue (p : FlattenPlan) : Value := .object [
  ("array_field", .str p.arrayField), ("group_key", .optionalText p.groupKey),
  ("item_properties", .list (p.itemProperties.map PropertyPlan.toValue))]

end FlattenPlan

/-- Extra inputs are merged into a property. -/
structure MergePlan where
  target : String
  helperKeys : List String
  targetIsArray : Bool := false
  /-- Whether the property is one of the item, not of the body. -/
  inItem : Bool := false
  /-- Whether the inputs stand in the group of the item. -/
  nested : Bool := false
  deriving DecidableEq, Repr

namespace MergePlan

/-- Checks a merge. -/
def read : Value → Checked MergePlan := Value.asRecord fun es =>
  MergePlan.mk
    <$> es.need ["target"] Value.asText
    <*> es.need ["helper_keys"] (Value.asList Value.asText)
    <*> es.want ["target_is_array"] Value.asBool false
    <*> es.want ["in_item"] Value.asBool false
    <*> es.want ["nested"] Value.asBool false

/-- Writes a merge. -/
def toValue (p : MergePlan) : Value := .object [
  ("target", .str p.target), ("helper_keys", .texts p.helperKeys),
  ("target_is_array", .bool p.targetIsArray), ("in_item", .bool p.inItem),
  ("nested", .bool p.nested)]

end MergePlan

/-- How inputs become a body. -/
structure BodyPlan where
  properties : List PropertyPlan := []
  flatten : Option FlattenPlan := none
  helperMerges : List MergePlan := []
  /-- Values for properties that get no input. -/
  defaults : Entries := []
  deriving Repr

namespace BodyPlan

/-- Checks a body. -/
def read : Value → Checked BodyPlan := Value.asRecord fun es =>
  BodyPlan.mk
    <$> es.want ["properties"] (Value.asList PropertyPlan.read) []
    <*> es.want ["flatten"] (Value.asOptional FlattenPlan.read) none
    <*> es.want ["helper_merges"] (Value.asList MergePlan.read) []
    <*> es.want ["defaults"] Value.asEntries []

/-- Writes a body. -/
def toValue (p : BodyPlan) : Value := .object [
  ("properties", .list (p.properties.map PropertyPlan.toValue)),
  ("flatten", .optional FlattenPlan.toValue p.flatten),
  ("helper_merges", .list (p.helperMerges.map MergePlan.toValue)),
  ("defaults", .map p.defaults)]

/-- The names of the properties. -/
def propertyNames (p : BodyPlan) : List String :=
  p.properties.map (·.name)

end BodyPlan

/-- A query parameter that the user supplies. -/
structure QueryParamPlan where
  name : String
  kind : ValueKind := .string
  deriving DecidableEq, Repr

namespace QueryParamPlan

/-- Checks a query parameter. -/
def read : Value → Checked QueryParamPlan := Value.asRecord fun es =>
  QueryParamPlan.mk
    <$> es.need ["name"] Value.asText
    <*> es.want ["kind"] (Value.asOneOf ValueKind.ofName?) .string

/-- Writes a query parameter. -/
def toValue (p : QueryParamPlan) : Value := .object [
  ("name", .str p.name), ("kind", .str p.kind.name)]

end QueryParamPlan

/-- The query: what the user supplies, and what is always sent. -/
structure QueryPlan where
  params : List QueryParamPlan := []
  fixed : Entries := []
  deriving Repr

namespace QueryPlan

/-- Checks a query. -/
def read : Value → Checked QueryPlan := Value.asRecord fun es =>
  QueryPlan.mk
    <$> es.want ["params"] (Value.asList QueryParamPlan.read) []
    <*> es.want ["fixed"] Value.asEntries []

/-- Writes a query. -/
def toValue (p : QueryPlan) : Value := .object [
  ("params", .list (p.params.map QueryParamPlan.toValue)), ("fixed", .map p.fixed)]

end QueryPlan

/-- How inputs become a request. -/
structure RequestPlan where
  method : Method
  urlTemplate : String
  pathParams : List String := []
  query : QueryPlan := {}
  body : Option BodyPlan := none
  authFieldKey : String := "access_token"
  deriving Repr

namespace RequestPlan

/-- Checks a request plan. -/
def read : Value → Checked RequestPlan := Value.asRecord fun es =>
  RequestPlan.mk
    <$> es.need ["method"] (Value.asOneOf Method.ofName?)
    <*> es.need ["url_template"] Value.asText
    <*> es.want ["path_params"] (Value.asList Value.asText) []
    <*> es.want ["query"] QueryPlan.read {}
    <*> es.want ["body"] (Value.asOptional BodyPlan.read) none
    <*> es.want ["auth_field_key"] Value.asText "access_token"

/-- Writes a request plan. -/
def toValue (p : RequestPlan) : Value := .object [
  ("method", .str p.method.name), ("url_template", .str p.urlTemplate),
  ("path_params", .texts p.pathParams), ("query", p.query.toValue),
  ("body", .optional BodyPlan.toValue p.body), ("auth_field_key", .str p.authFieldKey)]

end RequestPlan

/-- A request that is ready to be sent. -/
structure PreparedRequest where
  method : String
  url : String
  params : Entries := []
  jsonBody : Value := .null
  headers : List (String × String) := []
  deriving Repr

namespace PreparedRequest

/-- Checks a prepared request. -/
def read : Value → Checked PreparedRequest := Value.asRecord fun es =>
  PreparedRequest.mk
    <$> es.need ["method"] Value.asText
    <*> es.need ["url"] Value.asText
    <*> es.want ["params"] Value.asEntries []
    <*> es.want ["json_body"] Value.asAny .null
    <*> es.want ["headers"] (Value.asMapping Value.asText) []

/-- Writes a prepared request. -/
def toValue (r : PreparedRequest) : Value := .object [
  ("method", .str r.method), ("url", .str r.url), ("params", .map r.params),
  ("json_body", r.jsonBody), ("headers", .named Value.str r.headers)]

end PreparedRequest

end IntegrationCompiler
