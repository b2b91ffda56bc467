import IntegrationCompiler.Diagnostics.Issue

/-!
# Endpoints

What is known of an interface once its document is read: endpoints with resolved schemas.

Main definitions: `Endpoint`, with `Parameter`, `RequestBody` and `Response`, and `ApiDocument`. Each
has a `read`, which checks a value, and a `toValue`, which writes it.
-/

namespace IntegrationCompiler

/-- Which name of a field is written, where it has two. -/
inductive NameForm where
  | plain
  | alias
  deriving DecidableEq, Repr

/-- The methods that become operations. -/
inductive Method where
  | get
  | post
  | put
  | patch
  | delete
  deriving DecidableEq, Repr

namespace Method

/-- All methods. -/
def all : List Method := [.get, .post, .put, .patch, .delete]

/-- The name of a method. -/
def name : Method → String
  | .get => "get"
  | .post => "post"
  | .put => "put"
  | .patch => "patch"
  | .delete => "delete"

/-- The method with the given name. -/
def ofName? (s : String) : Option Method :=
  all.find? (·.name == s)

end Method

/-- Where a parameter goes. Others than these never become inputs. -/
inductive Location where
  | path
  | query
  deriving DecidableEq, Repr

namespace Location

/-- The name of a location. -/
def name : Location → String
  | .path => "path"
  | .query => "query"

/-- The location with the given name. -/
def ofName? (s : String) : Option Location :=
  [Location.path, .query].find? (·.name == s)

end Location

/-- The names a schema goes by, the preferred one first. -/
def schemaNames : List String := ["schema", "schema_"]

/-- The name under which a schema is written. -/
def NameForm.schema : NameForm → String
  | .plain => "schema_"
  | .alias => "schema"

/-- A mapping or null. -/
def Value.optionalEntries : Option Entries → Value
  | some es => .map es
  | none => .null

/-- A parameter in the path or the query. -/
structure Parameter where
  name : String
  location : Location
  required : Bool := false
  description : Option String := none
  schema : Option Entries := none
  examples : Entries := []
  deriving Repr

namespace Parameter

/-- Checks a parameter. -/
def read : Value → Checked Parameter := Value.asRecord fun es =>
  Parameter.mk
    <$> es.need ["name"] Value.asText
    <*> es.need ["location"] (Value.asOneOf Location.ofName?)
    <*> es.want ["required"] Value.asBool false
    <*> es.want ["description"] (Value.asOptional Value.asText) none
    <*> es.want schemaNames (Value.asOptional Value.asEntries) none
    <*> es.want ["examples"] Value.asEntries []

/-- Writes a parameter. -/
def toValue (form : NameForm) (p : Parameter) : Value := .object [
  ("name", .str p.name), ("location", .str p.location.name), ("required", .bool p.required),
  ("description", .optionalText p.description), (form.schema, .optionalEntries p.schema),
  ("examples", .map p.examples)]

end Parameter

/-- The body that an operation takes. -/
structure RequestBody where
  required : Bool := false
  description : Option String := none
  schema : Option Entries := none
  examples : Entries := []
  deriving Repr

namespace RequestBody

/-- Checks a request body. -/
def read : Value → Checked RequestBody := Value.asRecord fun es =>
  RequestBody.mk
    <$> es.want ["required"] Value.asBool false
    <*> es.want ["description"] (Value.asOptional Value.asText) none
    <*> es.want schemaNames (Value.asOptional Value.asEntries) none
    <*> es.want ["examples"] Value.asEntries []

/-- Writes a request body. -/
def toValue (form : NameForm) (b : RequestBody) : Value := .object [
  ("required", .bool b.required), ("description", .optionalText b.description),
  (form.schema, .optionalEntries b.schema), ("examples", .map b.examples)]

end RequestBody

/-- A declared response. -/
structure Response where
  statusCode : String
  description : Option String := none
  schema : Option Entries := none
  examples : Entries := []
  deriving Repr

namespace Response

/-- Checks a response. -/
def read : Value → Checked Response := Value.asRecord fun es =>
  Response.mk
    <$> es.need ["status_code"] Value.asText
    <*> es.want ["description"] (Value.asOptional Value.asText) none
    <*> es.want schemaNames (Value.asOptional Value.asEntries) none
    <*> es.want ["examples"] Value.asEntries []

/-- Writes a response. -/
def toValue (form : NameForm) (r : Response) : Value := .object [
  ("status_code", .str r.statusCode), ("description", .optionalText r.description),
  (form.schema, .optionalEntries r.schema), ("examples", .map r.examples)]

end Response

/-- A path with a method. -/
structure Endpoint where
  path : String
  method : Method
  operationId : Option String := none
  summary : String := ""
  description : String := ""
  tags : List String := []
  parameters : List Parameter := []
  requestBody : Option RequestBody := none
  responses : List (String × Response) := []
  deriving Repr

namespace Endpoint

/-- Checks an endpoint. -/
def read : Value → Checked Endpoint := Value.asRecord fun es =>
  Endpoint.mk
    <$> es.need ["path"] Value.asText
    <*> es.need ["method"] (Value.asOneOf Method.ofName?)
    <*> es.want ["operation_id"] (Value.asOptional Value.asText) none
    <*> es.want ["summary"] Value.asText ""
    <*> es.want ["description"] Value.asText ""
    <*> es.want ["tags"] (Value.asList Value.asText) []
    <*> es.want ["parameters"] (Value.asList Parameter.read) []
    <*> es.want ["request_body"] (Value.asOptional RequestBody.read) none
    <*> es.want ["responses"] (Value.asMapping Response.read) []

/-- Writes an endpoint. -/
def toValue (form : NameForm) (e : Endpoint) : Value := .object [
  ("path", .str e.path), ("method", .str e.method.name),
  ("operation_id", .optionalText e.operationId), ("summary", .str e.summary),
  ("description", .str e.description), ("tags", .texts e.tags),
  ("parameters", .list (e.parameters.map (Parameter.toValue form))),
  ("request_body", match e.requestBody with
    | some b => b.toValue form
    | none => .null),
  ("responses", .object (e.responses.map fun (code, r) => (code, r.toValue form)))]

/-- The parameters at a location. -/
def parametersAt (e : Endpoint) (location : Location) : List Parameter :=
  e.parameters.filter (·.location == location)

/-- The parameters in the path. -/
def pathParameters (e : Endpoint) : List Parameter :=
  e.parametersAt .path

/-- The parameters in the query. -/
def queryParameters (e : Endpoint) : List Parameter :=
  e.parametersAt .query

/-- The schema of the request body. -/
def bodySchema (e : Endpoint) : Option Entries :=
  e.requestBody.bind (·.schema)

end Endpoint

/-- A document, read and resolved. -/
structure ApiDocument where
  title : String := "Untitled API"
  version : String := ""
  openapiVersion : String := ""
  baseUrl : String := ""
  endpoints : List Endpoint := []
  /-- The resolved named schemas. -/
  schemas : Entries := []
  deriving Repr

namespace ApiDocument

/-- Checks a document. -/
def read : Value → Checked ApiDocument := Value.asRecord fun es =>
  ApiDocument.mk
    <$> es.want ["title"] Value.asText "Untitled API"
    <*> es.want ["version"] Value.asText ""
    <*> es.want ["openapi_version"] Value.asText ""
    <*> es.want ["base_url"] Value.asText ""
    <*> es.want ["endpoints"] (Value.asList Endpoint.read) []
    <*> es.want ["schemas"] Value.asEntries []

/-- Writes a document. -/
def toValue (form : NameForm) (d : ApiDocument) : Value := .object [
  ("title", .str d.title), ("version", .str d.version),
  ("openapi_version", .str d.openapiVersion), ("base_url", .str d.baseUrl),
  ("endpoints", .list (d.endpoints.map (Endpoint.toValue form))), ("schemas", .map d.schemas)]

/-- The first endpoint with the given path and method. -/
def endpoint? (d : ApiDocument) (path : String) (method : Method) : Option Endpoint :=
  d.endpoints.find? fun e => e.path == path && e.method == method

end ApiDocument

end IntegrationCompiler
