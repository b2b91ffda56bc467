import IntegrationCompiler.Endpoint.Basic
import IntegrationCompiler.Reference.Resolver

/-!
# Reading endpoints

From a raw document to its endpoints. Parameters of a path are defaults for those of its
operations, only JSON bodies count, and every schema is resolved by one resolver.

Main definitions:

* `mergeParameters` — the parameters of a path overridden by those of an operation;
* `endpoints` — all endpoints, in the order of the document;
* `ApiDocument.extract` — the whole document.
-/

namespace IntegrationCompiler

namespace Extract

/-- The value at a key, and a usual one where it does not count as present. -/
def presentOr (entries : Entries) (key : String) (usual : Value) : Value :=
  ((Entries.getOrNull entries key).present?).getD usual

/-- The entries at a key; none where the value does not count as present. -/
def entriesAt (entries : Entries) (key : String) : Resolving Entries :=
  match (Entries.getOrNull entries key).present? with
  | none => pure []
  | some (.map es) => pure es
  | some _ => throw .malformed

/-- A checked record built from values. -/
def build {α : Type} (read : Value → Checked α) (fields : List (String × Value)) : Resolving α :=
  (read (.object fields)).orFail

/-! ## Parameters -/

/-- Name and location of a raw parameter, both of which have to be scalars. -/
def identity (parameter : Entries) : Resolving (Scalar × Scalar) := do
  let part (key : String) : Resolving Scalar :=
    match (Entries.get? parameter key).getD (.str "") with
    | .scalar s => pure s
    | _ => throw .malformed
  let name ← part "name"
  let location ← part "in"
  pure (name, location)

/-- The mappings among values. -/
def mappings (vs : List Value) : List Entries :=
  vs.filterMap Value.entries?

/-- The parameters of a path that no parameter of the operation overrides, and then those of the
operation. Broken references are left out. -/
def mergeParameters (ofPath ofOperation : List Value) : Resolving (List Entries) := do
  let own := mappings ofOperation
  let overridden ← own.mapM identity
  let kept ← (mappings ofPath).filterM fun p => do
    let (name, location) ← identity p
    pure !(overridden.any fun (n, l) => n.same name && l.same location)
  pure (kept ++ own)

/-- The location of a raw parameter, if it becomes an input. -/
def location? (parameter : Entries) : Option Location :=
  match (Entries.get? parameter "in").getD (.str "query") with
  | .str s => Location.ofName? s
  | _ => none

/-- The examples of a raw parameter; a single one goes by the name `default`. -/
def parameterExamples (parameter : Entries) : Resolving Entries := do
  let examples ← match (Entries.getOrNull parameter "examples").present? with
    | none => pure []
    | some v => orMalformed (pairs? v)
  let examples := Entries.update [] examples
  match Entries.get? parameter "example" with
  | some v => pure (if examples.isEmpty then [(.str "default", v)] else examples)
  | none => pure examples

/-- A parameter in the path or the query; one in the path is always required. -/
def parameter? (document : Value) (raw : Entries) : Resolving (Option Parameter) := do
  match location? raw with
  | none => pure none
  | some location =>
    let examples ← parameterExamples raw
    let required := location == .path || (Entries.getOrNull raw "required").truthy
    let schema ← Resolver.resolve document (Entries.getOrNull raw "schema")
    some <$> build Parameter.read [
      ("name", (Entries.get? raw "name").getD (.str "")), ("location", .str location.name),
      ("required", .bool required), ("description", Entries.getOrNull raw "description"),
      ("schema", schemaValue schema), ("examples", .map examples)]

/-! ## Bodies and responses -/

/-- The JSON media type of some content. -/
def jsonMedia? (content : Value) : Option Entries := do
  let es ← content.entries?
  (Entries.getOrNull es "application/json").entries?

/-- The examples of a media type; a single one goes by the name `default`. -/
def mediaExamples (document : Value) (media : Entries) : Resolving Entries := do
  let named ← entriesAt media "examples"
  let examples ← named.mapM fun (name, v) => return (name, ← Resolver.deref document v)
  match Entries.get? media "example" with
  | some v =>
    pure (if examples.isEmpty then [(.str "default", .object [("value", v)])] else examples)
  | none => pure examples

/-- The JSON body of an operation. -/
def requestBody? (document raw : Value) : Resolving (Option RequestBody) := do
  match ← Resolver.deref document raw with
  | .map body =>
    match jsonMedia? (Entries.getOrNull body "content") with
    | none => pure none
    | some media =>
      let schema ← Resolver.resolve document (Entries.getOrNull media "schema")
      let examples ← mediaExamples document media
      some <$> build RequestBody.read [
        ("required", .bool (Entries.getOrNull body "required").truthy),
        ("description", Entries.getOrNull body "description"),
        ("schema", schemaValue schema), ("examples", .map examples)]
  | _ => pure none

/-- A declared response; one without JSON content has no schema and no examples. -/
def response? (document : Value) (code : Scalar) (raw : Value) : Resolving (Option Response) := do
  match ← Resolver.deref document raw with
  | .map response =>
    let code ← orMalformed code.text?
    let media := (jsonMedia? (Entries.getOrNull response "content")).getD []
    let schema ← if media.isEmpty then pure none
      else Resolver.resolve document (Entries.getOrNull media "schema")
    let examples ← if media.isEmpty then pure [] else mediaExamples document media
    some <$> build Response.read [
      ("status_code", .str code), ("description", Entries.getOrNull response "description"),
      ("schema", schemaValue schema), ("examples", .map examples)]
  | _ => pure none

/-- A list of named things with one more; a name that is there keeps its place. -/
def putNamed {α : Type} (name : String) (a : α) : List (String × α) → List (String × α)
  | [] => [(name, a)]
  | (n, b) :: rest => if n = name then (n, a) :: rest else (n, b) :: putNamed name a rest

/-- The declared responses under their status codes. -/
def responses (document : Value) (raw : Entries) : Resolving (List (String × Response)) :=
  raw.foldlM (fun acc (code, v) => do
    match ← response? document code v with
    | some r => pure (putNamed code.text r acc)
    | none => pure acc) []

/-! ## Endpoints -/

/-- The endpoint of an operation. -/
def endpoint (document : Value) (path : Scalar) (method : Method) (shared : List Value)
    (operation : Entries) : Resolving Endpoint := do
  let ofPath ← shared.mapM (Resolver.deref document)
  let own ← itemsAt operation "parameters"
  let ofOperation ← own.mapM (Resolver.deref document)
  let merged ← mergeParameters ofPath ofOperation
  let summary := presentOr operation "summary" (.str "")
  let parameters ← merged.filterMapM (parameter? document)
  let body ← requestBody? document (Entries.getOrNull operation "requestBody")
  let declared ← entriesAt operation "responses"
  let responses ← responses document declared
  let field {α : Type} (name : String) (c : Checked α) : Checked α := c.under (.key name)
  Checked.orFail (
    Endpoint.mk
      <$> field "path" (Value.scalar path).asText
      <*> pure method
      <*> field "operation_id" ((Entries.getOrNull operation "operationId").asOptional Value.asText)
      <*> field "summary" summary.asText
      <*> field "description" (presentOr operation "description" summary).asText
      <*> field "tags" ((presentOr operation "tags" (.list [])).asList Value.asText)
      <*> pure parameters
      <*> pure body
      <*> pure responses)

/-- The endpoints of a path. -/
def pathEndpoints (document : Value) (path : Scalar) (raw : Value) : Resolving (List Endpoint) := do
  match ← Resolver.deref document raw with
  | .map item =>
    let operations := item.filterMap fun (key, v) => do
      let .str name := key | none
      let method ← Method.ofName? name
      let operation ← v.entries?
      some (method, operation)
    operations.mapM fun (method, operation) => do
      -- Shared parameters are followed for each operation, and broken ones remarked each time.
      let shared ← itemsAt item "parameters"
      endpoint document path method shared operation
  | _ => pure []

/-- All endpoints, in the order of the document. -/
def endpoints (document : Entries) : Resolving (List Endpoint) := do
  let paths ← entriesAt document "paths"
  let found ← paths.mapM fun (path, item) => pathEndpoints (.map document) path item
  let all := found.flatten
  Resolving.remark .debug ("Extracted " ++ intText all.length ++ " endpoints")
  pure all

/-- The address of the first server; empty if none is declared. -/
def baseUrl (document : Entries) : Resolving String := do
  let servers := Entries.getOrNull document "servers"
  if !servers.truthy then pure ""
  else
    let first ← orMalformed servers.first?
    match first with
    | .map server => orMalformed (presentOr server "url" (.str "")).text?
    | _ => pure ""

/-- The title that is given to a document without one. -/
def untitled : String := "Untitled API"

/-- Title, version, base address, endpoints and named schemas of a document. -/
def document (raw : Entries) (openapiVersion : String) : Resolving ApiDocument := do
  let info ← entriesAt raw "info"
  let version ← orMalformed (presentOr info "version" (.str "")).text?
  let base ← baseUrl raw
  let found ← endpoints raw
  let schemas ← Resolver.componentSchemas raw
  let title ← Checked.orFail ((presentOr info "title" (.str untitled)).asText.under (.key "title"))
  pure {
    title := title
    version := version
    openapiVersion := openapiVersion
    baseUrl := base
    endpoints := found
    schemas := schemas }

end Extract

/-- The document that raw entries describe. -/
def ApiDocument.extract (raw : Entries) (openapiVersion : String) : Logged ApiDocument :=
  (Extract.document raw openapiVersion).toLogged

end IntegrationCompiler
