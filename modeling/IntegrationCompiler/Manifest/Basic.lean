import IntegrationCompiler.Config.Basic
import IntegrationCompiler.Diagnostics.Failure
import IntegrationCompiler.Endpoint.Basic
import IntegrationCompiler.Files.Path
import IntegrationCompiler.Json.Printer
import IntegrationCompiler.Operation.Basic
import IntegrationCompiler.Value.JsonForm

/-!
# Integrations

What a compilation makes of a document, and the JSON texts in which it is kept.

Main definitions:

* `Integration` — the operations, with the document and the authentication that they belong to;
* `Operation.jsonText`, `Operation.path` — the text that keeps an operation, and its place;
* `Integration.authenticationText`, `Integration.indexText` — what is kept once for all operations.
-/

namespace IntegrationCompiler

/-- All that is kept of a compilation. -/
structure Integration where
  document : ApiDocument
  operations : List Operation
  authentication : AuthConfig
  version : String
  /-- Where the document was loaded from. -/
  source : String := ""
  deriving Repr

/-- The text of a JSON file: indented, and ended by a line feed. -/
def jsonFileText (v : Value) : Except Failure String := do
  let form ← orMalformed v.jsonForm?
  let text ← orMalformed (Json.render? .pretty form)
  .ok (text ++ "\n")

namespace Operation

/-- The text that keeps an operation. -/
def jsonText (o : Operation) : Except Failure String :=
  jsonFileText o.toValue

/-- The path of the file that keeps an operation, seen from the directory of the integration. -/
def path (o : Operation) : Path :=
  (Path.ofText o.kind.directory).child (o.key ++ ".json")

end Operation

namespace Integration

/-- The actions among the operations. -/
def actions (i : Integration) : List Action :=
  i.operations.filterMap Operation.action?

/-- The triggers among the operations. -/
def triggers (i : Integration) : List Trigger :=
  i.operations.filterMap Operation.trigger?

/-- The text that keeps the authentication, with the full address of its test endpoint. -/
def authenticationText (i : Integration) : Except Failure String :=
  let fields := ((i.authentication.toValue .alias).entries?).getD []
  let url := i.document.baseUrl ++ i.authentication.testEndpoint
  jsonFileText (.map (fields ++ [(.str "testUrl", .str url)]))

/-- The text that lists all operations by their keys. -/
def indexText (i : Integration) : Except Failure String :=
  jsonFileText (.object [
    ("title", .str i.document.title), ("version", .str i.version),
    ("baseUrl", .str i.document.baseUrl),
    ("actions", .texts (i.actions.map (·.head.key))),
    ("triggers", .texts (i.triggers.map (·.head.key)))])

end Integration

end IntegrationCompiler
