import IntegrationCompiler.Diagnostics.Failure
import IntegrationCompiler.Schema.Basic

/-!
# Request plans of endpoints

The plan of an endpoint before anything is hidden or reshaped.

Main definitions: `propertyPlans`, `RequestPlan.ofEndpoint`.
-/

namespace IntegrationCompiler

/-- A plan for a property. -/
def propertyPlan (name : Scalar) (schema : Value) : Except Failure PropertyPlan := do
  let name ← ((Value.scalar name).asText.under (.key "name")).orFail
  .ok { name := name, kind := Schema.valueKind schema }

/-- A plan for each property of a schema. -/
def propertyPlans (schema : Value) : Except Failure (List PropertyPlan) :=
  (Schema.properties schema).mapM fun (name, property) => propertyPlan name property

/-- A plan for each of the named properties that a schema has. -/
def namedPropertyPlans (schema : Value) (names : List String) : List PropertyPlan :=
  names.filterMap fun name => (Entries.get? (Schema.properties schema) name).map fun property =>
    { name := name, kind := Schema.valueKind property }

/-- The plan of an endpoint: every query parameter that is not fixed is left to the user, and the
body takes every property of its schema. -/
def RequestPlan.ofEndpoint (e : Endpoint) (baseUrl authFieldKey : String) (fixed : Entries) :
    Except Failure RequestPlan := do
  let params := (e.queryParameters.filter fun p => !Entries.has fixed p.name).map fun p =>
    ({ name := p.name, kind := Schema.valueKind (.optionalEntries p.schema) } : QueryParamPlan)
  let body ← match e.requestBody with
    | none => .ok none
    | some b => do
      let properties ← propertyPlans (.optionalEntries b.schema)
      .ok (some { properties := properties : BodyPlan })
  .ok {
    method := e.method
    urlTemplate := baseUrl ++ e.path
    pathParams := e.pathParameters.map (·.name)
    query := ⟨params, fixed⟩
    body := body
    authFieldKey := authFieldKey }

end IntegrationCompiler
