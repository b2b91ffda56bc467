import IntegrationCompiler.Diagnostics.Failure
import IntegrationCompiler.Endpoint.Basic
import IntegrationCompiler.Field.Basic
import IntegrationCompiler.Request.Plan

/-!
# Drafts of actions

An action starts as what its endpoint suggests, and its configuration changes it stage by stage.

Main definitions:

* `Draft` — the inputs, the request plan and the sample of an action on its way;
* `Scope` — what a stage may consult;
* `Scope.bind` — a dropdown, if the trigger that has to fill it exists.
-/

namespace IntegrationCompiler

/-- An action on its way through the stages. -/
structure Draft where
  fields : List Field
  request : RequestPlan
  sample : Value
  deriving Repr

/-- What the stages of one action may consult. -/
structure Scope where
  /-- The key of the action. -/
  key : String
  endpoint : Endpoint
  config : ActionConfig
  /-- The resolved named schemas of the document. -/
  schemas : Entries := []
  /-- The keys of the triggers that can fill a dropdown. -/
  dropdowns : List String := []
  deriving Repr

namespace Scope

/-- Stops because configuration and document disagree. -/
def fail {α : Type} (scope : Scope) (fault : GenerationFault) : Logged α :=
  throw (.generation scope.key fault)

/-- Warns about the action. -/
def warn (scope : Scope) (text : String) : Logged Unit :=
  Logged.remark .warning ("Action " ++ inQuotes scope.key ++ ": " ++ text)

/-- The names of all parameters. -/
def parameterNames (scope : Scope) : List String :=
  scope.endpoint.parameters.map (·.name)

/-- The names of the query parameters. -/
def queryNames (scope : Scope) : List String :=
  scope.endpoint.queryParameters.map (·.name)

/-- The schema of the body, null if there is none. -/
def bodySchema (scope : Scope) : Value :=
  .optionalEntries scope.endpoint.bodySchema

/-- How a list is flattened, if that is configured and enabled. -/
def flatten? (scope : Scope) : Option FlattenConfig :=
  scope.config.simplified?.bind (·.flattenArray)

/-- The schema of an item of the flattened list, null if there is none. -/
def itemSchema (scope : Scope) : Value :=
  match scope.flatten? with
  | some config => Entries.getOrNull scope.schemas config.itemSchema
  | none => .null

/-- The dropdown for a field. A trigger that is not there leaves the field without one. -/
def bind (scope : Scope) (fieldKey : String) (dropdown : DropdownConfig) :
    Logged (Option Binding) :=
  if scope.dropdowns.contains dropdown.sourceTrigger then
    pure (some ⟨dropdown.sourceTrigger, dropdown.valueField⟩)
  else do
    scope.warn ("field " ++ inQuotes fieldKey ++ " uses trigger " ++
      inQuotes dropdown.sourceTrigger ++ " for its dropdown, but no hidden trigger with that key " ++
      "exists; leaving it unbound")
    pure none

end Scope

end IntegrationCompiler
