import IntegrationCompiler.Draft.Stage
import IntegrationCompiler.Operation.Basic
import IntegrationCompiler.Response.OfEndpoint
import IntegrationCompiler.Response.Sample

/-!
# Operations of endpoints

The action that an endpoint becomes, and the trigger that polls it.

Main definitions:

* `Draft.ofEndpoint` — an action before its configuration is looked at;
* `Action.ofEndpoint`, `Trigger.ofEndpoint`;
* `truncate`, `triggerDescription` — the rules for descriptions.
-/

namespace IntegrationCompiler

/-! ## Texts -/

/-- The first text that is not empty. -/
def firstText (texts : List String) : String :=
  (texts.find? fun s => !s.isEmpty).getD ""

/-- How long a description may be. -/
def maxDescriptionLength : Nat := 1000

/-- A description cut to the length it may have, with dots where something is cut off. -/
def truncate (s : String) : String :=
  if maxDescriptionLength < s.length then
    String.ofList (s.toList.take (maxDescriptionLength - 3)) ++ "..."
  else s

/-- A title as a sentence. -/
def asSentence (title : String) : String :=
  let s := trimmed title
  if s.toList.getLast? == some '.' then s else s ++ "."

/-- The description of a visible trigger, which is its title. -/
def triggerDescription (key : String) (config : TriggerConfig) : Except Failure String :=
  let title := config.title.getD ""
  if title.isEmpty then .error (.generation key .titleMissing)
  else if triggerTitlePrefix.toList.isPrefixOf title.toList then .ok (truncate (asSentence title))
  else .error (.generation key (.titleMalformed title))

/-- The description of every hidden trigger. -/
def hiddenDescription : String := "Hidden trigger for dynamic dropdowns."

namespace Endpoint

/-- What an endpoint calls itself. -/
def ownLabel (e : Endpoint) : String :=
  firstText [e.summary, e.operationId.getD "", e.path]

/-- The key of the action of an endpoint. -/
def actionKey (e : Endpoint) : String :=
  firstText [e.operationId.getD "", pathToKey e.path]

/-- The noun of an endpoint. -/
def noun (e : Endpoint) : String :=
  nounOf e.operationId e.path

/-- The inputs of an endpoint: its parameters, and the properties of its body that do not share
their names with one. -/
def inputFields (e : Endpoint) : Except Failure (List Field) := do
  let parameters ← Field.ofParameters e.parameters []
  let properties ← Field.ofProperties (.optionalEntries e.bodySchema) (parameters.map (·.key))
  .ok (parameters ++ properties)

end Endpoint

/-! ## Actions -/

/-- What operations are compiled from, apart from their endpoint. -/
structure Surroundings where
  document : ApiDocument
  config : GeneratorConfig
  /-- The hidden triggers that can fill dropdowns, under their keys. -/
  hidden : List (String × Trigger) := []

namespace Surroundings

/-- The request plan of an endpoint before anything is hidden or reshaped. -/
def requestPlan (s : Surroundings) (e : Endpoint) (fixed : Entries) : Except Failure RequestPlan :=
  RequestPlan.ofEndpoint e s.document.baseUrl s.config.authentication.fieldKey fixed

/-- What the stages of an action may consult. -/
def scope (s : Surroundings) (e : Endpoint) (key : String) : Scope where
  key := key
  endpoint := e
  config := s.config.action key
  schemas := s.document.schemas
  dropdowns := s.hidden.map (·.1)

end Surroundings

/-- The sample of an action that never returns content. -/
def noContentSample : Entries := [(.str "success", .bool true), (.str "status", .int 204)]

/-- The label of an action, which its configuration may change. -/
def Endpoint.labelFor (e : Endpoint) (config : ActionConfig) : String :=
  firstText [(config.simplified?.bind (·.name)).getD "", e.ownLabel]

/-- The action of an endpoint under a key. -/
def Action.ofEndpoint (s : Surroundings) (e : Endpoint) (key : String) : Logged Action := do
  let scope := s.scope e key
  let label := e.labelFor scope.config
  let fields ← liftExcept e.inputFields
  let request ← liftExcept (s.requestPlan e [])
  let response ← ResponsePlan.ofEndpoint e e.noun scope.config.simplify
  let raw ← if e.isNoContent then pure .null else liftExcept (sampleOf e.successResponse?)
  let d ← Draft.refine scope ⟨fields, request, raw⟩
  let sample ← if e.isNoContent then pure noContentSample else liftExcept (actionSample d.sample)
  let head : Head := {
    key := key
    noun := e.noun
    displayLabel := titleCase label
    description := truncate (firstText [e.description, e.summary, label])
    operationId := e.operationId
    path := e.path
    inputFields := d.fields
    sample := sample
    request := d.request }
  pure ⟨head, response⟩

/-! ## Triggers -/

/-- The only input of a hidden trigger that has no other. -/
def placeholderField : Field where
  key := "id_placeholder"
  label := "ID Placeholder"
  type := some .string
  helpText := some "This is a placeholder field to satisfy Zapier validation (D009)."
  default := some "placeholder"

namespace TriggerConfig

/-- The description of a trigger. -/
def describe (config : TriggerConfig) (key : String) : Except Failure String :=
  if config.hidden then .ok hiddenDescription else triggerDescription key config

/-- How the items of a dropdown are labelled; only hidden triggers label their items. -/
def labelPlan? (config : TriggerConfig) : Option LabelPlan :=
  if config.hidden then do
    let label ← config.label
    let template ← label.template.filter fun s => !s.isEmpty
    some ⟨template, label.fallback⟩
  else none

/-- Which items a trigger keeps, if it does not keep all. -/
def filterPlan? (config : TriggerConfig) : Option FilterPlan :=
  if config.filters.isEmpty && (config.filterCode.getD "").isEmpty then none
  else some ⟨config.filters, config.filterCode⟩

end TriggerConfig

/-- The trigger that polls an endpoint. -/
def Trigger.ofEndpoint (s : Surroundings) (e : Endpoint) (key : String) (config : TriggerConfig) :
    Logged Trigger := do
  let description ← liftExcept (config.describe key)
  let fixed := config.queryParams
  let own ← liftExcept (Field.ofParameters e.parameters (Entries.names fixed))
  let fields := if config.hidden && own.isEmpty then [placeholderField] else own
  let request ← liftExcept (s.requestPlan e fixed)
  let extraction ← liftExcept (ArrayExtraction.ofEndpoint e config.arrayProperty)
  let pagination ← PaginationPlan.ofEndpoint? e extraction config.hidden fixed
  let raw ← liftExcept (sampleOf e.successResponse?)
  let sample ← liftExcept (triggerSample raw)
  let head : Head := {
    key := key
    noun := e.noun
    displayLabel := titleCase (firstText [config.name.getD "", e.ownLabel])
    description := description
    operationId := e.operationId
    path := e.path
    inputFields := fields
    sample := sample
    request := request }
  pure {
    head := head
    hidden := config.hidden
    extraction := extraction
    pagination := pagination
    label := config.labelPlan?
    filter := config.filterPlan?
    sortByIdDesc := !config.hidden }

end IntegrationCompiler
