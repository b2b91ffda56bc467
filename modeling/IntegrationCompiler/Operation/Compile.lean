import IntegrationCompiler.Operation.OfEndpoint

/-!
# Compiling a document

All operations of a document. Hidden triggers are built first, so that dropdowns can refer to them
wherever they stand. Then the endpoints are passed in the order of the document: each yields its
action and, if it can be polled, the triggers configured for its path. Hidden triggers that no
endpoint yielded come last.

Main definitions:

* `Surroundings.hiddenTriggers` — the hidden triggers of a configuration;
* `Progress` — the operations emitted so far; no key is emitted twice for one kind;
* `compile` — the operations of a document.
-/

namespace IntegrationCompiler

/-! ## Emitting -/

/-- The operations emitted so far, in order, and the keys that they took. -/
structure Progress where
  claimed : List (OperationKind × String) := []
  operations : List Operation := []

/-- Emits an operation unless its key is taken. -/
def Progress.emit (p : Progress) (kind : OperationKind) (key : String)
    (build : Logged Operation) : Logged Progress :=
  if p.claimed.contains (kind, key) then pure p
  else do
    let o ← build
    pure ⟨(kind, key) :: p.claimed, p.operations ++ [o]⟩

namespace Surroundings

/-- The hidden triggers of the configuration whose endpoint exists. -/
def hiddenTriggers (s : Surroundings) : Logged (List (String × Trigger)) :=
  s.config.triggers.filterMapM fun (key, config) => do
    if !config.hidden then pure none
    else
      match s.document.endpoint? config.endpoint .get with
      | none => pure none
      | some e => do
        let t ← Trigger.ofEndpoint s e key config
        pure (some (key, t))

/-- Emits the action of an endpoint. -/
def emitAction (s : Surroundings) (e : Endpoint) (p : Progress) : Logged Progress := do
  let key := e.actionKey
  if p.claimed.contains (.action, key) then
    Logged.remark .debug ("Duplicate action key " ++ key ++ " skipped")
  p.emit .action key (Operation.action <$> Action.ofEndpoint s e key)

/-- A trigger: a hidden one is there already, a visible one is built. -/
def triggerFor (s : Surroundings) (e : Endpoint) (key : String) (config : TriggerConfig) :
    Logged Operation := do
  match if config.hidden then s.hidden.lookup key else none with
  | some t => pure (.trigger t)
  | none => Operation.trigger <$> Trigger.ofEndpoint s e key config

/-- Emits the triggers configured for the path of an endpoint. -/
def emitTriggers (s : Surroundings) (e : Endpoint) (p : Progress) : Logged Progress :=
  (s.config.triggers.filter fun (_, config) => config.endpoint == e.path).foldlM
    (fun p (key, config) => p.emit .trigger key (s.triggerFor e key config)) p

/-- Emits what an endpoint yields: nothing if its action is omitted. -/
def emitEndpoint (s : Surroundings) (p : Progress) (e : Endpoint) : Logged Progress := do
  if (s.config.action e.actionKey).isOmitted then
    Logged.remark .info ("Skipping omitted action: " ++ e.actionKey)
    pure p
  else
    let p ← s.emitAction e p
    if e.method = .get then s.emitTriggers e p else pure p

/-- Emits the hidden triggers that no endpoint yielded. -/
def emitHidden (s : Surroundings) (p : Progress) : Logged Progress :=
  s.hidden.foldlM (fun p (key, t) => p.emit .trigger key (pure (.trigger t))) p

/-- Warns about triggers whose path cannot be polled. -/
def warnUnreachable (s : Surroundings) : Logged Unit := do
  let paths := (s.document.endpoints.filter (·.method == .get)).map (·.path)
  for (key, config) in s.config.triggers do
    unless paths.contains config.endpoint do
      Logged.remark .warning ("Trigger " ++ inQuotes key ++ " targets " ++ config.endpoint ++
        ", which is not a GET endpoint of the schema; skipped")

end Surroundings

/-- The endpoints that are compiled: all, or those with one path, of which there has to be one. -/
def selectEndpoints (document : ApiDocument) (onlyPath : Option String) :
    Except Failure (List Endpoint) :=
  match onlyPath with
  | none => .ok document.endpoints
  | some path =>
    let selected := document.endpoints.filter (·.path == path)
    if selected.isEmpty then .error (.usage (.endpointNotFound path)) else .ok selected

/-- The operations of a document. With a path, only its endpoints yield actions and visible triggers;
hidden triggers are always there. -/
def compile (document : ApiDocument) (config : GeneratorConfig) (onlyPath : Option String) :
    Logged (List Operation) := do
  let bare : Surroundings := { document := document, config := config }
  let hidden ← bare.hiddenTriggers
  let s := { bare with hidden := hidden }
  let endpoints ← liftExcept (selectEndpoints document onlyPath)
  let p ← endpoints.foldlM s.emitEndpoint {}
  let p ← s.emitHidden p
  s.warnUnreachable
  Logged.remark .debug ("Compiled " ++ intText p.operations.length ++ " operations")
  pure p.operations

end IntegrationCompiler
