import IntegrationCompiler.Proofs.Endpoint.Typed
import IntegrationCompiler.Proofs.Operation.Shape
import IntegrationCompiler.Proofs.Response.Samples

/-!
# Compilations end as planned

A compilation has two planned ways to fail: nothing has the path that was asked for, or configuration
and document disagree about an operation. On documents whose keywords have their types there is no
other, apart from three: a group with the name of a parameter, pages without end, and an integer that
is too long to be written where a text is made of it.

* `Endpoint.inputFields_typed`, `requestPlan_typed`, … — no part of an operation fails on typed
  schemas;
* `PlannedEnd` — the planned ways to end;
* `compile_ends_planned` — there are no others; `compile_ends_unplanned` — the three exceptions are
  there.
-/

namespace IntegrationCompiler

open Logged Value

/-! ## Parts of operations -/

section

variable {e : Endpoint} {failure : Failure} (h : e.Carries Typed TextKeys)

theorem Endpoint.Carries.bodySchema_typed {E : Value → Prop} (h : e.Carries Typed E) :
    (Value.optionalEntries e.bodySchema).Typed := by
  unfold Endpoint.bodySchema
  cases hBody : e.requestBody with
  | none => exact .null
  | some b => exact typed_optionalEntries (h.body b hBody)

theorem Endpoint.Carries.successSchema_typed {E : Value → Prop} (h : e.Carries Typed E)
    {es : Entries} (hSchema : e.successSchema? = some es) : (Value.map es).Typed := by
  obtain ⟨r, hResponse, hSome⟩ := Option.bind_eq_some_iff.mp hSchema
  obtain ⟨code, hMem⟩ := Endpoint.mem_of_successResponse? hResponse
  have hTyped := h.responses _ hMem
  dsimp only at hTyped
  rw [hSome] at hTyped
  exact hTyped

include h in
theorem Endpoint.inputFields_typed : e.inputFields ≠ .error failure := by
  intro hError
  rcases error_of_bind hError with hParameters | ⟨parameters, -, hError⟩
  · exact Field.ofParameters_typed h.parameters hParameters
  rcases error_of_bind hError with hProperties | ⟨properties, -, hError⟩
  · exact Field.ofProperties_typed h.bodySchema_typed hProperties
  · cases hError

include h in
theorem requestPlan_typed {s : Surroundings} {fixed : Entries} :
    s.requestPlan e fixed ≠ .error failure := by
  intro hError
  obtain ⟨b, hBody, ⟨name, property⟩, hMem, hPlan⟩ := error_of_requestPlan hError
  obtain ⟨⟨key, hKey⟩, -⟩ := (typed_optionalEntries (h.body b hBody)).property_of_mem hMem
  dsimp only at hKey hPlan
  subst hKey
  cases hPlan

/-- The property that holds the list has a name that is a text. -/
theorem Schema.arrayProperty?_typed {schema : Value} (hSchema : schema.Typed) {key : Scalar}
    (hKey : Schema.arrayProperty? schema = some key) : ∃ s, key = .str s := by
  unfold arrayProperty? at hKey
  split at hKey
  · cases hKey
  · rcases Option.or_eq_some_iff.mp hKey with hType | ⟨-, hName⟩
    · obtain ⟨p, hFound, rfl⟩ := Option.map_eq_some_iff.mp hType
      exact (hSchema.property_of_mem (List.mem_of_find?_eq_some hFound)).1
    · obtain ⟨name, -, rfl⟩ := Option.map_eq_some_iff.mp hName
      exact ⟨name, rfl⟩

include h in
theorem Endpoint.listUnnamed_typed : ¬ e.ListUnnamed failure := by
  rintro ⟨es, hSchema, k, hk, field, hError⟩
  obtain ⟨s, rfl⟩ := Schema.arrayProperty?_typed (h.successSchema_typed hSchema) hk
  cases hError

end

/-- A page has a size, unless the configured one is without end. -/
theorem pageSizeOf_ne_error {configured : Value} {failure : Failure}
    (h : toNumber? configured ≠ some (.float (.infinite false))) :
    pageSizeOf configured ≠ .error failure := by
  intro hError
  unfold pageSizeOf at hError
  split at hError
  · cases hError
  · next n hNumber =>
    split at hError
    · cases hError
    · next hPositive =>
      split at hError
      · cases hError
      · next x =>
        -- What is no number is turned away at reading, and minus infinity is not positive.
        cases x with
        | finite => cases hError
        | nan => simp [toNumber?] at hNumber
        | infinite negative =>
          cases negative with
          | false => exact h hNumber
          | true => exact hPositive rfl

/-! ## The planned ends -/

theorem GenerationFault.configKey_ne_empty (fault : GenerationFault) : fault.configKey ≠ "" := by
  cases fault <;> simp [configKey]

/-- The planned ways to end: with operations, because the path that was asked for is not there, or
because configuration and document disagree about an operation. Then the operation is named, and the
entry of the configuration that is at fault. -/
inductive PlannedEnd (document : ApiDocument) (config : GeneratorConfig)
    (onlyPath : Option String) : Except Failure (List Operation) → Prop where
  | operations (os : List Operation) : PlannedEnd document config onlyPath (.ok os)
  | pathUnknown {path : String} : onlyPath = some path →
    PlannedEnd document config onlyPath (.error (.usage (.endpointNotFound path)))
  | action {e : Endpoint} {fault : GenerationFault} : e ∈ document.endpoints →
    fault.configKey ≠ "" →
    PlannedEnd document config onlyPath (.error (.generation e.actionKey fault))
  | trigger {key : String} {c : TriggerConfig} {fault : GenerationFault} :
    (key, c) ∈ config.triggers → fault.configKey ≠ "" →
    PlannedEnd document config onlyPath (.error (.generation key fault))

section

variable {document : ApiDocument} {config : GeneratorConfig} {onlyPath : Option String}
  {failure : Failure}

/-- What a stage of an action stops at is a disagreement between configuration and document. -/
theorem Scope.Stops.fault_of_typed {s : Surroundings} {e : Endpoint} {key : String}
    (hEndpoint : e.Carries Typed TextKeys)
    (hSchemas : ∀ named ∈ s.document.schemas, named.2.Typed)
    (hDefaults : ∀ d ∈ (s.config.action key).fieldDefaults, d.2.HasJson)
    (h : (s.scope e key).Stops failure) : ∃ fault, failure = .generation key fault := by
  have hBody : (s.scope e key).bodySchema.Typed := hEndpoint.bodySchema_typed
  -- Only a fault is planned: typed schemas and defaults rule the other stops out.
  cases h with
  | fault fault => exact ⟨fault, rfl⟩
  | item hError =>
    have hItem : (s.scope e key).itemSchema.Typed := by
      unfold Scope.itemSchema
      split
      · next flatten _ =>
        rcases getOrNull_eq_null_or_mem s.document.schemas flatten.itemSchema with hNull | hMem
        · exact (show Entries.getOrNull (s.scope e key).schemas _ = .null from hNull) ▸ .null
        · exact hSchemas _ hMem
      · exact .null
    exact absurd hError (Field.ofProperties_typed hItem)
  | required hError => exact absurd hError (Field.requiredNames_typed hBody)
  | @kept _ name isRequired hError =>
    have hProperty :
        (Entries.getOrNull (Schema.properties (s.scope e key).bodySchema) name).Typed := by
      rcases getOrNull_eq_null_or_mem (Schema.properties (s.scope e key).bodySchema) name with
        hNull | hMem
      · exact hNull ▸ .null
      · exact (hBody.property_of_mem hMem).2
    obtain ⟨f, hf⟩ := Field.ofSchema_typed hProperty name isRequired (.inl rfl)
    exact nomatch hf.symm.trans hError
  | default hMem hError =>
    obtain ⟨text, hText⟩ := defaultText_of_hasJson (hDefaults _ hMem)
    exact nomatch hText.symm.trans hError

theorem Action.Stops.fault_of_typed {s : Surroundings} {e : Endpoint} {key : String}
    (hEndpoint : e.Carries Typed TextKeys)
    (hSchemas : ∀ named ∈ s.document.schemas, named.2.Typed)
    (hDefaults : ∀ d ∈ (s.config.action key).fieldDefaults, d.2.HasJson)
    (h : Action.Stops s e key failure) : ∃ fault, failure = .generation key fault := by
  cases h with
  | inputs hError => exact absurd hError (Endpoint.inputFields_typed hEndpoint)
  | request hError => exact absurd hError (requestPlan_typed hEndpoint)
  | response hFails =>
    exact absurd (ResponsePlan.ofEndpoint_fails hFails) (Endpoint.listUnnamed_typed hEndpoint)
  | payload hError =>
    obtain ⟨v, hv, -⟩ := sampleOf_typed hEndpoint
    exact nomatch hv.symm.trans hError
  | stages hStops => exact hStops.fault_of_typed hEndpoint hSchemas hDefaults
  | sample hRaw hRefined hError =>
    obtain ⟨v, hv, hKeys⟩ := sampleOf_typed hEndpoint
    cases hv.symm.trans hRaw
    exact absurd hError (actionSample_topKeys (Draft.refine_topKeys hKeys.top hRefined))

theorem TriggerConfig.describe_error {c : TriggerConfig} {key : String}
    (h : c.describe key = .error failure) : ∃ fault, failure = .generation key fault := by
  unfold describe triggerDescription at h
  split at h
  · cases h
  · dsimp only at h
    split at h
    · cases h
      exact ⟨_, rfl⟩
    · split at h
      · cases h
      · cases h
        exact ⟨_, rfl⟩

theorem Trigger.Stops.fault_of_typed {s : Surroundings} {e : Endpoint} {key : String}
    {c : TriggerConfig} (hEndpoint : e.Carries Typed TextKeys)
    (hLimit : c.hidden = false →
      toNumber? (Entries.getOrNull c.queryParams "limit") ≠ some (.float (.infinite false)))
    (h : Trigger.Stops s e key c failure) : ∃ fault, failure = .generation key fault := by
  cases h with
  | title hError => exact TriggerConfig.describe_error hError
  | inputs hError => exact absurd hError (Field.ofParameters_typed hEndpoint.parameters)
  | request hError => exact absurd hError (requestPlan_typed hEndpoint)
  | extraction hError =>
    have hUnnamed := ArrayExtraction.error_of_ofEndpoint hError
    exact absurd hUnnamed (Endpoint.listUnnamed_typed hEndpoint)
  | paging hShown hError => exact absurd hError (pageSizeOf_ne_error (hLimit hShown))
  | payload hError =>
    obtain ⟨v, hv, -⟩ := sampleOf_typed hEndpoint
    exact nomatch hv.symm.trans hError
  | sample hRaw hError =>
    obtain ⟨v, hv, hKeys⟩ := sampleOf_typed hEndpoint
    cases hv.symm.trans hRaw
    exact absurd hError (triggerSample_textKeys hKeys)

theorem selectEndpoints_error (h : selectEndpoints document onlyPath = .error failure) :
    ∃ path, onlyPath = some path ∧ failure = .usage (.endpointNotFound path) := by
  unfold selectEndpoints at h
  split at h
  · cases h
  · next path =>
    dsimp only at h
    split at h
    · cases h
      exact ⟨path, rfl, rfl⟩
    · cases h

/-- **A compilation ends as planned**, if the keywords of the raw document have their types, with
choices and defaults that can be written, the configured defaults can be written as JSON, no group
around the inputs of an item has the name of a parameter, and no visible trigger is given pages
without end. -/
theorem compile_ends_planned {raw : Entries} {openapiVersion : String} (hSource : TypedSource raw)
    (hExtract : (ApiDocument.extract raw openapiVersion).run.1 = .ok document)
    (hDefaults : ∀ e ∈ document.endpoints,
      ∀ d ∈ (config.action e.actionKey).fieldDefaults, d.2.HasJson)
    (hGroups : ∀ e ∈ document.endpoints, ∀ key ∈ (config.action e.actionKey).groupName?,
      key ∉ e.parameters.map (·.name))
    (hLimits : ∀ t ∈ config.triggers, t.2.hidden = false →
      toNumber? (Entries.getOrNull t.2.queryParams "limit") ≠ some (.float (.infinite false))) :
    PlannedEnd document config onlyPath (compile document config onlyPath).run.1 := by
  obtain ⟨hEndpoints, hSchemas⟩ := ApiDocument.extract_typed hSource hExtract
  -- A failure belongs to the selection, to one action or to one trigger.
  cases hEnd : (compile document config onlyPath).run.1 with
  | ok os => exact .operations os
  | error failure =>
    cases compile_fails (fails_of_run hEnd) with
    | select hSelect =>
      obtain ⟨path, hPath, rfl⟩ := selectEndpoints_error hSelect
      exact .pathUnknown hPath
    | @action e hidden he hFails =>
      have hApart : GroupsApart document config := hGroups
      have hStops := Action.ofEndpoint_fails (hApart.scope he) hFails
      obtain ⟨fault, rfl⟩ := hStops.fault_of_typed (hEndpoints e he) hSchemas (hDefaults e he)
      exact .action he fault.configKey_ne_empty
    | @trigger e key c hidden he hc hFails =>
      have hStops := Trigger.ofEndpoint_fails hFails
      obtain ⟨fault, rfl⟩ := hStops.fault_of_typed (hEndpoints e he) (hLimits (key, c) hc)
      exact .trigger hc fault.configKey_ne_empty

end

/-- Tasks that can be read page by page, and added as a list. -/
def taskPages : Entries :=
  [(.str "paths", .object [("/tasks", .object [
    ("get", .object [
      ("operationId", .str "list_tasks"),
      ("parameters", .list [
        .object [("name", .str "limit"), ("in", .str "query")],
        .object [("name", .str "offset"), ("in", .str "query")]]),
      ("responses", .object [("200", .object [("content", .object [("application/json", .object [
        ("schema", .object [("type", .str "object"), ("properties", .object [
          ("tasks", .object [("type", .str "array")])])])])])])])]),
    ("post", .object [
      ("operationId", .str "add_tasks"),
      ("parameters", .list [.object [("name", .str "task"), ("in", .str "query")]]),
      ("requestBody", .object [("content", .object [("application/json", .object [
        ("schema", .object [("type", .str "object"), ("properties", .object [
          ("tasks", .object [("type", .str "array")])])])])])])])])]),
   (.str "components", .object [("schemas", .object [("Task", .object [
     ("type", .str "object"), ("properties", .object [
       ("title", .object [("type", .str "string")]),
       ("users", .object [("type", .str "array")])])])])])]

theorem taskPages_typed : TypedSource taskPages := by
  refine .of_throughout ?_ ?_
  · simp (disch := decide) [taskPages, Value.object, Schema.typedEntry_of_name,
      Schema.typedEntry_properties_iff, List.forall_mem_cons, -Prod.forall, -List.mem_cons]
  · simp [taskPages, Value.object, List.forall_mem_cons, -Prod.forall, -List.mem_cons]

/-- A trigger that reads tasks in pages of a size. -/
def readBy (limit : Value) : TriggerConfig where
  endpoint := "/tasks"
  title := some "Triggers when a task is added."
  queryParams := [(.str "limit", limit)]

/-- A default for an input that is not there, and pages of fifty tasks. -/
def defaultOfDue : GeneratorConfig where
  actions := [("list_tasks", { fieldDefaults := [(.str "due", .str "today")] })]
  triggers := [("new_task", readBy (.int 50))]

theorem compile_ends_planned_defaultOfDue : ∃ document,
    (ApiDocument.extract taskPages "3.0.3").run.1 = .ok document ∧
    (compile document defaultOfDue none).run.1 =
      .error (.generation "list_tasks" (.defaultsUnknown ["due"])) ∧
    PlannedEnd document defaultOfDue none (compile document defaultOfDue none).run.1 := by
  obtain ⟨document, hExtract, hEnd, hDefaults, hGroups⟩ : ∃ document,
      (ApiDocument.extract taskPages "3.0.3").run.1 = .ok document ∧
      (compile document defaultOfDue none).run.1 =
        .error (.generation "list_tasks" (.defaultsUnknown ["due"])) ∧
      (∀ e ∈ document.endpoints,
        ∀ d ∈ (defaultOfDue.action e.actionKey).fieldDefaults, d.2.HasJson) ∧
      ∀ e ∈ document.endpoints, ∀ key ∈ (defaultOfDue.action e.actionKey).groupName?,
        key ∉ e.parameters.map (·.name) :=
    ⟨_, by with_unfolding_all rfl, by with_unfolding_all rfl, by with_unfolding_all decide,
      by with_unfolding_all decide⟩
  exact ⟨document, hExtract, hEnd,
    compile_ends_planned taskPages_typed hExtract hDefaults hGroups (by decide)⟩

/-- Pages without end. -/
def endlessPages : GeneratorConfig where
  triggers := [("new_task", readBy (.float (.infinite false)))]

/-- One task is added at a time, in a group with the name of a parameter. -/
def taskInGroup : GeneratorConfig where
  actions := [("add_tasks", {
    simplify := some {
      enabled := true
      flattenArray := some
        { arrayField := "tasks", itemSchema := "Task", publicName := some "Task" } }
    helperFields := [("user", { mapTo := "users" })] })]

/-- A parameter that has one integer to choose. -/
def onlyChoice (n : Int) : Entries :=
  [(.str "paths", .object [("/tasks", .object [("get", .object [
    ("operationId", .str "list_tasks"),
    ("parameters", .list [.object [("name", .str "count"), ("in", .str "query"),
      ("schema", .object [("type", .str "integer"), ("enum", .list [.int n])])]])])])])]

/-- Whether a result is the failure that nobody planned for. -/
def isMalformed {α : Type} : Except Failure α → Bool
  | .error .malformed => true
  | _ => false

theorem eq_malformed {α : Type} {x : Except Failure α} (h : isMalformed x = true) :
    x = .error .malformed := by
  unfold isMalformed at h
  split at h
  · rfl
  · cases h

/-- Neither pages without end nor a group with the name of a parameter is planned for, nor a choice
with too many digits. -/
theorem compile_ends_unplanned : (TypedSource taskPages ∧ ∃ document,
    (ApiDocument.extract taskPages "3.0.3").run.1 = .ok document ∧
    (compile document endlessPages none).run.1 = .error .malformed ∧
    (compile document taskInGroup none).run.1 =
      .error (.invalid [⟨[], .shape (.typedGroup "task")⟩]) ∧
    ¬ PlannedEnd document endlessPages none (compile document endlessPages none).run.1 ∧
    ¬ PlannedEnd document taskInGroup none (compile document taskInGroup none).run.1) ∧
    ∃ document, (ApiDocument.extract (onlyChoice (10 ^ Number.maxIntegerDigits)) "3.0.3").run.1 =
        .ok document ∧
      (compile document {} none).run.1 = .error .malformed ∧
      ¬ PlannedEnd document {} none (compile document {} none).run.1 := by
  obtain ⟨document, hExtract, hPages, hGroup⟩ : ∃ document,
      (ApiDocument.extract taskPages "3.0.3").run.1 = .ok document ∧
      (compile document endlessPages none).run.1 = .error .malformed ∧
      (compile document taskInGroup none).run.1 =
        .error (.invalid [⟨[], .shape (.typedGroup "task")⟩]) :=
    ⟨_, by with_unfolding_all rfl, by with_unfolding_all rfl, by with_unfolding_all rfl⟩
  obtain ⟨choices, hChoices, hTest⟩ : ∃ choices,
      (ApiDocument.extract (onlyChoice (10 ^ Number.maxIntegerDigits)) "3.0.3").run.1 =
        .ok choices ∧ isMalformed (compile choices {} none).run.1 = true :=
    ⟨_, by with_unfolding_all rfl, by decide +kernel⟩
  have hLong := eq_malformed hTest
  refine ⟨⟨taskPages_typed, document, hExtract, hPages, hGroup, ?_, ?_⟩, choices, hChoices, hLong, ?_⟩
  · rw [hPages]
    exact nofun
  · rw [hGroup]
    exact nofun
  · rw [hLong]
    exact nofun

end IntegrationCompiler
