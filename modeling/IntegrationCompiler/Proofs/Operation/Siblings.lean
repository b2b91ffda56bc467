import IntegrationCompiler.Proofs.Draft.Siblings
import IntegrationCompiler.Proofs.Operation.Coverage
import IntegrationCompiler.Proofs.Operation.Failures

/-!
# Inputs with the same key

Whoever fills in the inputs of an action tells them apart by their keys. Parameters, properties, the
properties of an item and helpers may all have the same names; in the end no key is there twice, with
one exception.

* `only_groups_repeat_keys` — the key of the group is repeated if a parameter has it, and no other;
* `group_repeats_parameter` — such a group is made without any complaint.
-/

namespace IntegrationCompiler

open Logged

section

variable {document : ApiDocument} {config : GeneratorConfig} {onlyPath : Option String}
  {operations : List Operation} {e : Endpoint}

/-- The schema of an item is one of the named schemas, or there is none. -/
theorem Scope.itemSchema_cases (scope : Scope) :
    scope.itemSchema = .null ∨ ∃ name, (name, scope.itemSchema) ∈ scope.schemas := by
  unfold itemSchema
  cases scope.flatten? with
  | none => exact Or.inl rfl
  | some flatten =>
    dsimp only
    unfold Entries.getOrNull
    cases hFound : Entries.get? scope.schemas flatten.itemSchema with
    | none => exact Or.inl rfl
    | some schema => exact Or.inr ⟨_, Entries.get?_eq_some_mem hFound⟩

/-- The keys of an action that was built for an endpoint. -/
theorem apart_of_isBuiltFor {a : Action} (hBuilt : a.IsBuiltFor document config e)
    (hParameters : (e.parameters.map (·.name)).Nodup) (hBody : e.bodyNames.Nodup)
    (hSchemas : ∀ s ∈ document.schemas, (Entries.names (Schema.properties s.2)).Nodup) :
    ∃ d : Draft, d.fields = a.head.inputFields ∧ d.request = a.head.request ∧ d.Apart := by
  obtain ⟨hidden, hReturns⟩ := hBuilt
  obtain ⟨fields, request, raw, d, hFields, hRequest, hd, -, -, hInputs, hPlan⟩ :=
    Action.ofEndpoint_returns hReturns
  have hNamed := Endpoint.inputFields_ok hFields
  have hReady : Draft.Ready (Surroundings.scope ⟨document, config, hidden⟩ e e.actionKey) 0
      ⟨fields, request, raw⟩ := Endpoint.ready raw hFields hRequest
  have hLevel : Draft.Level (Surroundings.scope ⟨document, config, hidden⟩ e e.actionKey)
      ⟨fields, request, raw⟩ :=
    level_of_endpoint (Endpoint.path_query_apart hParameters) hFields hRequest
  have hShapes : ∀ f ∈ fields, f.WellShaped :=
    fun f hf => (Field.throughout_iff_forall.mp hReady.shapes f hf).1
  -- a property with the name of a parameter has no field of its own
  have hKeys : (fields.map (·.key)).Nodup := by
    rw [hNamed.keys_eq, List.nodup_append']
    refine ⟨hParameters, hBody.filter _, ?_⟩
    intro name hParameter hProperty
    have hOther := (List.mem_filter.mp hProperty).2
    rw [List.contains_iff_mem.mpr hParameter] at hOther
    cases hOther
  refine ⟨d, hInputs.symm, hPlan.symm, Draft.refine_apart hLevel hShapes hKeys ?_ hd⟩
  rcases Scope.itemSchema_cases
    (Surroundings.scope ⟨document, config, hidden⟩ e e.actionKey) with hNull | ⟨name, hMem⟩
  · rw [hNull]
    exact List.nodup_nil
  · exact hSchemas _ hMem

/-- **Only groups repeat keys.** If the parameters of the endpoint have different names, no two
children of an input of its action have the same key, at any depth. Nor have two inputs, with one
exception: the key of the group around the inputs of an item is repeated exactly if a parameter that
the request asks for has it. The schemas of the body and of items are mappings, so the names of their
properties are all different. -/
theorem only_groups_repeat_keys
    (h : (compile document config onlyPath).run.1 = .ok operations)
    (hSchemas : ∀ s ∈ document.schemas, (Entries.names (Schema.properties s.2)).Nodup) :
    ∀ a, .action a ∈ operations →
      (∃ e ∈ document.endpoints, a.IsBuiltFor document config e) ∧
      ∀ e, a.IsBuiltFor document config e → (e.parameters.map (·.name)).Nodup →
        e.bodyNames.Nodup →
        (∀ keys ∈ Field.childKeys a.head.inputFields, keys.Nodup) ∧
        (∀ name, List.Duplicate name (a.head.inputFields.map (·.key)) ↔
          a.head.request.groupKey? = some name ∧ name ∈ a.head.request.parameterNames) ∧
        ((a.head.inputFields.map (·.key)).Nodup ↔
          ∀ name ∈ a.head.request.groupKey?, name ∉ a.head.request.parameterNames) := by
  obtain ⟨hidden, selected, hCompiles⟩ := compile_returns (returns_of_run h)
  intro a ha
  constructor
  · obtain ⟨e, he, hBuilt⟩ := hCompiles.endpoint_of_action ha
    exact ⟨e, selectEndpoints_subset hCompiles.selected_eq e he, hidden, hBuilt⟩
  intro e hBuilt hParameters hBody
  obtain ⟨d, hInputs, hPlan, hUnder, hRepeated⟩ :=
    apart_of_isBuiltFor hBuilt hParameters hBody hSchemas
  rw [hInputs] at hUnder hRepeated
  rw [hPlan] at hRepeated
  refine ⟨hUnder, hRepeated, ?_⟩
  rw [List.nodup_iff_forall_not_duplicate]
  refine forall_congr' fun name => ?_
  rw [hRepeated, not_and]
  rfl

end

/-- The group of a task has a key of its own, so all keys differ. -/
theorem only_groups_repeat_keys_tasksOfProject : ∃ operations a,
    (compile tasksOfProject oneTaskAtATime none).run.1 = .ok operations ∧
    .action a ∈ operations ∧ a.head.request.groupKey? = some "task" ∧
    a.head.request.parameterNames = ["project", "notify"] ∧
    (a.head.inputFields.map (·.key)).Nodup ∧
    ∀ keys ∈ Field.childKeys a.head.inputFields, keys.Nodup := by
  obtain ⟨operations, a, h, ha, hGroup, hParameters⟩ : ∃ operations a,
      (compile tasksOfProject oneTaskAtATime none).run.1 = .ok operations ∧
      .action a ∈ operations ∧ a.head.request.groupKey? = some "task" ∧
      a.head.request.parameterNames = ["project", "notify"] :=
    ⟨_, _, by with_unfolding_all rfl, List.mem_cons_self, by with_unfolding_all rfl,
      by with_unfolding_all rfl⟩
  have hSchemas : ∀ s ∈ tasksOfProject.schemas,
      (Entries.names (Schema.properties s.2)).Nodup := by decide
  obtain ⟨⟨e, he, hBuilt⟩, hApart⟩ := only_groups_repeat_keys h hSchemas a ha
  cases List.mem_singleton.mp he
  obtain ⟨hUnder, -, hInputs⟩ := hApart _ hBuilt (by decide) (by decide)
  refine ⟨operations, a, h, ha, hGroup, hParameters, hInputs.mpr ?_, hUnder⟩
  rw [hGroup, hParameters]
  rintro name ⟨⟩
  decide

/-- Tasks are added for a task that they depend on. -/
def tasksAfterTask : ApiDocument where
  endpoints := [{
    path := "/tasks", method := .post, operationId := some "add_tasks"
    parameters := [{ name := "task", location := .query }]
    requestBody := some { schema := some [(.str "properties", .object [
      ("tasks", .object [("type", .str "array")])])] } }]
  schemas := [(.str "Task", .object [("properties", .object [
    ("title", .object [("type", .str "string")])])])]

/-- One task is added at a time. -/
def oneTask : GeneratorConfig where
  actions := [("add_tasks", {
    simplify := some {
      enabled := true
      flattenArray := some
        { arrayField := "tasks", itemSchema := "Task", publicName := some "Task" } } })]

/-- **A group may repeat the key of a parameter.** The task that is added and the one it depends on
are two inputs with one key. -/
theorem group_repeats_parameter :
    ¬ ∀ (document : ApiDocument) (config : GeneratorConfig) (onlyPath : Option String)
        (operations : List Operation),
      (compile document config onlyPath).run.1 = .ok operations →
      (∀ e ∈ document.endpoints, (e.parameters.map (·.name)).Nodup ∧ e.bodyNames.Nodup) →
      (∀ s ∈ document.schemas, (Entries.names (Schema.properties s.2)).Nodup) →
      ∀ a, .action a ∈ operations → (a.head.inputFields.map (·.key)).Nodup := by
  intro hAlways
  obtain ⟨a, h, hKeys⟩ : ∃ a,
      (compile tasksAfterTask oneTask none).run.1 = .ok [.action a] ∧
      a.head.inputFields.map (·.key) = ["task", "task"] :=
    ⟨_, by with_unfolding_all rfl, by with_unfolding_all rfl⟩
  have hNodup := hAlways tasksAfterTask oneTask none _ h (by decide) (by decide) a
    List.mem_cons_self
  rw [hKeys] at hNodup
  exact absurd hNodup (by decide)

end IntegrationCompiler
