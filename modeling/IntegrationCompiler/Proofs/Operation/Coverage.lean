import IntegrationCompiler.Proofs.Draft.Coverage
import IntegrationCompiler.Proofs.Operation.Actions

/-!
# Inputs and requests of actions

The inputs of an action and its request plan fit together, whatever its configuration does to it.

* `Action.IsBuiltFor` — which endpoint an action belongs to;
* `ActionConfig.groupName?` — the name of the group around the inputs of an item;
* `inputs_cover_request` — the plan looks for inputs exactly where there are some, if no two names
  of the endpoint are the same and the group has none of them.
-/

namespace IntegrationCompiler

open Logged

/-- The action is the one that the endpoint becomes, whatever triggers there are to fill its
dropdowns. -/
def Action.IsBuiltFor (document : ApiDocument) (config : GeneratorConfig) (e : Endpoint)
    (a : Action) : Prop :=
  ∃ hidden, (Action.ofEndpoint ⟨document, config, hidden⟩ e e.actionKey).Returns a

/-- The name of the group around the inputs of an item, if a list is flattened and has a public name
that makes one. -/
def ActionConfig.groupName? (config : ActionConfig) : Option String :=
  (((config.simplified?.bind (·.flattenArray)).bind (·.publicName)).map slugify).filter
    fun key => !key.isEmpty

section

variable {document : ApiDocument} {config : GeneratorConfig} {onlyPath : Option String}
  {operations : List Operation} {e : Endpoint}

/-- The draft of an endpoint has a field for each of its parameters and for each property of the
body that shares its name with none of them. -/
theorem level_of_endpoint {s : Surroundings} {key : String} {fields : List Field}
    {request : RequestPlan} {raw : Value}
    (hApart : ∀ name ∈ e.pathParameters.map (·.name), name ∉ e.queryParameters.map (·.name))
    (hFields : e.inputFields = .ok fields) (hRequest : s.requestPlan e [] = .ok request) :
    Draft.Level (s.scope e key) ⟨fields, request, raw⟩ := by
  have hNamed := Endpoint.inputFields_ok hFields
  obtain ⟨-, hPath, hQuery, hBody, hUnshaped⟩ := RequestPlan.ofEndpoint_ok hRequest
  have hAllOpen : (e.queryParameters.filter fun p => !Entries.has [] p.name) = e.queryParameters :=
    List.filter_eq_self.mpr fun _ _ => rfl
  rw [hAllOpen] at hQuery
  have hParameters : ∀ name, name ∈ request.parameterNames ↔ name ∈ e.parameters.map (·.name) := by
    intro name
    rw [RequestPlan.parameterNames, hPath, hQuery, List.mem_append, Endpoint.mem_parameter_names]
  have hBodyNames : request.bodyNames = e.bodyNames := hBody
  refine ⟨hNamed.children_eq, fun name => ?_, fun name hName => ?_,
    fun name hName => (hParameters name).mp hName, hUnshaped⟩
  · rw [hNamed.keys_eq, hParameters, hBodyNames, List.mem_append, List.mem_filter]
    refine or_congr_right (and_congr_right fun _ => ?_)
    rw [Bool.not_eq_true', List.contains_eq_mem, decide_eq_false_iff_not]
    rfl
  · rw [hPath] at hName
    exact hApart name hName

/-- The draft of an endpoint asks for each of its names once, if they are all different. -/
theorem straight_of_endpoint {s : Surroundings} {key : String} {fields : List Field}
    {request : RequestPlan} {raw : Value} (hNames : e.inputNames.Nodup)
    (hFields : e.inputFields = .ok fields) (hRequest : s.requestPlan e [] = .ok request) :
    Draft.Straight (s.scope e key) ⟨fields, request, raw⟩ := by
  obtain ⟨-, -, -, hBody, -⟩ := RequestPlan.ofEndpoint_ok hRequest
  have hBodyNames : request.bodyNames = e.bodyNames := hBody
  -- the three kinds of names have none in common
  obtain ⟨hBoth, -, hBesideBody⟩ := List.nodup_append.mp hNames
  obtain ⟨-, -, hPathQuery⟩ := List.nodup_append.mp hBoth
  have hLevel : Draft.Level (s.scope e key) ⟨fields, request, raw⟩ := by
    refine level_of_endpoint ?_ hFields hRequest
    intro name hInPath hInQuery
    exact hPathQuery name hInPath name hInQuery rfl
  refine hLevel.straight ?_
  intro name hInBody hParameter
  rw [hBodyNames] at hInBody
  exact hBesideBody name (List.mem_append.mpr (Endpoint.mem_parameter_names.mp hParameter)) name
    hInBody rfl

theorem slugify_empty : slugify "" = "" := rfl

/-- A public name that makes a key names the group. -/
theorem mem_groupName? {action : ActionConfig} {flatten : FlattenConfig} {key : String}
    (hFlatten : action.simplified?.bind (·.flattenArray) = some flatten) (hNotEmpty : key ≠ "")
    (hSlug : key = slugify (flatten.publicName.getD "")) : key ∈ action.groupName? := by
  rw [ActionConfig.groupName?, hFlatten, Option.bind_some]
  cases hPublic : flatten.publicName with
  | none =>
    rw [hPublic, Option.getD_none, slugify_empty] at hSlug
    exact absurd hSlug hNotEmpty
  | some name =>
    rw [hPublic, Option.getD_some] at hSlug
    rw [Option.map_some, ← hSlug, Option.mem_def, Option.filter_some_eq_some]
    simpa [String.isEmpty_iff] using hNotEmpty

/-- **The inputs of an action are where its request looks for them**, and nowhere else, if all names
of its endpoint are different and the group has none of them. -/
theorem covered_of_isBuiltFor {a : Action} (hBuilt : a.IsBuiltFor document config e)
    (hNames : e.inputNames.Nodup)
    (hGroup : ∀ key ∈ (config.action e.actionKey).groupName?, key ∉ e.inputNames) :
    ∀ path, path ∈ a.head.request.slots ↔ path ∈ Field.leafPaths a.head.inputFields := by
  obtain ⟨hidden, hReturns⟩ := hBuilt
  obtain ⟨fields, request, raw, d, hFields, hRequest, hd, -, -, hInputs, hPlan⟩ :=
    Action.ofEndpoint_returns hReturns
  rw [hInputs, hPlan]
  refine Draft.refine_covered (straight_of_endpoint hNames hFields hRequest) ?_ hd
  -- the key of the group comes from the public name, which has to make one
  intro flatten hFlatten key hNotEmpty hSlug
  have hName : key ∈ (config.action e.actionKey).groupName? := mem_groupName? hFlatten hNotEmpty hSlug
  have hFree := hGroup key hName
  refine ⟨fun hParameter => hFree (List.mem_append_left _ ?_),
    fun hProperty => hFree (List.mem_append_right _ hProperty)⟩
  exact List.mem_append.mpr (Endpoint.mem_parameter_names.mp hParameter)

/-- **Inputs and request of an action cover each other**, if all names of its endpoint are different
and the group around the inputs of an item has none of them: the plan looks for inputs exactly where
there are some. A request depends on these, apart from what is there already of the lists that
helpers are merged into. -/
theorem inputs_cover_request (h : (compile document config onlyPath).run.1 = .ok operations) :
    ∀ a, .action a ∈ operations →
      (∃ e ∈ document.endpoints, a.IsBuiltFor document config e) ∧
      ∀ e, a.IsBuiltFor document config e → e.inputNames.Nodup →
        (∀ key ∈ (config.action e.actionKey).groupName?, key ∉ e.inputNames) →
        (∀ path, path ∈ a.head.request.slots ↔ path ∈ Field.leafPaths a.head.inputFields) ∧
        ∀ inputs inputs' auth, AgreeAt inputs inputs' (Field.leafPaths a.head.inputFields) →
          AgreeAt inputs inputs' (a.head.request.body.toList.flatMap BodyPlan.mergedInto) →
          a.head.request.build inputs auth = a.head.request.build inputs' auth := by
  obtain ⟨hidden, selected, hCompiles⟩ := compile_returns (returns_of_run h)
  intro a ha
  constructor
  · obtain ⟨e, he, hBuilt⟩ := hCompiles.endpoint_of_action ha
    exact ⟨e, selectEndpoints_subset hCompiles.selected_eq e he, hidden, hBuilt⟩
  · intro e hBuilt hNames hGroup
    have hCovered := covered_of_isBuiltFor hBuilt hNames hGroup
    refine ⟨hCovered, fun inputs inputs' auth hInputs hTargets => ?_⟩
    exact RequestPlan.build_congr _ auth (fun path hPath => hInputs path ((hCovered path).mp hPath))
      hTargets

end

/-- Tasks are added to a project as a list. -/
def tasksOfProject : ApiDocument where
  endpoints := [{
    path := "/projects/{project}/tasks"
    method := .post
    operationId := some "add_tasks"
    parameters := [
      { name := "project", location := .path }, { name := "notify", location := .query }]
    requestBody := some { schema := some [(.str "properties", .object [
      ("tasks", .object [("type", .str "array")]),
      ("note", .object [("type", .str "string")]),
      ("secret", .object [("type", .str "string")])])] } }]
  schemas := [(.str "Task", .object [("properties", .object [
    ("title", .object [("type", .str "string")]),
    ("users", .object [("type", .str "array")])])])]

/-- One task is added at a time, with a user of its own and a tag beside it. -/
def oneTaskAtATime : GeneratorConfig where
  actions := [("add_tasks", {
    hideRequestBodyProperties := ["secret"]
    simplify := some {
      enabled := true
      flattenArray := some
        { arrayField := "tasks", itemSchema := "Task", publicName := some "Task" }
      additionalProperties := ["note"] }
    helperFields := [
      ("user", { mapTo := "users", type := "integer" }), ("tag", { mapTo := "note" })]
    dynamicFields := [("note", ⟨"notes", "id"⟩)]
    fieldDefaults := [(.str "title", .str "New task")] })]

theorem inputs_cover_request_tasksOfProject : ∃ operations a,
    (compile tasksOfProject oneTaskAtATime none).run.1 = .ok operations ∧ operations = [.action a] ∧
    a.head.request.slots = [["project"], ["notify"], ["note"], ["task", "title"], ["task", "users"],
      ["task", "user"], ["tag"]] ∧
    ∀ path, path ∈ a.head.request.slots ↔ path ∈ Field.leafPaths a.head.inputFields := by
  obtain ⟨a, h, hSlots⟩ : ∃ a,
      (compile tasksOfProject oneTaskAtATime none).run.1 = .ok [.action a] ∧
      a.head.request.slots = [["project"], ["notify"], ["note"], ["task", "title"],
        ["task", "users"], ["task", "user"], ["tag"]] :=
    ⟨_, by with_unfolding_all rfl, by with_unfolding_all rfl⟩
  obtain ⟨⟨e, he, hBuilt⟩, hCovers⟩ := inputs_cover_request h a List.mem_cons_self
  cases List.mem_singleton.mp he
  exact ⟨_, a, h, rfl, hSlots, (hCovers _ hBuilt (by decide) (by decide)).1⟩

end IntegrationCompiler
