import IntegrationCompiler.Proofs.Draft.Storable
import IntegrationCompiler.Proofs.Operation.Failures
import IntegrationCompiler.Proofs.Operation.Triggers

/-!
# Operations that survive their files

The operations of a document can be stored, if its schemas and examples and the values in its
configuration can be. So each of them is read back from its file.

Main definition: `GeneratorConfig.Storable`.

Main results:

* `compile_storable` — the operations of a document can be stored;
* `operations_survive` — operations that can be stored survive, and those of a document do.
-/

namespace IntegrationCompiler

open Value Logged

/-! ## Operations -/

theorem RequestPlan.ofEndpoint_storable {e : Endpoint} {baseUrl authFieldKey : String}
    {fixed : Entries} {request : RequestPlan} (hFixed : (Value.map fixed).Storable)
    (h : RequestPlan.ofEndpoint e baseUrl authFieldKey fixed = .ok request) :
    request.Storable := by
  unfold ofEndpoint at h
  dsimp only at h
  split at h
  · cases h
    exact ⟨hFixed, nofun⟩
  · obtain ⟨properties, -, h⟩ := ok_of_bind h
    cases h
    refine ⟨hFixed, ?_⟩
    rintro body ⟨⟩
    exact storable_empty

theorem storable_noContentSample : (Value.map noContentSample).Storable := by
  simp [noContentSample, storable_map_iff]

section

variable {s : Surroundings} {e : Endpoint} {key : String}

theorem Action.ofEndpoint_storable {a : Action} (he : e.Carries Value.Storable Value.Storable)
    (hDefaults : (Value.map (s.config.action key).fieldDefaults).Storable)
    (h : (Action.ofEndpoint s e key).Returns a) : a.head.Storable := by
  unfold ofEndpoint at h
  dsimp only at h
  obtain ⟨fields, hFields, h⟩ := returns_bind h
  obtain ⟨request, hRequest, h⟩ := returns_bind h
  obtain ⟨response, -, h⟩ := returns_bind h
  have hPlan := returns_liftExcept hRequest
  have hStart {raw : Value} (hRaw : raw.Storable) : Draft.Storable ⟨fields, request, raw⟩ :=
    ⟨(@Endpoint.ready s e key _ _ raw (returns_liftExcept hFields) hPlan).shapes, hRaw,
      RequestPlan.ofEndpoint_storable storable_empty hPlan⟩
  -- an action without content has a sample of its own
  split at h
  · obtain ⟨raw, hRaw, h⟩ := returns_bind h
    obtain ⟨d, hd, h⟩ := returns_bind h
    obtain ⟨sample, hSample, h⟩ := returns_bind h
    cases returns_pure h
    cases returns_pure hRaw
    cases returns_pure hSample
    obtain ⟨hShapes, -, hRequest⟩ := Draft.refine_storable hDefaults (hStart storable_null) hd
    exact ⟨hShapes, storable_noContentSample, hRequest⟩
  · obtain ⟨raw, hRaw, h⟩ := returns_bind h
    obtain ⟨d, hd, h⟩ := returns_bind h
    obtain ⟨sample, hSample, h⟩ := returns_bind h
    cases returns_pure h
    have hStorable := sampleOf_storable he (returns_liftExcept hRaw)
    obtain ⟨hShapes, hShown, hRequest⟩ := Draft.refine_storable hDefaults (hStart hStorable) hd
    exact ⟨hShapes, actionSample_storable hShown (returns_liftExcept hSample), hRequest⟩

theorem Trigger.ofEndpoint_storable {c : TriggerConfig} {t : Trigger}
    (he : e.Carries Value.Storable Value.Storable) (hFixed : (Value.map c.queryParams).Storable)
    (hFilters : (Value.map c.filters).Storable) (h : (Trigger.ofEndpoint s e key c).Returns t) :
    t.Storable := by
  unfold ofEndpoint at h
  dsimp only at h
  obtain ⟨description, -, h⟩ := returns_bind h
  obtain ⟨own, hOwn, h⟩ := returns_bind h
  obtain ⟨request, hRequest, h⟩ := returns_bind h
  obtain ⟨extraction, -, h⟩ := returns_bind h
  obtain ⟨pagination, hPagination, h⟩ := returns_bind h
  obtain ⟨raw, hRaw, h⟩ := returns_bind h
  obtain ⟨sample, hSample, h⟩ := returns_bind h
  cases returns_pure h
  refine ⟨⟨?_, ?_, RequestPlan.ofEndpoint_storable hFixed (returns_liftExcept hRequest)⟩, ?_,
    PaginationPlan.ofEndpoint?_storable hFixed hPagination⟩
  · dsimp only
    split
    · exact Field.throughout_of_leaves (List.forall_mem_singleton.mpr rfl)
        (List.forall_mem_singleton.mpr (by decide))
    · exact Field.ofParameters_shaped (returns_liftExcept hOwn)
  · exact triggerSample_storable (sampleOf_storable he (returns_liftExcept hRaw))
      (returns_liftExcept hSample)
  · intro p hp
    dsimp only [TriggerConfig.filterPlan?] at hp
    split at hp
    · cases hp
    · cases hp
      exact hFilters

end

/-- What the user configures can be stored: defaults of inputs, fixed parts of queries, and what
items are compared with. -/
structure GeneratorConfig.Storable (config : GeneratorConfig) : Prop where
  defaults : ∀ named ∈ config.actions, (Value.map named.2.fieldDefaults).Storable
  fixed : ∀ named ∈ config.triggers, (Value.map named.2.queryParams).Storable
  filters : ∀ named ∈ config.triggers, (Value.map named.2.filters).Storable

theorem GeneratorConfig.Storable.action {config : GeneratorConfig} (h : config.Storable)
    (key : String) : (Value.map (config.action key).fieldDefaults).Storable := by
  unfold GeneratorConfig.action
  cases hFound : config.actions.lookup key with
  | none => exact storable_empty
  | some c =>
    obtain ⟨before, after, hSplit, -⟩ := List.lookup_eq_some_iff.mp hFound
    exact h.defaults (key, c) (hSplit ▸ List.mem_append_right _ List.mem_cons_self)

section

variable {document : ApiDocument} {config : GeneratorConfig} {onlyPath : Option String}
  {operations : List Operation}

/-- **The operations of a document can be stored**, if its schemas and examples and the values in
the configuration can be. -/
theorem compile_storable (hDocument : ∀ e ∈ document.endpoints,
      e.Carries Value.Storable Value.Storable) (hConfig : config.Storable)
    (h : (compile document config onlyPath).Returns operations) :
    ∀ o ∈ operations, o.Storable := by
  obtain ⟨hidden, selected, hCompiles⟩ := compile_returns h
  have hSelected := selectEndpoints_subset hCompiles.selected_eq
  refine hCompiles.forall_operations (fun e a hOrigin ha => ?_)
    (fun hidden e key c t hOrigin ht => ?_)
  · have he := hDocument e (hSelected e (action_mem_allOrigins.mp hOrigin).1)
    exact Operation.storable_action_iff.mpr
      (Action.ofEndpoint_storable he (hConfig.action e.actionKey) ha)
  · have hMem := (of_trigger_mem_allOrigins hSelected hOrigin).1
    have he := hDocument e (mem_endpoints_of_trigger hSelected hOrigin)
    exact Operation.storable_trigger_iff.mpr
      (Trigger.ofEndpoint_storable he (hConfig.fixed _ hMem) (hConfig.filters _ hMem) ht)

end

/-- **Operations survive their files.** Where the fields of an operation keep the rule of shapes and
what may hold any values holds values of JSON, whose doubles are read back and whose integers are not
too long, the operation has a text, and this is read as the operation, with everything in its order.
So do the operations of a document whose schemas and examples are such values, as the values in the
configuration are. -/
theorem operations_survive :
    (∀ o : Operation, o.Storable → o.Survives) ∧
    ∀ (document : ApiDocument) (config : GeneratorConfig) (onlyPath : Option String)
      (operations : List Operation),
      (∀ e ∈ document.endpoints, e.Carries Value.Storable Value.Storable) → config.Storable →
      (compile document config onlyPath).run.1 = .ok operations → ∀ o ∈ operations, o.Survives := by
  refine ⟨fun o h => h.survives, fun document config onlyPath operations hDocument hConfig h o ho => ?_⟩
  exact (compile_storable hDocument hConfig (returns_of_run h) o ho).survives

/-- Rates of exchange are listed, and added one by one. -/
def exchangeRates : ApiDocument where
  endpoints := [{
    path := "/rates"
    method := .get
    operationId := some "list_rates"
    responses := [("200", {
      statusCode := "200"
      examples := [(.str "one", .list [.object [
        ("pair", .str "EUR/USD"), ("rate", .float (.finite false 3 (-1))),
        ("days", .list [.int 2, .null])]])] })] }, {
    path := "/rates"
    method := .post
    operationId := some "add_rate"
    requestBody := some { schema := some [(.str "properties", .object [
      ("rate", .object [("type", .str "number")])])] } }]

/-- New rates are polled if they are open, and an added rate is 1.5 unless it is given. -/
def openRates : GeneratorConfig where
  actions := [("add_rate", { fieldDefaults := [(.str "rate", .float (.finite false 3 (-1)))] })]
  triggers := [("new_rate", {
    endpoint := "/rates"
    title := some "Triggers when a rate is published."
    queryParams := [(.str "limit", .int 20)]
    filters := [(.str "open", .bool true)] })]

/-- Two actions and a trigger are written and read again, with a double in a sample and one among
the defaults. -/
theorem operations_survive_exchangeRates : ∃ operations,
    (compile exchangeRates openRates none).run.1 = .ok operations ∧
    operations.map Operation.key = ["list_rates", "new_rate", "add_rate"] ∧
    ∀ o ∈ operations, ∃ text v, o.jsonText = .ok text ∧ Json.parse text = .ok v ∧
      Operation.read v = .ok o := by
  obtain ⟨operations, h, hKeys⟩ : ∃ operations,
      (compile exchangeRates openRates none).run.1 = .ok operations ∧
      operations.map Operation.key = ["list_rates", "new_rate", "add_rate"] :=
    ⟨_, by with_unfolding_all rfl, by with_unfolding_all rfl⟩
  have hDouble : Value.Storable (.float (.finite false 3 (-1))) :=
    storable_scalar (.float false 3 (-1)) (by with_unfolding_all rfl)
  have hDocument : ∀ e ∈ exchangeRates.endpoints, e.Carries Value.Storable Value.Storable := by
    refine List.forall_mem_cons.mpr ⟨?_, List.forall_mem_singleton.mpr ?_⟩ <;> constructor <;>
      simp [Value.object, schemaValue, storable_map_iff, storable_list_iff, hDouble]
  have hConfig : openRates.Storable := by
    constructor <;> simp [openRates, storable_map_iff, hDouble]
  exact ⟨operations, h, hKeys, operations_survive.2 _ _ _ _ hDocument hConfig h⟩

/-- The answer to a question for the number of tasks, with an example. -/
def taskCount (n : Int) : ApiDocument where
  endpoints := [{
    path := "/tasks/count"
    method := .get
    operationId := some "count_tasks"
    responses := [("200", {
      statusCode := "200"
      examples := [(.str "one", .object [("count", .int n)])] })] }]

/-- Its action has the example for its sample, and no other free-form values. -/
theorem compile_taskCount (n : Int) : ∃ a : Action,
    (compile (taskCount n) {} none).run.1 = .ok [.action a] ∧ a.head.inputFields = [] ∧
    a.head.sample = [(.str "count", .int n)] ∧
    (Operation.action a).freeForm = [[(.str "count", .int n)], []] ∧
    (Operation.action a).toValue.jsonForm? = some (Operation.action a).toValue :=
  ⟨_, by with_unfolding_all rfl, by with_unfolding_all rfl, by with_unfolding_all rfl,
    by with_unfolding_all rfl, by with_unfolding_all rfl⟩

/-- An action keeps the rule of shapes and holds only values of JSON, but its sample has an integer
of too many digits: there is no text for its file. -/
theorem longCount_unwritten : ∃ a : Action,
    (compile (taskCount (10 ^ Number.maxIntegerDigits)) {} none).run.1 = .ok [.action a] ∧
    Field.Throughout Field.WellShaped a.head.inputFields ∧
    (∀ es ∈ (Operation.action a).freeForm, (Value.map es).IsJson) ∧
    (Operation.action a).jsonText = .error .malformed ∧ ¬ (Operation.action a).Survives := by
  obtain ⟨a, hCompile, hInputs, hSample, hFree, hForm⟩ :=
    compile_taskCount (10 ^ Number.maxIntegerDigits)
  have hWithin : Value.Within (.int (10 ^ Number.maxIntegerDigits)) (Operation.action a).toValue := by
    have hShown : ("sample", Value.map a.head.sample) ∈
        a.head.fields ++ [("kind", .str "action"), ("response", a.response.toValue)] := by
      simp [Head.fields]
    refine .entry (List.mem_map.mpr ⟨_, hShown, rfl⟩) ?_
    rw [hSample]
    exact within_of_mem List.mem_cons_self
  have hText : (Operation.action a).jsonText = .error .malformed :=
    jsonFileText_of_long hForm hWithin (by simp [Int.natAbs_pow])
  refine ⟨a, hCompile, ?_, ?_, hText, ?_⟩
  · rw [hInputs]
    exact Field.throughout_nil
  · rw [hFree]
    have hCount : IsJson (.object [("count", .int (10 ^ Number.maxIntegerDigits))]) :=
      isJson_object (List.nodup_singleton _) (List.forall_mem_singleton.mpr (.int _))
    exact List.forall_mem_cons.mpr ⟨hCount, List.forall_mem_singleton.mpr storable_empty.json⟩
  · rintro ⟨text, -, hOk, -⟩
    cases hText.symm.trans hOk

end IntegrationCompiler
