import IntegrationCompiler.Proofs.Field.Tree
import IntegrationCompiler.Proofs.Operation.Triggers
import IntegrationCompiler.Proofs.Request.Placed
import IntegrationCompiler.Proofs.Value.Json

/-!
# The queries of triggers

A trigger may be configured with fixed values for its query. They are stored before anything that a
user provides, so a user must not be able to store something under the same keys. That rests on what
the plan asks for, and holds whatever the inputs are.

Main definitions:

* `QueryPlan.provided` — what the inputs make of the parameters that a plan asks for;
* `QueryParamPlan.sent?`, `Parameter.sent?` — what one of them takes from the inputs;
* `Endpoint.Queries` — a query with the fixed values as they are and inputs of the endpoint.

Main results:

* `RequestPlan.queryOf_eq` — if no parameter has a fixed key, the query is what is fixed followed by
  what is provided;
* `compile_fixes_queries` — the fixed values of a trigger cannot be overridden.
-/

namespace IntegrationCompiler

open Logged

/-! ## Storing beside other entries -/

namespace Entries

/-- A value that is stored under a key of the later entries does not touch the earlier ones. -/
theorem set_append_of_not_has {es : Entries} {name : String} (h : has es name = false)
    (later : Entries) (v : Value) : set (es ++ later) name v = es ++ set later name v := by
  rw [has_eq_false_iff] at h
  induction es with
  | nil => rfl
  | cons e rest ih =>
    obtain ⟨k, w⟩ := e
    have hOther : ¬ k.same (.str name) = true := by
      intro hSame
      exact h w (Scalar.same_str.mp hSame ▸ List.mem_cons_self)
    have hRest : ∀ v, (Scalar.str name, v) ∉ rest := by
      intro v hMem
      exact h v (List.mem_cons_of_mem _ hMem)
    rw [List.cons_append, set, put, if_neg hOther]
    exact congrArg _ (ih hRest)

end Entries

/-! ## What is provided -/

namespace QueryParamPlan

/-- What a parameter takes from the inputs; nothing if it is omitted. -/
def sent? (p : QueryParamPlan) (inputs : Entries) : Option Value :=
  readInput? p.kind (Entries.getOrNull inputs p.name) false

/-- A parameter stores what it takes under its name. -/
def store (inputs acc : Entries) (p : QueryParamPlan) : Entries :=
  match p.sent? inputs with
  | some v => Entries.set acc p.name v
  | none => acc

variable {p : QueryParamPlan} {inputs : Entries}

theorem store_of_none (h : p.sent? inputs = none) (es : Entries) : p.store inputs es = es := by
  rw [store, h]

theorem store_of_some {v : Value} (h : p.sent? inputs = some v) (es : Entries) :
    p.store inputs es = Entries.set es p.name v := by
  rw [store, h]

theorem store_append {fixed : Entries} (h : Entries.has fixed p.name = false) (later : Entries) :
    p.store inputs (fixed ++ later) = fixed ++ p.store inputs later := by
  cases hSent : p.sent? inputs with
  | none => rw [store_of_none hSent, store_of_none hSent]
  | some v =>
    rw [store_of_some hSent, store_of_some hSent, Entries.set_append_of_not_has h]

end QueryParamPlan

namespace QueryPlan

/-- What the inputs make of the parameters that a plan asks for. -/
def provided (q : QueryPlan) (inputs : Entries) : Entries :=
  q.params.foldl (QueryParamPlan.store inputs) []

theorem provided_eq_setEach (q : QueryPlan) (inputs : Entries) :
    q.provided inputs = Entries.setEach (·.name) (·.sent? inputs) q.params [] := rfl

end QueryPlan

/-- **The query is what is fixed followed by what is provided**, as long as the plan asks for nothing
that is fixed. -/
theorem RequestPlan.queryOf_eq {plan : RequestPlan}
    (h : ∀ p ∈ plan.query.params, Entries.has plan.query.fixed p.name = false)
    (inputs : Entries) : plan.queryOf inputs = plan.query.fixed ++ plan.query.provided inputs := by
  have hRun : ∀ (params : List QueryParamPlan) (later : Entries),
      (∀ p ∈ params, Entries.has plan.query.fixed p.name = false) →
      params.foldl (QueryParamPlan.store inputs) (plan.query.fixed ++ later) =
        plan.query.fixed ++ params.foldl (QueryParamPlan.store inputs) later := by
    intro params
    induction params with
    | nil =>
      intro later _
      rfl
    | cons p rest ih =>
      intro later hFree
      rw [List.forall_mem_cons] at hFree
      rw [List.foldl_cons, List.foldl_cons, QueryParamPlan.store_append hFree.1, ih _ hFree.2]
  have hAll := hRun plan.query.params [] h
  rwa [List.append_nil] at hAll

/-! ## What a trigger sends -/

/-- What a query parameter of an endpoint takes from the inputs; nothing if it is omitted. -/
def Parameter.sent? (p : Parameter) (inputs : Entries) : Option Value :=
  readInput? (Schema.valueKind (.optionalEntries p.schema)) (Entries.getOrNull inputs p.name) false

/-- A query of an endpoint in which some values are fixed. They stand there as they are. Whatever
else there is was provided for a query parameter that is not fixed, and what is provided for such a
parameter is there. -/
structure Endpoint.Queries (e : Endpoint) (fixed inputs query : Entries) : Prop where
  agrees : ∀ name, Entries.has fixed name = true → Entries.get? query name = Entries.get? fixed name
  split : ∃ sent, query = fixed ++ sent ∧
    (∀ k v, (k, v) ∈ sent → ∃ p ∈ e.queryParameters, k = .str p.name ∧
      Entries.has fixed p.name = false ∧ p.sent? inputs = some v) ∧
    ∀ p ∈ e.queryParameters, Entries.has fixed p.name = false → (p.sent? inputs).isSome = true →
      Entries.has sent p.name = true

/-- The query that the plan of an endpoint asks for: every parameter that is not fixed. -/
theorem RequestPlan.ofEndpoint_query {e : Endpoint} {baseUrl authFieldKey : String}
    {fixed : Entries} {request : RequestPlan}
    (h : RequestPlan.ofEndpoint e baseUrl authFieldKey fixed = .ok request) :
    request.query = ⟨(e.queryParameters.filter fun p => !Entries.has fixed p.name).map fun p =>
      ⟨p.name, Schema.valueKind (.optionalEntries p.schema)⟩, fixed⟩ := by
  unfold ofEndpoint at h
  dsimp only at h
  cases hRequest : e.requestBody with
  | none =>
    rw [hRequest] at h
    cases h
    rfl
  | some b =>
    rw [hRequest] at h
    obtain ⟨properties, -, h⟩ := ok_of_bind h
    cases h
    rfl

/-- The plan of an endpoint sends the query that it asks for. -/
theorem RequestPlan.ofEndpoint_queries {e : Endpoint} {baseUrl authFieldKey : String}
    {fixed : Entries} {request : RequestPlan}
    (h : RequestPlan.ofEndpoint e baseUrl authFieldKey fixed = .ok request) (inputs : Entries) :
    e.Queries fixed inputs (request.queryOf inputs) := by
  have hQuery := ofEndpoint_query h
  have hFixed : request.query.fixed = fixed := by rw [hQuery]
  have hAsked : ∀ q ∈ request.query.params, ∃ p ∈ e.queryParameters,
      Entries.has fixed p.name = false ∧ q.name = p.name ∧ q.sent? inputs = p.sent? inputs := by
    intro q hq
    rw [hQuery] at hq
    obtain ⟨p, hp, rfl⟩ := List.mem_map.mp hq
    obtain ⟨hMem, hFree⟩ := List.mem_filter.mp hp
    exact ⟨p, hMem, (Bool.not_eq_true' _).mp hFree, rfl, rfl⟩
  have hFree : ∀ q ∈ request.query.params, Entries.has request.query.fixed q.name = false := by
    intro q hq
    obtain ⟨p, -, hNotFixed, hName, -⟩ := hAsked q hq
    rw [hFixed, hName]
    exact hNotFixed
  have hSplit := queryOf_eq hFree inputs
  rw [hFixed] at hSplit
  refine ⟨?_, request.query.provided inputs, hSplit, ?_, ?_⟩
  · intro name hHas
    obtain ⟨v, hv⟩ := Option.isSome_iff_exists.mp hHas
    rw [hSplit, Entries.get?_append, hv]
    rfl
  · intro k v hMem
    rw [QueryPlan.provided_eq_setEach] at hMem
    obtain ⟨q, hq, hKey, hSent⟩ := (Entries.mem_setEach hMem).resolve_left List.not_mem_nil
    obtain ⟨p, hp, hNotFixed, hName, hSame⟩ := hAsked q hq
    exact ⟨p, hp, hName ▸ hKey, hNotFixed, hSame ▸ hSent⟩
  · intro p hp hNotFixed hSome
    have hMem : (⟨p.name, Schema.valueKind (.optionalEntries p.schema)⟩ : QueryParamPlan) ∈
        request.query.params := by
      rw [hQuery]
      exact List.mem_map_of_mem (List.mem_filter.mpr ⟨hp, (Bool.not_eq_true' _).mpr hNotFixed⟩)
    rw [QueryPlan.provided_eq_setEach]
    exact Entries.has_setEach hMem hSome

/-- No input of a trigger has a fixed key, unless all its parameters are fixed: then a hidden trigger
has its placeholder instead. -/
theorem Trigger.ofEndpoint_asks {s : Surroundings} {e : Endpoint} {key : String}
    {c : TriggerConfig} {t : Trigger} (h : (Trigger.ofEndpoint s e key c).Returns t) :
    (∀ f ∈ Field.preorder t.head.inputFields, Entries.has c.queryParams f.key = false) ∨
      t.hidden = true ∧ t.head.inputFields = [placeholderField] ∧
        ∀ p ∈ e.parameters, Entries.has c.queryParams p.name = true := by
  obtain ⟨own, hOwn, -, -, -, hFlag, hInputs⟩ := ofEndpoint_parts h
  have hNamed := Field.ofParameters_ok hOwn
  have hFixed (name : String) :
      (Entries.names c.queryParams).contains name = Entries.has c.queryParams name := by
    rw [Bool.eq_iff_iff, List.contains_iff_mem]
    exact Entries.mem_names
  simp only [hFixed] at hNamed
  rw [hInputs]
  split
  · next hPlaceholder =>
    rw [Bool.and_eq_true] at hPlaceholder
    refine Or.inr ⟨hFlag.trans hPlaceholder.1, rfl, ?_⟩
    intro p hp
    have hKeys := hNamed.keys_eq
    rw [List.isEmpty_iff.mp hPlaceholder.2, List.map_nil, eq_comm, List.map_eq_nil_iff,
      List.filter_eq_nil_iff] at hKeys
    have hExcluded := hKeys p hp
    rwa [Bool.not_eq_true', Bool.not_eq_false] at hExcluded
  · -- parameters make fields without children
    refine Or.inl (Field.throughout_of_leaves hNamed.children_eq ?_)
    intro f hf
    have hKey : f.key ∈ (e.parameters.filter fun p => !Entries.has c.queryParams p.name).map
        (·.name) := hNamed.keys_eq ▸ List.mem_map_of_mem hf
    obtain ⟨p, hp, hName⟩ := List.mem_map.mp hKey
    rw [← hName]
    exact (Bool.not_eq_true' _).mp (List.mem_filter.mp hp).2

/-- A trigger that is emitted was built for an endpoint at the path that it is configured for. -/
theorem Compiles.of_trigger_mem {document : ApiDocument} {config : GeneratorConfig}
    {onlyPath : Option String} {hidden : List (String × Trigger)} {selected : List Endpoint}
    {operations : List Operation}
    (h : Compiles document config onlyPath hidden selected operations) {t : Trigger}
    (ht : .trigger t ∈ operations) : ∃ hidden' e c, e ∈ document.endpoints ∧
      (t.head.key, c) ∈ config.triggers ∧ e.path = c.endpoint ∧
      (Trigger.ofEndpoint ⟨document, config, hidden'⟩ e t.head.key c).Returns t := by
  have hSelected := selectEndpoints_subset h.selected_eq
  have hEach : ∀ o ∈ operations, ∀ t, o = .trigger t → ∃ hidden' e c, e ∈ document.endpoints ∧
      (t.head.key, c) ∈ config.triggers ∧ e.path = c.endpoint ∧
      (Trigger.ofEndpoint ⟨document, config, hidden'⟩ e t.head.key c).Returns t := by
    refine h.forall_operations (fun _ _ _ _ _ hSame => nomatch hSame) ?_
    intro hidden' e key c t' hOrigin hBuilt t hSame
    cases hSame
    obtain ⟨hConfigured, hPath, -⟩ := of_trigger_mem_allOrigins hSelected hOrigin
    cases (Trigger.ofEndpoint_returns hBuilt).1
    exact ⟨hidden', e, c, mem_endpoints_of_trigger hSelected hOrigin, hConfigured, hPath, hBuilt⟩
  exact hEach _ ht t rfl

/-- **The fixed values of a query cannot be overridden.** A trigger has an entry of the configuration
under its key and polls an endpoint at its path. Whatever the inputs and the authentication are, its
query has the configured values as they are, and besides them only what is provided for other query
parameters of the endpoint. No input of the trigger, at any depth, has the key of such a value; only
the placeholder of a hidden trigger without inputs may. -/
theorem compile_fixes_queries {document : ApiDocument} {config : GeneratorConfig}
    {onlyPath : Option String} {operations : List Operation}
    (h : (compile document config onlyPath).run.1 = .ok operations) :
    ∀ t, .trigger t ∈ operations →
      ∃ c, (t.head.key, c) ∈ config.triggers ∧
      ∃ e ∈ document.endpoints, e.path = c.endpoint ∧ t.head.path = e.path ∧
        (∀ inputs auth,
          e.Queries c.queryParams inputs (t.head.request.build inputs auth).params) ∧
        ((∀ f ∈ Field.preorder t.head.inputFields, Entries.has c.queryParams f.key = false) ∨
          t.hidden = true ∧ t.head.inputFields = [placeholderField] ∧
            ∀ p ∈ e.parameters, Entries.has c.queryParams p.name = true) := by
  intro t ht
  obtain ⟨hidden, selected, hCompiles⟩ := compile_returns (returns_of_run h)
  obtain ⟨hidden', e, c, hMem, hConfigured, hPath, hBuilt⟩ := hCompiles.of_trigger_mem ht
  obtain ⟨own, -, hRequest, -, hTriggerPath, -⟩ := Trigger.ofEndpoint_parts hBuilt
  refine ⟨c, hConfigured, e, hMem, hPath, hTriggerPath, ?_, Trigger.ofEndpoint_asks hBuilt⟩
  intro inputs auth
  exact RequestPlan.ofEndpoint_queries hRequest inputs

/-- Reports of a project, of one status, so many on a page. -/
def projectReports : ApiDocument where
  endpoints := [{
    path := "/reports", method := .get, operationId := some "list_reports"
    parameters := [
      { name := "status", location := .query },
      { name := "limit", location := .query, schema := some [(.str "type", .str "integer")] },
      { name := "project", location := .query }] }]

/-- Only reports that are open are polled, in pages of fifty. -/
def openReports : GeneratorConfig where
  triggers := [("new_report", {
    endpoint := "/reports", title := some "Triggers when a report is opened."
    queryParams := [(.str "status", .str "open"), (.str "limit", .int 50)] })]

/-- Whatever status and page size a user might want, these are polled, and the user is only asked
for the project. -/
theorem compile_fixes_queries_openReports : ∃ operations t,
    (compile projectReports openReports none).run.1 = .ok operations ∧
    .trigger t ∈ operations ∧ t.head.inputFields.map (·.key) = ["project"] ∧
    (∀ inputs auth, ∀ query, (t.head.request.build inputs auth).params = query →
      Entries.get? query "status" = some (.str "open") ∧
      Entries.get? query "limit" = some (.int 50)) ∧
    ∀ f ∈ Field.preorder t.head.inputFields, f.key ≠ "status" ∧ f.key ≠ "limit" := by
  obtain ⟨operations, t, h, ht, hAsked⟩ : ∃ operations t,
      (compile projectReports openReports none).run.1 = .ok operations ∧
      .trigger t ∈ operations ∧ t.head.inputFields.map (·.key) = ["project"] :=
    ⟨_, _, by with_unfolding_all rfl, List.mem_cons_of_mem _ List.mem_cons_self,
      by with_unfolding_all rfl⟩
  obtain ⟨c, hConfigured, e, he, -, -, hQueries, hInputs⟩ := compile_fixes_queries h t ht
  -- one trigger is configured, and there is one endpoint
  cases congrArg Prod.snd (List.mem_singleton.mp hConfigured)
  cases List.mem_singleton.mp he
  refine ⟨operations, t, h, ht, hAsked, ?_, ?_⟩
  · rintro inputs auth query rfl
    exact ⟨(hQueries inputs auth).agrees "status" rfl, (hQueries inputs auth).agrees "limit" rfl⟩
  · intro f hf
    rcases hInputs with hOthers | ⟨-, -, hAll⟩
    · have hOther := hOthers f hf
      constructor
      · intro hKey
        rw [hKey] at hOther
        cases hOther
      · intro hKey
        rw [hKey] at hOther
        cases hOther
    · -- the project is left open
      cases hAll _ (List.mem_cons_of_mem _ (List.mem_cons_of_mem _ List.mem_cons_self))

end IntegrationCompiler
