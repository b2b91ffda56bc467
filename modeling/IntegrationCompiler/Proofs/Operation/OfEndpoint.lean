import IntegrationCompiler.Operation.OfEndpoint
import IntegrationCompiler.Proofs.Draft.Invariants

/-!
# Operations and their endpoints

What an operation has from the endpoint it was built for.

* `Endpoint.inputNames` — the names that an endpoint takes inputs for;
* `Endpoint.inputFields_ok`, `RequestPlan.ofEndpoint_ok` — the draft that an action starts from;
* `Action.ofEndpoint_returns`, `Trigger.ofEndpoint_parts`, `Trigger.ofEndpoint_shows`,
  `Trigger.ofEndpoint_returns` — the operations.
-/

namespace IntegrationCompiler

open Logged

/-! ## Before the stages -/

namespace Endpoint

/-- The names of the properties of the body. -/
def bodyNames (e : Endpoint) : List String :=
  Entries.names (Schema.properties (.optionalEntries e.bodySchema))

/-- The names that an endpoint takes inputs for: in the path, in the query and in the body. -/
def inputNames (e : Endpoint) : List String :=
  e.pathParameters.map (·.name) ++ e.queryParameters.map (·.name) ++ e.bodyNames

/-- A parameter is in the path or in the query. -/
theorem mem_parameter_names {e : Endpoint} {name : String} : name ∈ e.parameters.map (·.name) ↔
    name ∈ e.pathParameters.map (·.name) ∨ name ∈ e.queryParameters.map (·.name) := by
  unfold pathParameters queryParameters parametersAt
  simp only [List.mem_map, List.mem_filter, ← exists_or]
  refine exists_congr fun p => ?_
  cases h : p.location <;> simp

/-- If all parameters have different names, none in the path has the name of one in the query. -/
theorem path_query_apart {e : Endpoint} (h : (e.parameters.map (·.name)).Nodup) :
    ∀ name ∈ e.pathParameters.map (·.name), name ∉ e.queryParameters.map (·.name) := by
  intro name hPath hQuery
  obtain ⟨p, hp, rfl⟩ := List.mem_map.mp hPath
  obtain ⟨q, hq, hSame⟩ := List.mem_map.mp hQuery
  obtain ⟨hpMem, hpPath⟩ := List.mem_filter.mp hp
  obtain ⟨hqMem, hqQuery⟩ := List.mem_filter.mp hq
  cases List.inj_on_of_nodup_map h hqMem hpMem hSame
  -- one parameter cannot be in both places
  exact nomatch (eq_of_beq hpPath).symm.trans (eq_of_beq hqQuery)

theorem inputFields_ok {e : Endpoint} {fields : List Field} (h : e.inputFields = .ok fields) :
    Field.PlainNamed (e.parameters.map (·.name) ++
      e.bodyNames.filter fun name => !(e.parameters.map (·.name)).contains name) fields := by
  obtain ⟨parameters, hParameters, h⟩ := ok_of_bind h
  obtain ⟨properties, hProperties, h⟩ := ok_of_bind h
  cases h
  have hNamed := Field.ofParameters_ok hParameters
  -- no parameter is excluded, and a property only if a parameter has its name
  have hAll : e.parameters.filter (fun p => !([] : List String).contains p.name) = e.parameters :=
    List.filter_eq_self.mpr fun _ _ => rfl
  rw [hAll] at hNamed
  have hBody := Field.ofProperties_ok hProperties
  rw [hNamed.keys_eq] at hBody
  exact hNamed.append hBody

end Endpoint

theorem propertyPlans_ok {schema : Value} {plans : List PropertyPlan}
    (h : propertyPlans schema = .ok plans) :
    plans.map (·.name) = Entries.names (Schema.properties schema) := by
  unfold propertyPlans at h
  have hEach := ok_of_mapM h
  clear h
  generalize Schema.properties schema = es at hEach ⊢
  induction hEach with
  | nil => rfl
  | @cons entry plan es plans hPlan _ ih =>
    obtain ⟨k, v⟩ := entry
    obtain ⟨name, hName, hPlan⟩ := ok_of_bind hPlan
    cases hPlan
    have hText := Checked.under_eq_ok.mp (ok_of_orFail hName)
    -- a key that is no text was refused
    cases k with
    | str s =>
      cases hText
      rw [Entries.names_cons, List.map_cons, ih]
    | _ => cases hText

/-- The plan of an endpoint before the stages: it asks for every parameter and every property. -/
theorem RequestPlan.ofEndpoint_ok {e : Endpoint} {baseUrl authFieldKey : String} {fixed : Entries}
    {request : RequestPlan}
    (h : RequestPlan.ofEndpoint e baseUrl authFieldKey fixed = .ok request) :
    request.method = e.method ∧ request.pathParams = e.pathParameters.map (·.name) ∧
      request.query.params.map (·.name) =
        (e.queryParameters.filter fun p => !Entries.has fixed p.name).map (·.name) ∧
      request.body.toList.flatMap BodyPlan.propertyNames = e.bodyNames ∧
      ∀ body ∈ request.body, body.flatten = none ∧ body.helperMerges = [] := by
  unfold ofEndpoint at h
  dsimp only at h
  unfold Endpoint.bodyNames Endpoint.bodySchema
  cases hRequest : e.requestBody with
  | none =>
    rw [hRequest] at h
    cases h
    exact ⟨rfl, rfl, by rw [List.map_map]; rfl, rfl, nofun⟩
  | some b =>
    rw [hRequest] at h
    obtain ⟨properties, hProperties, h⟩ := ok_of_bind h
    cases h
    refine ⟨rfl, rfl, by rw [List.map_map]; rfl, ?_, ?_⟩
    · rw [Option.toList_some, List.flatMap_singleton]
      exact propertyPlans_ok hProperties
    · rintro body ⟨⟩
      exact ⟨rfl, rfl⟩

/-! ## Actions -/

/-- An action has the key it was built under, the path of its endpoint, and what the stages made of
the draft of the endpoint. -/
theorem Action.ofEndpoint_returns {s : Surroundings} {e : Endpoint} {key : String} {a : Action}
    (h : (Action.ofEndpoint s e key).Returns a) :
    ∃ fields request raw d, e.inputFields = .ok fields ∧ s.requestPlan e [] = .ok request ∧
      (Draft.refine (s.scope e key) ⟨fields, request, raw⟩).Returns d ∧
      a.head.key = key ∧ a.head.path = e.path ∧ a.head.inputFields = d.fields ∧
      a.head.request = d.request := by
  unfold ofEndpoint at h
  dsimp only at h
  obtain ⟨fields, hFields, h⟩ := returns_bind h
  obtain ⟨request, hRequest, h⟩ := returns_bind h
  obtain ⟨response, -, h⟩ := returns_bind h
  -- an action without content differs in its samples only
  split at h
  all_goals
    obtain ⟨raw, -, h⟩ := returns_bind h
    obtain ⟨d, hd, h⟩ := returns_bind h
    obtain ⟨sample, -, h⟩ := returns_bind h
    cases returns_pure h
    exact ⟨fields, request, raw, d, returns_liftExcept hFields, returns_liftExcept hRequest, hd,
      rfl, rfl, rfl, rfl⟩

/-- An action has the key it was built under and the path and the method of its endpoint. -/
theorem Action.ofEndpoint_head {s : Surroundings} {e : Endpoint} {key : String} {a : Action}
    (h : (Action.ofEndpoint s e key).Returns a) :
    a.head.key = key ∧ a.head.path = e.path ∧ a.head.request.method = e.method := by
  obtain ⟨fields, request, raw, d, -, hRequest, hd, hKey, hPath, -, hSame⟩ := ofEndpoint_returns h
  obtain ⟨hMethod, -⟩ := RequestPlan.ofEndpoint_ok hRequest
  refine ⟨hKey, hPath, ?_⟩
  rw [hSame, Draft.refine_method hd]
  exact hMethod

/-! ## Triggers -/

/-- A trigger has the key it was built under and the path of its endpoint. It asks for the parameters
whose values are not fixed, or for a placeholder where there are none, and its request is the plan of
the endpoint with these values. -/
theorem Trigger.ofEndpoint_parts {s : Surroundings} {e : Endpoint} {key : String}
    {config : TriggerConfig} {t : Trigger} (h : (Trigger.ofEndpoint s e key config).Returns t) :
    ∃ own, Field.ofParameters e.parameters (Entries.names config.queryParams) = .ok own ∧
      s.requestPlan e config.queryParams = .ok t.head.request ∧
      t.head.key = key ∧ t.head.path = e.path ∧ t.hidden = config.hidden ∧
      t.head.inputFields = if config.hidden && own.isEmpty then [placeholderField] else own := by
  unfold ofEndpoint at h
  dsimp only at h
  obtain ⟨description, -, h⟩ := returns_bind h
  obtain ⟨own, hOwn, h⟩ := returns_bind h
  obtain ⟨request, hRequest, h⟩ := returns_bind h
  obtain ⟨extraction, -, h⟩ := returns_bind h
  obtain ⟨pagination, -, h⟩ := returns_bind h
  obtain ⟨raw, -, h⟩ := returns_bind h
  obtain ⟨sample, -, h⟩ := returns_bind h
  cases returns_pure h
  exact ⟨own, returns_liftExcept hOwn, returns_liftExcept hRequest, rfl, rfl, rfl, rfl⟩

/-- A trigger finds its items by the plan of its endpoint, and its sample is made of what the endpoint
answers. -/
theorem Trigger.ofEndpoint_shows {s : Surroundings} {e : Endpoint} {key : String}
    {config : TriggerConfig} {t : Trigger} (h : (Trigger.ofEndpoint s e key config).Returns t) :
    ArrayExtraction.ofEndpoint e config.arrayProperty = .ok t.extraction ∧
      ∃ payload, sampleOf e.successResponse? = .ok payload ∧
        triggerSample payload = .ok t.head.sample := by
  unfold ofEndpoint at h
  dsimp only at h
  obtain ⟨description, -, h⟩ := returns_bind h
  obtain ⟨own, -, h⟩ := returns_bind h
  obtain ⟨request, -, h⟩ := returns_bind h
  obtain ⟨extraction, hExtraction, h⟩ := returns_bind h
  obtain ⟨pagination, -, h⟩ := returns_bind h
  obtain ⟨payload, hPayload, h⟩ := returns_bind h
  obtain ⟨sample, hSample, h⟩ := returns_bind h
  cases returns_pure h
  exact ⟨returns_liftExcept hExtraction, payload, returns_liftExcept hPayload,
    returns_liftExcept hSample⟩

/-- A trigger has the key it was built under and the path and the method of its endpoint. Its inputs
have no dropdowns. -/
theorem Trigger.ofEndpoint_returns {s : Surroundings} {e : Endpoint} {key : String}
    {config : TriggerConfig} {t : Trigger} (h : (Trigger.ofEndpoint s e key config).Returns t) :
    t.head.key = key ∧ t.head.path = e.path ∧ t.head.request.method = e.method ∧
      t.hidden = config.hidden ∧ ∀ f ∈ t.head.inputFields, f.Plain := by
  obtain ⟨own, hOwn, hRequest, hKey, hPath, hFlag, hInputs⟩ := ofEndpoint_parts h
  obtain ⟨hMethod, -⟩ := RequestPlan.ofEndpoint_ok hRequest
  refine ⟨hKey, hPath, hMethod, hFlag, ?_⟩
  rw [hInputs]
  split
  · exact List.forall_mem_singleton.mpr ⟨rfl, rfl⟩
  · exact (Field.ofParameters_ok hOwn).plain

end IntegrationCompiler
