import IntegrationCompiler.Proofs.Draft.Failures
import IntegrationCompiler.Proofs.Operation.Yields

/-!
# Why a compilation may fail

A compilation fails because no endpoint has the path that was asked for, or because an action or a
trigger cannot be built. Each of these is traced to the part that failed.

* `error_of_requestPlan`, `Endpoint.ListUnnamed` — why a request or an answer cannot be planned;
* `Endpoint.ready` — the draft of an endpoint is ready for the stages;
* `Action.Stops`, `Action.ofEndpoint_fails` — why an action cannot be built;
* `Trigger.Stops`, `Trigger.ofEndpoint_fails` — why a trigger cannot be built;
* `CompileStops`, `compile_fails` — why a compilation fails.
-/

namespace IntegrationCompiler

open Logged

/-! ## Parts of operations -/

section

variable {e : Endpoint} {failure : Failure}

/-- A request cannot be planned because a property of the body has no plan. -/
theorem error_of_requestPlan {s : Surroundings} {fixed : Entries}
    (h : s.requestPlan e fixed = .error failure) : ∃ b ∈ e.requestBody,
      ∃ p ∈ Schema.properties (.optionalEntries b.schema), propertyPlan p.1 p.2 = .error failure := by
  unfold Surroundings.requestPlan RequestPlan.ofEndpoint at h
  dsimp only at h
  split at h
  · cases h
  · next b hBody =>
    rcases error_of_bind h with hPlans | ⟨plans, -, h⟩
    · obtain ⟨p, hp, hPlan⟩ := error_of_mapM hPlans
      exact ⟨b, hBody, p, hp, hPlan⟩
    · cases h

theorem error_of_nameOfKey? {field : String} {key : Option Scalar}
    (h : nameOfKey? field key = .error failure) : ∃ k ∈ key,
      (((Value.scalar k).asText.under (.key field)).orFail : Except Failure String) =
        .error failure := by
  unfold nameOfKey? at h
  split at h
  · cases h
  · next k hFound =>
    refine ⟨k, (Option.filter_eq_some_iff.mp hFound).1, ?_⟩
    rcases error_of_bind h with hName | ⟨name, -, h⟩
    · exact hName
    · cases h

/-- The list in an answer is under a key that cannot be its name. -/
def Endpoint.ListUnnamed (e : Endpoint) (failure : Failure) : Prop :=
  ∃ es, e.successSchema? = some es ∧ ∃ k ∈ Schema.arrayProperty? (.map es), ∃ field : String,
    (((Value.scalar k).asText.under (.key field)).orFail : Except Failure String) = .error failure

theorem ResponsePlan.ofEndpoint_fails {noun : String} {simplify : Option SimplifyConfig}
    (h : (ResponsePlan.ofEndpoint e noun simplify).Fails failure) : e.ListUnnamed failure := by
  unfold ofEndpoint at h
  split at h
  · exact absurd h not_fails_pure
  split at h
  · exact absurd (fails_after_remark h) not_fails_pure
  next es hSchema =>
  dsimp only at h
  split at h
  · exact absurd h not_fails_pure
  split at h
  · split at h
    · split at h
      · rcases fails_bind h with hPure | ⟨name, -, h⟩
        · exact absurd hPure not_fails_pure
        · exact absurd h not_fails_pure
      · rcases fails_bind h with hName | ⟨name, -, h⟩
        -- The list is found in the schema, and its key is no text.
        · obtain ⟨k, hk, hText⟩ := error_of_nameOfKey? (fails_liftExcept hName)
          exact ⟨es, hSchema, k, (Option.filter_eq_some_iff.mp hk).1, _, hText⟩
        · exact absurd h not_fails_pure
    · exact absurd h not_fails_pure
  · exact absurd h not_fails_pure

theorem ArrayExtraction.error_of_ofEndpoint {arrayProperty : Option String}
    (h : ArrayExtraction.ofEndpoint e arrayProperty = .error failure) : e.ListUnnamed failure := by
  unfold ofEndpoint at h
  split at h
  · cases h
  · cases h
  · next es _ hSchema =>
    rcases error_of_bind h with hName | ⟨name, -, h⟩
    · obtain ⟨k, hk, hText⟩ := error_of_nameOfKey? hName
      exact ⟨es, hSchema, k, hk, _, hText⟩
    · split at h
      · cases h
      · split at h <;> cases h

end

/-! ## Actions -/

section

variable {s : Surroundings} {e : Endpoint} {key : String} {failure : Failure}

/-- The draft of an endpoint is ready for the stages. -/
theorem Endpoint.ready {fields : List Field} {request : RequestPlan} (raw : Value)
    (hFields : e.inputFields = .ok fields) (hRequest : s.requestPlan e [] = .ok request) :
    Draft.Ready (s.scope e key) 0 ⟨fields, request, raw⟩ := by
  have hNamed := Endpoint.inputFields_ok hFields
  obtain ⟨-, -, -, hBody, hUnshaped⟩ := RequestPlan.ofEndpoint_ok hRequest
  refine Draft.ready_of_fresh ?_ (fun f hf => ⟨hNamed.children_eq f hf, ?_⟩)
    fun body hMem => (hUnshaped body hMem).1
  · obtain ⟨parameters, hParameters, h⟩ := ok_of_bind hFields
    obtain ⟨properties, hProperties, h⟩ := ok_of_bind h
    cases h
    exact Field.throughout_append.mpr
      ⟨Field.ofParameters_shaped hParameters, Field.ofProperties_shaped hProperties⟩
  · have hKey : f.key ∈ fields.map (·.key) := List.mem_map_of_mem hf
    rw [hNamed.keys_eq, List.mem_append] at hKey
    refine hKey.imp id fun hProperty => ?_
    exact (show request.bodyNames = e.bodyNames from hBody) ▸ List.mem_of_mem_filter hProperty

/-- Why the action of an endpoint cannot be built. -/
inductive Action.Stops (s : Surroundings) (e : Endpoint) (key : String) : Failure → Prop where
  | inputs {failure : Failure} : e.inputFields = .error failure → Stops s e key failure
  | request {failure : Failure} : s.requestPlan e [] = .error failure → Stops s e key failure
  | response {failure : Failure} {simplify : Option SimplifyConfig} :
    (ResponsePlan.ofEndpoint e e.noun simplify).Fails failure → Stops s e key failure
  | payload {failure : Failure} : sampleOf e.successResponse? = .error failure →
    Stops s e key failure
  | stages {failure : Failure} : (s.scope e key).Stops failure → Stops s e key failure
  | sample {failure : Failure} {fields : List Field} {request : RequestPlan} {raw : Value}
    {d : Draft} : sampleOf e.successResponse? = .ok raw →
    (Draft.refine (s.scope e key) ⟨fields, request, raw⟩).Returns d →
    actionSample d.sample = .error failure → Stops s e key failure

theorem Action.ofEndpoint_fails (hGroup : (s.scope e key).GroupApart)
    (h : (Action.ofEndpoint s e key).Fails failure) : Action.Stops s e key failure := by
  unfold ofEndpoint at h
  dsimp only at h
  rcases fails_bind h with hInputs | ⟨fields, hInputs, h⟩
  · exact .inputs (fails_liftExcept hInputs)
  rcases fails_bind h with hRequest | ⟨request, hRequest, h⟩
  · exact .request (fails_liftExcept hRequest)
  rcases fails_bind h with hResponse | ⟨response, -, h⟩
  · exact .response hResponse
  have hReady (raw : Value) : Draft.Ready (s.scope e key) 0 ⟨fields, request, raw⟩ :=
    Endpoint.ready raw (returns_liftExcept hInputs) (returns_liftExcept hRequest)
  split at h
  · -- an action without content has a fixed sample
    rcases fails_bind h with hPure | ⟨raw, -, h⟩
    · exact absurd hPure not_fails_pure
    rcases fails_bind h with hStages | ⟨d, -, h⟩
    · exact .stages (Draft.refine_fails hGroup (hReady raw) hStages)
    rcases fails_bind h with hPure | ⟨sample, -, h⟩
    · exact absurd hPure not_fails_pure
    · exact absurd h not_fails_pure
  · rcases fails_bind h with hPayload | ⟨raw, hRaw, h⟩
    · exact .payload (fails_liftExcept hPayload)
    rcases fails_bind h with hStages | ⟨d, hd, h⟩
    · exact .stages (Draft.refine_fails hGroup (hReady raw) hStages)
    rcases fails_bind h with hSample | ⟨sample, -, h⟩
    · exact .sample (returns_liftExcept hRaw) hd (fails_liftExcept hSample)
    · exact absurd h not_fails_pure

end

/-! ## Triggers -/

/-- Why a trigger cannot be built for an endpoint. -/
inductive Trigger.Stops (s : Surroundings) (e : Endpoint) (key : String) (c : TriggerConfig) :
    Failure → Prop where
  | title {failure : Failure} : c.describe key = .error failure → Stops s e key c failure
  | inputs {failure : Failure} :
    Field.ofParameters e.parameters (Entries.names c.queryParams) = .error failure →
    Stops s e key c failure
  | request {failure : Failure} : s.requestPlan e c.queryParams = .error failure →
    Stops s e key c failure
  | extraction {failure : Failure} :
    ArrayExtraction.ofEndpoint e c.arrayProperty = .error failure → Stops s e key c failure
  | paging {failure : Failure} : c.hidden = false →
    pageSizeOf (Entries.getOrNull c.queryParams "limit") = .error failure → Stops s e key c failure
  | payload {failure : Failure} : sampleOf e.successResponse? = .error failure →
    Stops s e key c failure
  | sample {failure : Failure} {raw : Value} : sampleOf e.successResponse? = .ok raw →
    triggerSample raw = .error failure → Stops s e key c failure

section

variable {s : Surroundings} {e : Endpoint} {key : String} {c : TriggerConfig} {failure : Failure}

theorem PaginationPlan.ofEndpoint?_fails {extraction : ArrayExtraction} {hidden : Bool}
    {fixed : Entries} (h : (PaginationPlan.ofEndpoint? e extraction hidden fixed).Fails failure) :
    hidden = false ∧ pageSizeOf (Entries.getOrNull fixed "limit") = .error failure := by
  unfold ofEndpoint? at h
  dsimp only at h
  split at h
  · exact absurd h not_fails_pure
  · next hPages =>
    rcases fails_bind h with hSize | ⟨size, -, h⟩
    · refine ⟨?_, fails_liftExcept hSize⟩
      -- A hidden trigger has no pages, so no size is computed for it.
      cases hidden with
      | false => rfl
      | true => simp at hPages
    · exact absurd (fails_after_remark h) not_fails_pure

theorem Trigger.ofEndpoint_fails (h : (Trigger.ofEndpoint s e key c).Fails failure) :
    Trigger.Stops s e key c failure := by
  unfold ofEndpoint at h
  dsimp only at h
  rcases fails_bind h with hTitle | ⟨description, -, h⟩
  · exact .title (fails_liftExcept hTitle)
  rcases fails_bind h with hInputs | ⟨own, -, h⟩
  · exact .inputs (fails_liftExcept hInputs)
  rcases fails_bind h with hRequest | ⟨request, -, h⟩
  · exact .request (fails_liftExcept hRequest)
  rcases fails_bind h with hExtraction | ⟨extraction, -, h⟩
  · exact .extraction (fails_liftExcept hExtraction)
  rcases fails_bind h with hPaging | ⟨pagination, -, h⟩
  · obtain ⟨hShown, hSize⟩ := PaginationPlan.ofEndpoint?_fails hPaging
    exact .paging hShown hSize
  rcases fails_bind h with hPayload | ⟨raw, hRaw, h⟩
  · exact .payload (fails_liftExcept hPayload)
  rcases fails_bind h with hSample | ⟨sample, -, h⟩
  · exact .sample (returns_liftExcept hRaw) (fails_liftExcept hSample)
  · exact absurd h not_fails_pure

end

/-! ## The whole compilation -/

/-- Why a compilation fails. -/
inductive CompileStops (document : ApiDocument) (config : GeneratorConfig)
    (onlyPath : Option String) : Failure → Prop where
  | select {failure : Failure} : selectEndpoints document onlyPath = .error failure →
    CompileStops document config onlyPath failure
  | action {failure : Failure} {e : Endpoint} {hidden : List (String × Trigger)} :
    e ∈ document.endpoints →
    (Action.ofEndpoint ⟨document, config, hidden⟩ e e.actionKey).Fails failure →
    CompileStops document config onlyPath failure
  | trigger {failure : Failure} {e : Endpoint} {key : String} {c : TriggerConfig}
    {hidden : List (String × Trigger)} : e ∈ document.endpoints → (key, c) ∈ config.triggers →
    (Trigger.ofEndpoint ⟨document, config, hidden⟩ e key c).Fails failure →
    CompileStops document config onlyPath failure

section

variable {document : ApiDocument} {config : GeneratorConfig} {onlyPath : Option String}
  {hidden : List (String × Trigger)} {failure : Failure}

theorem hiddenTriggers_fails
    (h : (Surroundings.hiddenTriggers ⟨document, config, hidden⟩).Fails failure) :
    CompileStops document config onlyPath failure := by
  obtain ⟨⟨key, c⟩, hMem, hStep⟩ := fails_filterMapM h
  dsimp only at hStep
  split at hStep
  · exact absurd hStep not_fails_pure
  · split at hStep
    · exact absurd hStep not_fails_pure
    · next e he =>
      rcases fails_bind hStep with hBuild | ⟨t, -, hStep⟩
      · exact .trigger (endpoint?_eq_some he).1 hMem hBuild
      · exact absurd hStep not_fails_pure

theorem yield_fails {selected : List Endpoint} {origin : Origin}
    (hSelected : ∀ e ∈ selected, e ∈ document.endpoints)
    (hOrigin : origin ∈ selected.flatMap config.origins)
    (h : (Surroundings.yield ⟨document, config, hidden⟩ origin).Fails failure) :
    CompileStops document config onlyPath failure := by
  obtain ⟨e, he, hMem⟩ := List.mem_flatMap.mp hOrigin
  cases origin with
  | action e' =>
    obtain ⟨rfl, -⟩ := action_mem_origins.mp hMem
    exact .action (hSelected _ he) (fails_map h)
  | trigger e' key c =>
    obtain ⟨rfl, -, -, hConfigured, -⟩ := trigger_mem_origins.mp hMem
    dsimp only [Surroundings.yield, Surroundings.triggerFor] at h
    split at h
    · exact absurd h not_fails_pure
    · exact .trigger (hSelected _ he) hConfigured (fails_map h)

/-- The triggers that were built before all operations are emitted without failing. -/
theorem emitHidden_fails {s : Surroundings} {p : Progress} : ¬ (s.emitHidden p).Fails failure := by
  intro h
  obtain ⟨-, ⟨key, t⟩, -, p', -, -, hStep⟩ := fails_foldlM h
  dsimp only [Progress.emit] at hStep
  split at hStep
  · exact not_fails_pure hStep
  · rcases fails_bind hStep with hPure | ⟨o, -, hStep⟩
    · exact not_fails_pure hPure
    · exact not_fails_pure hStep

/-- **Why a compilation fails**: the path is not there, or an action of an endpoint or a configured
trigger cannot be built. -/
theorem compile_fails (h : (compile document config onlyPath).Fails failure) :
    CompileStops document config onlyPath failure := by
  unfold compile at h
  rcases fails_bind h with hHidden | ⟨hidden, -, h⟩
  · exact hiddenTriggers_fails hHidden
  rcases fails_bind h with hSelect | ⟨selected, hSelected, h⟩
  · exact .select (fails_liftExcept hSelect)
  rcases fails_bind h with hWalk | ⟨p, -, h⟩
  · -- the walk is one over origins, one of which does not yield its operation
    have hOrigins := (Surroundings.emitOrigins_agrees _ _).fails
      ((Surroundings.walk_agrees selected _).fails hWalk)
    rcases fails_bind hOrigins with hYields | ⟨new, -, hPure⟩
    · obtain ⟨origin, hOrigin, hYield⟩ := fails_mapM hYields
      exact yield_fails (selectEndpoints_subset (returns_liftExcept hSelected))
        (Origin.mem_of_mem_firsts hOrigin).1 hYield
    · exact absurd hPure not_fails_pure
  rcases fails_bind h with hTail | ⟨p, -, h⟩
  · exact absurd hTail emitHidden_fails
  rcases fails_bind h with hWarn | ⟨-, -, h⟩
  · exact absurd ((Surroundings.warnUnreachable_agrees _).fails hWarn) not_fails_pure
  · exact absurd (fails_after_remark h) not_fails_pure

end

end IntegrationCompiler
