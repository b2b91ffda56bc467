import IntegrationCompiler.Proofs.Operation.Triggers

/-!
# The actions of endpoints

Every selected endpoint becomes an action unless that is omitted, or another endpoint has taken its
key: without an operation id the key comes from the path alone, so two methods of one path share it.

* `Operation.actsOn` — an action with the path and the method of an endpoint;
* `first_endpoint_has_action` — the first endpoint with a key has the only action with that key;
* `endpoint_without_action` — a later one has none, even if all operation ids differ.
-/

namespace IntegrationCompiler

open Logged

/-- Whether an operation is an action with the path and the method of an endpoint. -/
def Operation.actsOn (e : Endpoint) : Operation → Bool
  | .action a => a.head.path == e.path && a.head.request.method == e.method
  | .trigger _ => false

section

variable {document : ApiDocument} {config : GeneratorConfig} {onlyPath : Option String}
  {operations : List Operation}

namespace Compiles

variable {hidden : List (String × Trigger)} {selected : List Endpoint}

/-- The first endpoint with a key has an action. -/
theorem exists_action (h : Compiles document config onlyPath hidden selected operations)
    {before after : List Endpoint} {e : Endpoint} (hSplit : selected = before ++ e :: after)
    (hKept : (config.action e.actionKey).isOmitted = false)
    (hFirst : ∀ e' ∈ before, e'.actionKey ≠ e.actionKey) :
    ∃ a, .action a ∈ operations ∧
      (Action.ofEndpoint ⟨document, config, hidden⟩ e e.actionKey).Returns a := by
  -- of what the endpoint yields, the action comes first
  have hOrigins : ∃ rest, config.origins e = .action e :: rest := by
    unfold GeneratorConfig.origins
    rw [if_neg (by rw [hKept]; exact Bool.false_ne_true)]
    exact ⟨_, rfl⟩
  obtain ⟨rest, hRest⟩ := hOrigins
  have hAll : config.allOrigins document selected = before.flatMap config.origins ++
      .action e :: (rest ++ after.flatMap config.origins ++ config.hiddenOrigins document) := by
    unfold GeneratorConfig.allOrigins
    rw [hSplit, List.flatMap_append, List.flatMap_cons, hRest]
    simp only [List.append_assoc, List.cons_append]
  have hEarlier : ∀ o ∈ before.flatMap config.origins, o.id ≠ (Origin.action e).id := by
    intro o ho hSame
    obtain ⟨e', he', hMem⟩ := List.mem_flatMap.mp ho
    cases o with
    | action e'' =>
      obtain ⟨rfl, -⟩ := action_mem_origins.mp hMem
      exact hFirst e'' he' (congrArg Prod.snd hSame)
    | trigger => cases hSame
  have hMem : .action e ∈ Origin.firsts [] (config.allOrigins document selected) := by
    rw [hAll]
    exact Origin.mem_firsts_of_first List.not_mem_nil hEarlier
  obtain ⟨o, ho, hBuilds⟩ := exists_right_of_mem h.builds hMem
  cases hBuilds with
  | action ha => exact ⟨_, ho, ha⟩

/-- Every action is what a selected endpoint becomes. -/
theorem endpoint_of_action (h : Compiles document config onlyPath hidden selected operations)
    {a : Action} (ha : .action a ∈ operations) :
    ∃ e ∈ selected, (Action.ofEndpoint ⟨document, config, hidden⟩ e e.actionKey).Returns a := by
  obtain ⟨origin, hOrigin, hBuilds⟩ := exists_left_of_mem h.builds ha
  cases hBuilds with
  | action hBuilt =>
    exact ⟨_, (action_mem_allOrigins.mp (Origin.mem_of_mem_firsts hOrigin).1).1, hBuilt⟩

/-- An action with the path and the method of an endpoint has its key, if no other selected endpoint
has both. -/
theorem id_of_actsOn (h : Compiles document config onlyPath hidden selected operations)
    {e : Endpoint} {o : Operation}
    (hOnly : ∀ e' ∈ selected, e'.path = e.path → e'.method = e.method → e' = e)
    (ho : o ∈ operations) (hActs : Operation.actsOn e o = true) :
    o.id = (.action, e.actionKey) := by
  cases o with
  | trigger t => cases hActs
  | action a =>
    rw [Operation.actsOn, Bool.and_eq_true] at hActs
    obtain ⟨e', he', hBuilt⟩ := h.endpoint_of_action ho
    obtain ⟨hKey, hPath, hMethod⟩ := Action.ofEndpoint_head hBuilt
    have hSame : e' = e := hOnly e' he' (hPath.symm.trans (eq_of_beq hActs.1))
      (hMethod.symm.trans (eq_of_beq hActs.2))
    rw [← hSame]
    exact congrArg (OperationKind.action, ·) hKey

end Compiles

/-- **A selected endpoint whose action is not omitted has exactly one action**, with its path and
its method, if no endpoint before it has its key. It is the only action with this path and this
method, if no other selected endpoint has both. -/
theorem first_endpoint_has_action (h : (compile document config onlyPath).run.1 = .ok operations) :
    ∃ selected, selectEndpoints document onlyPath = .ok selected ∧
      ∀ before e after, selected = before ++ e :: after →
        (config.action e.actionKey).isOmitted = false →
        (∀ e' ∈ before, e'.actionKey ≠ e.actionKey) →
        ∃ a, a.head.path = e.path ∧ a.head.request.method = e.method ∧
          operations.filter (fun o => o.id == (.action, e.actionKey)) = [.action a] ∧
          ((∀ e' ∈ before ++ after, e'.path = e.path → e'.method ≠ e.method) →
            operations.filter (Operation.actsOn e) = [.action a]) := by
  obtain ⟨hidden, selected, hCompiles⟩ := compile_returns (returns_of_run h)
  refine ⟨selected, hCompiles.selected_eq, fun before e after hSplit hKept hFirst => ?_⟩
  obtain ⟨a, ha, hBuilt⟩ := hCompiles.exists_action hSplit hKept hFirst
  obtain ⟨hKey, hPath, hMethod⟩ := Action.ofEndpoint_head hBuilt
  have hId : (Operation.action a).id = (.action, e.actionKey) :=
    congrArg (OperationKind.action, ·) hKey
  refine ⟨a, hPath, hMethod, hId ▸ hCompiles.filter_id ha, fun hOther => ?_⟩
  have hActs : Operation.actsOn e (.action a) = true := by
    rw [Operation.actsOn, Bool.and_eq_true]
    exact ⟨beq_iff_eq.mpr hPath, beq_iff_eq.mpr hMethod⟩
  have hAlone : ∀ e' ∈ selected, e'.path = e.path → e'.method = e.method → e' = e := by
    intro e' he' hSamePath hSameMethod
    rw [hSplit, List.mem_append, List.mem_cons] at he'
    rcases he' with hBefore | hHere | hAfter
    · exact absurd hSameMethod (hOther e' (List.mem_append_left _ hBefore) hSamePath)
    · exact hHere
    · exact absurd hSameMethod (hOther e' (List.mem_append_right _ hAfter) hSamePath)
  refine filter_eq_singleton (List.Nodup.of_map _ hCompiles.nodup_ids) ha hActs fun o ho hToo => ?_
  have hSameId : o.id = (Operation.action a).id := by
    rw [hId]
    exact hCompiles.id_of_actsOn hAlone ho hToo
  exact List.inj_on_of_nodup_map hCompiles.nodup_ids ho ha hSameId

end

/-- Items that can be listed, added and cleared. Only the addition has an operation id. -/
def itemsWithoutIds : ApiDocument where
  endpoints := [
    { path := "/items", method := .get },
    { path := "/items", method := .post, operationId := some "add_item" },
    { path := "/items", method := .delete }]

theorem first_endpoint_has_action_itemsWithoutIds : ∃ operations a,
    (compile itemsWithoutIds {} (some "/items")).run.1 = .ok operations ∧
    a.head.request.method = .post ∧ operations.length = 2 ∧
    operations.filter (fun o => o.id == (.action, "add_item")) = [.action a] ∧
    operations.filter (Operation.actsOn { path := "/items", method := .post }) = [.action a] := by
  obtain ⟨operations, h, hLength⟩ : ∃ operations,
      (compile itemsWithoutIds {} (some "/items")).run.1 = .ok operations ∧ operations.length = 2 :=
    ⟨_, rfl, rfl⟩
  obtain ⟨selected, hSelected, hActions⟩ := first_endpoint_has_action h
  cases hSelected
  obtain ⟨a, -, hMethod, hKey, hOnly⟩ := hActions
    [{ path := "/items", method := .get }]
    { path := "/items", method := .post, operationId := some "add_item" }
    [{ path := "/items", method := .delete }] rfl rfl (by decide)
  exact ⟨operations, a, h, hMethod, hLength, hKey, hOnly (by decide)⟩

/-- Not every selected endpoint has an action, even if all operation ids that are present differ:
the last one of `itemsWithoutIds` shares its key with the first. -/
theorem endpoint_without_action :
    ¬ ∀ (document : ApiDocument) (config : GeneratorConfig) (onlyPath : Option String)
        (operations : List Operation) (selected : List Endpoint),
      (document.endpoints.filterMap (·.operationId)).Nodup →
      (compile document config onlyPath).run.1 = .ok operations →
      selectEndpoints document onlyPath = .ok selected →
      ∀ e ∈ selected, (config.action e.actionKey).isOmitted = false →
        ∃ a, operations.filter (Operation.actsOn e) = [.action a] := by
  intro hAlways
  obtain ⟨operations, h, hNone⟩ : ∃ operations,
      (compile itemsWithoutIds {} none).run.1 = .ok operations ∧
      operations.filter (Operation.actsOn { path := "/items", method := .delete }) = [] :=
    ⟨_, rfl, rfl⟩
  obtain ⟨a, ha⟩ := hAlways itemsWithoutIds {} none operations itemsWithoutIds.endpoints
    (by decide) h rfl { path := "/items", method := .delete }
    (by simp [itemsWithoutIds]) rfl
  rw [hNone] at ha
  cases ha

end IntegrationCompiler
