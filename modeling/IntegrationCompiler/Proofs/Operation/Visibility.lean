import IntegrationCompiler.Proofs.Draft.Coverage
import IntegrationCompiler.Proofs.Operation.OfEndpoint

/-!
# What is left when names are hidden

Query parameters are hidden by one list and properties of the body by another. The request plan is
thinned out place by place: a name that is hidden in the query stays in the path and in the body. The
inputs have their names only, so a hidden name takes all inputs with it. Where a query parameter has
the name of something else, hiding it leaves the plan with a name that no input is for.

Main definition: `Draft.Offers` — a draft has an input for a name.

Main results:

* `Draft.hide_start_request` — what is left of the plan of an endpoint;
* `Draft.hiding_leaves_inputs` — which names of the plan have an input then;
* `Draft.hiding_takes_other_inputs` — a path parameter and a property of the body that lose theirs.
-/

namespace IntegrationCompiler

namespace Draft

variable {scope : Scope} {d : Draft} {name : String}

/-- A draft has an input for a name. -/
def Offers (d : Draft) (name : String) : Prop :=
  ∃ f ∈ d.fields, f.key = name

theorem offers_iff : d.Offers name ↔ name ∈ d.fields.map (·.key) :=
  List.mem_map.symm

section

variable {fields : List Field} {request : RequestPlan} {sample : Value}
  {baseUrl authFieldKey : String}

/-- An endpoint starts with an input for each of its names. -/
theorem offers_start_iff (hFields : scope.endpoint.inputFields = .ok fields) :
    Draft.Offers ⟨fields, request, sample⟩ name ↔
      name ∈ scope.parameterNames ∨ name ∈ scope.endpoint.bodyNames := by
  have hNamed := Endpoint.inputFields_ok hFields
  rw [offers_iff, hNamed.keys_eq, List.mem_append, List.mem_filter]
  by_cases hParameter : name ∈ scope.endpoint.parameters.map (·.name)
  · have hShared : name ∈ scope.parameterNames := hParameter
    simp [hParameter, hShared]
  · have hAlone : name ∉ scope.parameterNames := hParameter
    simp [hParameter, hAlone]

/-- The plan of an endpoint is left with what is not hidden in its place. -/
theorem hide_start_request
    (hRequest : RequestPlan.ofEndpoint scope.endpoint baseUrl authFieldKey [] = .ok request)
    (h : Draft.hide scope ⟨fields, request, sample⟩ = d) :
    d.request.pathParams = scope.endpoint.pathParameters.map (·.name) ∧
      (∀ name, name ∈ d.request.query.params.map (·.name) ↔
        name ∈ scope.queryNames ∧ name ∉ scope.config.hideQueryParams) ∧
      ∀ name, name ∈ d.request.bodyNames ↔ name ∈ scope.endpoint.bodyNames ∧
        (name ∉ scope.config.hideRequestBodyProperties ∨ name ∈ scope.parameterNames) := by
  obtain ⟨-, hPath, hQuery, hBody, -⟩ := RequestPlan.ofEndpoint_ok hRequest
  -- no value is fixed, so the plan starts with every query parameter
  have hAll : (scope.endpoint.queryParameters.filter fun p => !Entries.has [] p.name) =
      scope.endpoint.queryParameters := List.filter_eq_self.mpr fun _ _ => rfl
  rw [hAll] at hQuery
  have hBodyNames : request.bodyNames = scope.endpoint.bodyNames := hBody
  have hPlan : d.request = request.hide scope.hiddenQuery scope.hiddenBody := by
    rw [← h, hide_request]
  rw [hPlan]
  refine ⟨hPath, fun name => ?_, fun name => ?_⟩
  · show name ∈ (request.query.params.filter fun p => !scope.hiddenQuery.contains p.name).map _ ↔ _
    rw [mem_names_of_filter, hQuery, Scope.mem_hiddenQuery_iff]
    show name ∈ scope.queryNames ∧ _ ↔ _
    exact and_congr_right fun hName => not_congr (and_iff_left hName)
  · rw [mem_bodyNames_hide, hBodyNames, Scope.mem_hiddenBody_iff, not_and_or, not_not]

/-- **What is hidden, and what goes with it.** In the draft of an endpoint from which the configured
names were taken, a query parameter is left exactly if it is not hidden, and a property of the body
exactly if it is not hidden or has the name of a parameter; parameters in the path are all left.
Every query parameter that is left has an input. A parameter in the path and a property that is left
have one exactly unless a query parameter of the same name is hidden. So all that is left has an
input exactly if no query parameter is hidden that has the name of something else that is left. -/
theorem hiding_leaves_inputs (hFields : scope.endpoint.inputFields = .ok fields)
    (hRequest : RequestPlan.ofEndpoint scope.endpoint baseUrl authFieldKey [] = .ok request)
    (h : Draft.hide scope ⟨fields, request, sample⟩ = d) :
    d.request.pathParams = scope.endpoint.pathParameters.map (·.name) ∧
      (∀ name, name ∈ d.request.query.params.map (·.name) ↔
        name ∈ scope.queryNames ∧ name ∉ scope.config.hideQueryParams) ∧
      (∀ name, name ∈ d.request.bodyNames ↔ name ∈ scope.endpoint.bodyNames ∧
        (name ∉ scope.config.hideRequestBodyProperties ∨ name ∈ scope.parameterNames)) ∧
      (∀ name ∈ d.request.query.params.map (·.name), d.Offers name) ∧
      (∀ name, name ∈ d.request.pathParams ∨ name ∈ d.request.bodyNames →
        (d.Offers name ↔ ¬ (name ∈ scope.queryNames ∧ name ∈ scope.config.hideQueryParams))) ∧
      ((∀ name, name ∈ d.request.parameterNames ∨ name ∈ d.request.bodyNames → d.Offers name) ↔
        ∀ name ∈ scope.config.hideQueryParams, name ∈ scope.queryNames →
          name ∉ d.request.pathParams ∧ name ∉ d.request.bodyNames) := by
  obtain ⟨hPath, hQuery, hBody⟩ := hide_start_request hRequest h
  have hParameter : ∀ name, name ∈ scope.parameterNames ↔
      name ∈ d.request.pathParams ∨ name ∈ scope.queryNames := fun name => by
    rw [hPath]
    exact Endpoint.mem_parameter_names
  have hOffers : ∀ name, d.Offers name ↔
      (name ∈ scope.parameterNames ∨ name ∈ scope.endpoint.bodyNames) ∧
        name ∉ scope.hiddenQuery ∧ name ∉ scope.hiddenBody := fun name => by
    rw [← offers_start_iff hFields, ← h, offers_iff,
      mem_keys_hide (Endpoint.inputFields_ok hFields).children_eq, ← offers_iff]
  -- what the query keeps is hidden by neither list
  have hLeft : ∀ name ∈ d.request.query.params.map (·.name), d.Offers name := by
    intro name hName
    obtain ⟨hInQuery, hShown⟩ := (hQuery name).mp hName
    have hShared := (hParameter name).mpr (Or.inr hInQuery)
    refine (hOffers name).mpr ⟨Or.inl hShared, fun hHidden => ?_, fun hHidden => ?_⟩
    · exact hShown (Scope.mem_hiddenQuery_iff.mp hHidden).1
    · exact (Scope.mem_hiddenBody_iff.mp hHidden).2 hShared
  have hBeside : ∀ name, name ∈ d.request.pathParams ∨ name ∈ d.request.bodyNames →
      (d.Offers name ↔ ¬ (name ∈ scope.queryNames ∧ name ∈ scope.config.hideQueryParams)) := by
    intro name hName
    -- a name in two places loses its input with the one of them that is in the query
    rw [hOffers, Scope.mem_hiddenQuery_iff, and_comm (a := name ∈ scope.config.hideQueryParams)]
    refine ⟨fun hOffered => hOffered.2.1, fun hShown => ⟨?_, hShown, fun hHidden => ?_⟩⟩
    · exact hName.imp (fun hIn => (hParameter name).mpr (Or.inl hIn))
        fun hIn => ((hBody name).mp hIn).1
    · -- what is hidden in the body is no parameter, and so not left
      obtain ⟨hListed, hAlone⟩ := Scope.mem_hiddenBody_iff.mp hHidden
      rcases hName with hIn | hIn
      · exact hAlone ((hParameter name).mpr (Or.inl hIn))
      · exact ((hBody name).mp hIn).2.elim (fun hUnlisted => hUnlisted hListed) hAlone
  refine ⟨hPath, hQuery, hBody, hLeft, hBeside, ?_⟩
  constructor
  · intro hAll name hListed hInQuery
    have hLost : ¬ (name ∈ d.request.pathParams ∨ name ∈ d.request.bodyNames) := by
      intro hName
      have hOffered := hAll name (hName.imp_left fun hIn => List.mem_append_left _ hIn)
      exact (hBeside name hName).mp hOffered ⟨hInQuery, hListed⟩
    exact not_or.mp hLost
  · intro hApart name hName
    by_cases hInQuery : name ∈ d.request.query.params.map (·.name)
    · exact hLeft name hInQuery
    · have hElsewhere : name ∈ d.request.pathParams ∨ name ∈ d.request.bodyNames :=
        hName.imp_left fun hIn => (List.mem_append.mp hIn).resolve_right hInQuery
      refine (hBeside name hElsewhere).mpr fun ⟨hIn, hListed⟩ => ?_
      obtain ⟨hNoPath, hNoBody⟩ := hApart name hListed hIn
      exact hElsewhere.elim hNoPath hNoBody

end

/-! ## One name in two places -/

/-- An item is edited, with a name that is in the path and in the query and another one that is in
the query and in the body. -/
def editItem : Endpoint where
  path := "/items/{id}"
  method := .post
  parameters := [{ name := "id", location := .path, required := true },
    { name := "id", location := .query }, { name := "note", location := .query },
    { name := "page", location := .query }]
  requestBody := some { schema := some [(.str "properties", .object [
    ("note", .object [("type", .str "string")]),
    ("text", .object [("type", .str "string")])])] }

/-- The action of that endpoint, with names that it hides. -/
def editItemHiding (query body : List String) : Scope where
  key := "edit_item"
  endpoint := editItem
  config := { hideQueryParams := query, hideRequestBodyProperties := body }

/-- Hiding names that nothing else has, in the query, or that a parameter shares, in the body, leaves
an input for everything. -/
theorem hiding_leaves_inputs_editItem : ∃ fields request d,
    editItem.inputFields = .ok fields ∧
    RequestPlan.ofEndpoint editItem "" "access_token" [] = .ok request ∧
    Draft.hide (editItemHiding ["page"] ["text", "note"]) ⟨fields, request, .null⟩ = d ∧
    "note" ∈ d.request.bodyNames ∧ "text" ∉ d.request.bodyNames ∧
    ∀ name, name ∈ d.request.parameterNames ∨ name ∈ d.request.bodyNames → d.Offers name := by
  let scope := editItemHiding ["page"] ["text", "note"]
  obtain ⟨fields, hFields⟩ : ∃ fields, scope.endpoint.inputFields = .ok fields :=
    ⟨_, by with_unfolding_all rfl⟩
  obtain ⟨request, hRequest⟩ : ∃ request,
      RequestPlan.ofEndpoint scope.endpoint "" "access_token" [] = .ok request :=
    ⟨_, by with_unfolding_all rfl⟩
  obtain ⟨hPath, -, hBody, -, -, hAll⟩ :=
    hiding_leaves_inputs hFields hRequest (Eq.refl (Draft.hide scope ⟨fields, request, .null⟩))
  refine ⟨fields, request, _, hFields, hRequest, rfl, ?_, ?_, ?_⟩
  · exact (hBody "note").mpr (by decide)
  · exact fun hText => absurd ((hBody "text").mp hText) (by decide)
  · refine hAll.mpr fun name hListed _ => ?_
    cases List.mem_singleton.mp hListed
    constructor
    · rw [hPath]
      decide
    · exact fun hPage => absurd ((hBody "page").mp hPage) (by decide)

/-- **What is hidden in the query takes inputs of other places along.** The plan is left with a
parameter in the path and with a property of the body that have no input any more. -/
theorem hiding_takes_other_inputs : ∃ fields request d,
    editItem.inputFields = .ok fields ∧
    RequestPlan.ofEndpoint editItem "" "access_token" [] = .ok request ∧
    Draft.hide (editItemHiding ["id", "note"] []) ⟨fields, request, .null⟩ = d ∧
    "id" ∈ d.request.pathParams ∧ ¬ d.Offers "id" ∧
    "note" ∈ d.request.bodyNames ∧ ¬ d.Offers "note" := by
  refine ⟨_, _, _, by with_unfolding_all rfl, by with_unfolding_all rfl, rfl, ?_, ?_, ?_, ?_⟩
  · with_unfolding_all decide
  · rw [offers_iff]
    with_unfolding_all decide
  · with_unfolding_all decide
  · rw [offers_iff]
    with_unfolding_all decide

end Draft

end IntegrationCompiler
