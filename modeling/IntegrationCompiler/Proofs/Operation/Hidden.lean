import IntegrationCompiler.Proofs.Draft.Hidden
import IntegrationCompiler.Proofs.Operation.Coverage

/-!
# Hidden properties and requests

A property of the body that an action hides does not reach its request, under no inputs at all: not
in the body, and not in the item of a flattened list.

* `withheld_of_isBuiltFor` — the plan of the action withholds the property;
* `hidden_properties_stay_out` — neither the body nor its item has an entry for it.
-/

namespace IntegrationCompiler

open Logged

section

variable {document : ApiDocument} {config : GeneratorConfig} {onlyPath : Option String}
  {operations : List Operation} {e : Endpoint}

/-- The plan of an action withholds what its configuration hides, unless a parameter has the name or
the configuration asks for it elsewhere. -/
theorem withheld_of_isBuiltFor {a : Action} {name : String}
    (hBuilt : a.IsBuiltFor document config e)
    (hHidden : name ∈ (config.action e.actionKey).hideRequestBodyProperties)
    (hParameter : name ∉ e.parameters.map (·.name))
    (hFlattened : ∀ flatten ∈ (config.action e.actionKey).simplified?.bind (·.flattenArray),
      flatten.arrayField ≠ name)
    (hHelper : ∀ entry ∈ (config.action e.actionKey).helperFields, entry.2.mapTo ≠ name) :
    ∀ b ∈ a.head.request.body, b.Withholds name := by
  obtain ⟨hidden, hReturns⟩ := hBuilt
  obtain ⟨fields, request, raw, d, -, hRequest, hd, -, -, -, hPlan⟩ :=
    Action.ofEndpoint_returns hReturns
  obtain ⟨-, -, -, -, hUnshaped⟩ := RequestPlan.ofEndpoint_ok hRequest
  have hName : (Surroundings.scope ⟨document, config, hidden⟩ e e.actionKey).Withholds name :=
    ⟨hHidden, hParameter, hFlattened, hHelper⟩
  rw [hPlan]
  exact Draft.refine_withholds hName hUnshaped hd

/-- **Hidden properties stay out of the request.** Take a property of the body that an action hides.
No parameter has its name, it is not the list that is flattened, and no helper is meant for it. Then
no property of the plan has its name, and whatever the inputs are, the body has no entry with that
name and neither has the item. The item stands in its list, unless helpers replace that. -/
theorem hidden_properties_stay_out
    (h : (compile document config onlyPath).run.1 = .ok operations) :
    ∀ a, .action a ∈ operations →
      (∃ e ∈ document.endpoints, a.IsBuiltFor document config e) ∧
      ∀ e, a.IsBuiltFor document config e →
        ∀ name ∈ (config.action e.actionKey).hideRequestBodyProperties,
        name ∉ e.parameters.map (·.name) →
        (∀ flatten ∈ (config.action e.actionKey).simplified?.bind (·.flattenArray),
          flatten.arrayField ≠ name) →
        (∀ entry ∈ (config.action e.actionKey).helperFields, entry.2.mapTo ≠ name) →
        (∀ inputs auth body, (a.head.request.build inputs auth).jsonBody = .map body →
          Entries.has body name = false) ∧
        ∀ b ∈ a.head.request.body, name ∉ b.propertyNames ∧
          ∀ flatten ∈ b.flatten, name ∉ flatten.itemProperties.map (·.name) ∧
            ∀ inputs, Entries.has (b.item flatten inputs) name = false ∧
              (Entries.get? (b.build inputs) flatten.arrayField =
                  some (.list [.map (b.item flatten inputs)]) ∨
                ∃ m ∈ b.helperMerges, m.inItem = false ∧ m.target = flatten.arrayField) := by
  obtain ⟨hidden, selected, hCompiles⟩ := compile_returns (returns_of_run h)
  intro a ha
  constructor
  · obtain ⟨e, he, hBuilt⟩ := hCompiles.endpoint_of_action ha
    exact ⟨e, selectEndpoints_subset hCompiles.selected_eq e he, hidden, hBuilt⟩
  intro e hBuilt name hHidden hParameter hFlattened hHelper
  have hWithheld := withheld_of_isBuiltFor hBuilt hHidden hParameter hFlattened hHelper
  constructor
  · intro inputs auth body hBody
    unfold RequestPlan.build at hBody
    dsimp only at hBody
    split at hBody
    · next b hPlan =>
      cases hBody
      exact (hWithheld b hPlan).has_build inputs
    · cases hBody
  · intro b hb
    have hPlan := hWithheld b hb
    refine ⟨hPlan.property, ?_⟩
    intro flatten hFlatten
    refine ⟨(hPlan.item flatten hFlatten).2, ?_⟩
    intro inputs
    refine ⟨hPlan.has_item hFlatten inputs, ?_⟩
    -- only a merge for the body could replace the list of the item
    by_cases hReplaced : ∃ m ∈ b.helperMerges, m.inItem = false ∧ m.target = flatten.arrayField
    · exact Or.inr hReplaced
    · refine Or.inl (BodyPlan.get?_build_arrayField hFlatten ?_)
      intro m hm hBeside hTarget
      exact hReplaced ⟨m, hm, hBeside, hTarget⟩

end

/-- Members are invited to a team, each with a token. -/
def invitations : ApiDocument where
  endpoints := [{
    path := "/teams/{team}/members"
    method := .post
    operationId := some "invite_members"
    parameters := [{ name := "team", location := .path }]
    requestBody := some { schema := some [(.str "properties", .object [
      ("members", .object [("type", .str "array")]),
      ("note", .object [("type", .str "string")]),
      ("token", .object [("type", .str "string")])])] } }]
  schemas := [(.str "Member", .object [("properties", .object [
    ("name", .object [("type", .str "string")]),
    ("token", .object [("type", .str "string")])])])]

/-- One member is invited at a time. The token is hidden, although it would be kept beside the
member. -/
def invitedWithoutToken : GeneratorConfig where
  actions := [("invite_members", {
    hideRequestBodyProperties := ["token"]
    simplify := some {
      enabled := true
      flattenArray := some
        { arrayField := "members", itemSchema := "Member", publicName := some "Member" }
      additionalProperties := ["note", "token"] } })]

/-- A token does not get through, wherever it is put. -/
theorem hidden_properties_stay_out_invitations : ∃ operations a b flatten,
    (compile invitations invitedWithoutToken none).run.1 = .ok operations ∧
    .action a ∈ operations ∧ a.head.request.body = some b ∧ b.flatten = some flatten ∧
    ∀ inputs auth body, (a.head.request.build inputs auth).jsonBody = .map body →
      Entries.has body "token" = false ∧
      Entries.has (b.item flatten inputs) "token" = false := by
  obtain ⟨operations, a, b, flatten, h, ha, hBody, hFlatten⟩ : ∃ operations a b flatten,
      (compile invitations invitedWithoutToken none).run.1 = .ok operations ∧
      .action a ∈ operations ∧ a.head.request.body = some b ∧ b.flatten = some flatten :=
    ⟨_, _, _, _, by with_unfolding_all rfl, List.mem_cons_self, by with_unfolding_all rfl,
      by with_unfolding_all rfl⟩
  obtain ⟨⟨e, he, hBuilt⟩, hAll⟩ := hidden_properties_stay_out h a ha
  cases List.mem_singleton.mp he
  obtain ⟨hOut, hPlans⟩ := hAll _ hBuilt "token" (by decide) (by decide) (by
    rintro flatten ⟨⟩
    decide) (by decide)
  obtain ⟨-, hItems⟩ := hPlans b hBody
  refine ⟨operations, a, b, flatten, h, ha, hBody, hFlatten, ?_⟩
  intro inputs auth body hSent
  exact ⟨hOut inputs auth body hSent, ((hItems flatten hFlatten).2 inputs).1⟩

end IntegrationCompiler
