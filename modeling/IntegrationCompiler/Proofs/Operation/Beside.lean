import IntegrationCompiler.Proofs.Operation.Coverage
import IntegrationCompiler.Proofs.Request.Beside

/-!
# Parameters beside a grouped item

An action that flattens a list asks for the item in a group, and for parameters of the path and of
the query beside it. A parameter may share its name with something that the body asks for. It then
reaches the body, unless the body asks for that in the group and the group has it.

* `grouped_item_shielded` — which inputs beside the group do not reach the body;
* `parameters_reach_grouped_item` — others do, even if they are parameters and no properties of the
  body.
-/

namespace IntegrationCompiler

open Logged

/-- The group of an action has a key. -/
theorem Action.groupKey_ne_empty {s : Surroundings} {e : Endpoint} {key : String} {a : Action}
    (h : (Action.ofEndpoint s e key).Returns a) {b : BodyPlan} (hBody : a.head.request.body = some b)
    {flatten : FlattenPlan} (hFlatten : b.flatten = some flatten) : flatten.groupKey ≠ some "" := by
  obtain ⟨fields, request, raw, d, -, hRequest, hd, -, -, -, hPlan⟩ := Action.ofEndpoint_returns h
  have hStart : Draft.GroupNamed ⟨fields, request, raw⟩ :=
    Draft.groupNamed_of_no_item fun b hb => ((RequestPlan.ofEndpoint_ok hRequest).2.2.2.2 b hb).1
  rw [hPlan] at hBody
  exact Draft.refine_groupNamed hStart hd b hBody flatten hFlatten

section

variable {document : ApiDocument} {config : GeneratorConfig} {onlyPath : Option String}
  {operations : List Operation}

/-- **What stands beside a grouped item does not reach the body**, if the body does not look for it
there, and if the group has it where the body looks for it in the group. So two inputs that differ
in such parameters of the path and of the query, or in anything else of that kind, make the same
body. What the group lacks is looked for beside it. -/
theorem grouped_item_shielded (h : (compile document config onlyPath).run.1 = .ok operations)
    {a : Action} (ha : .action a ∈ operations) {b : BodyPlan} (hBody : a.head.request.body = some b)
    {flatten : FlattenPlan} (hFlatten : b.flatten = some flatten) {g : String}
    (hGroup : flatten.groupKey = some g) {names : List String} {inputs inputs' : Entries}
    (hNames : ∀ name ∈ names, b.ShieldedFrom g inputs name)
    (hSame : ∀ key, key ∉ names → Entries.get? inputs key = Entries.get? inputs' key)
    (auth auth' : Entries) :
    (a.head.request.build inputs auth).jsonBody = (a.head.request.build inputs' auth').jsonBody := by
  obtain ⟨hidden, selected, hCompiles⟩ := compile_returns (returns_of_run h)
  obtain ⟨e, -, hBuilt⟩ := hCompiles.endpoint_of_action ha
  have hSome : g ≠ "" := by
    rintro rfl
    exact Action.groupKey_ne_empty hBuilt hBody hFlatten hGroup
  unfold RequestPlan.build
  rw [hBody]
  dsimp only
  rw [BodyPlan.build_beside hFlatten hGroup hSome hNames hSame]

end

/-- Transactions are added to a budget as a list. Parameters of the query have names that are found
in the body as well. -/
def budgetTransactions : ApiDocument where
  endpoints := [{
    path := "/budgets/{budget_id}/transactions"
    method := .post
    operationId := some "add_transactions"
    parameters := [
      { name := "budget_id", location := .path }, { name := "date", location := .query },
      { name := "tag", location := .query }, { name := "tag_ids", location := .query },
      { name := "labels", location := .query }, { name := "reviewer", location := .query }]
    requestBody := some { schema := some [(.str "properties", .object [
      ("transactions", .object [("type", .str "array")]),
      ("labels", .object [("type", .str "array")]),
      ("approved_by", .object [("type", .str "string")])])] } }]
  schemas := [(.str "Transaction", .object [("properties", .object [
    ("amount", .object [("type", .str "number")]),
    ("date", .object [("type", .str "string")]),
    ("tag_ids", .object [("type", .str "array")])])])]

/-- One transaction is added at a time, with a tag of its own; labels and a reviewer stand beside
it. -/
def oneTransactionAtATime : GeneratorConfig where
  actions := [("add_transactions", {
    hideQueryParams := ["reviewer"]
    hideRequestBodyProperties := ["tag_ids"]
    simplify := some {
      enabled := true
      flattenArray := some
        { arrayField := "transactions", itemSchema := "Transaction",
          publicName := some "Transaction" } }
    helperFields := [
      ("tag", { mapTo := "tag_ids", type := "integer" }),
      ("label", { mapTo := "labels", type := "integer" }),
      ("reviewer", { mapTo := "approved_by" })] })]

/-- A body with one transaction: what it has apart from its amount, and what stands beside it. -/
def oneTransaction (item beside : List (String × Value)) : Value :=
  .object (("transactions", .list [.object (("amount", .int 5) :: item)]) :: beside)

/-- The group has the date and the tags, so that those beside it do not count. -/
theorem grouped_item_shielded_budgetTransactions :
    let inputs (n : Int) : Entries := [
      (.str "budget_id", .int n), (.str "date", .int n), (.str "tag", .int n),
      (.str "tag_ids", .int n), (.str "transaction__tag_ids", .list [.int 8]),
      (.str "transaction",
        .object [("amount", .int 5), ("date", .str "2025-01-31"), ("tag", .int 3)])]
    ∃ a, (compile budgetTransactions oneTransactionAtATime none).run.1 = .ok [.action a] ∧
      (a.head.request.build (inputs 1) []).jsonBody =
        oneTransaction [("date", .str "2025-01-31"), ("tag_ids", .list [.int 8, .int 3])] [] ∧
      (a.head.request.build (inputs 1) []).jsonBody =
        (a.head.request.build (inputs 2) []).jsonBody := by
  intro inputs
  obtain ⟨a, b, flatten, h, hBody, hFlatten, hGroup, hAsked, hItem⟩ : ∃ a b flatten,
      (compile budgetTransactions oneTransactionAtATime none).run.1 = .ok [.action a] ∧
      a.head.request.body = some b ∧ b.flatten = some flatten ∧
      flatten.groupKey = some "transaction" ∧
      b.asked = [["transaction", "amount"], ["transaction", "date"], ["transaction", "tag"],
        ["label"], ["reviewer"], ["transaction", "tag_ids"], ["labels"]] ∧
      (a.head.request.build (inputs 1) []).jsonBody =
        oneTransaction [("date", .str "2025-01-31"), ("tag_ids", .list [.int 8, .int 3])] [] :=
    ⟨_, _, _, by with_unfolding_all rfl, by with_unfolding_all rfl, by with_unfolding_all rfl,
      by with_unfolding_all rfl, by with_unfolding_all rfl, by with_unfolding_all rfl⟩
  have hNames : ∀ name ∈ ["budget_id", "date", "tag", "tag_ids"],
      b.ShieldedFrom "transaction" (inputs 1) name := by
    have hGiven : GivenIn "transaction" "date" (inputs 1) ∧
        GivenIn "transaction" "tag" (inputs 1) ∧ GivenIn "transaction" "tag_ids" (inputs 1) :=
      ⟨Or.inl ⟨_, rfl, rfl⟩, Or.inl ⟨_, rfl, rfl⟩, Or.inr rfl⟩
    simp only [List.forall_mem_cons, List.not_mem_nil, false_implies, implies_true, and_true]
    refine ⟨⟨by decide, ?_, fun hInGroup => absurd hInGroup ?_⟩,
      ⟨by decide, ?_, fun _ => hGiven.1⟩,
      ⟨by decide, ?_, fun _ => hGiven.2.1⟩, ⟨by decide, ?_, fun _ => hGiven.2.2⟩⟩
    all_goals
      rw [hAsked]
      decide
  have hSame : ∀ key, key ∉ ["budget_id", "date", "tag", "tag_ids"] →
      Entries.get? (inputs 1) key = Entries.get? (inputs 2) key := by
    intro key hOther
    simp only [List.mem_cons, List.not_mem_nil, or_false, not_or] at hOther
    simp [inputs, Entries.get?_cons, Ne.symm hOther.1, Ne.symm hOther.2.1,
      Ne.symm hOther.2.2.1, Ne.symm hOther.2.2.2]
  exact ⟨a, h, hItem,
    grouped_item_shielded h List.mem_cons_self hBody hFlatten hGroup hNames hSame [] []⟩

/-- The value of a parameter, beside a group that has an amount only. -/
def budgetInputs (name : String) (v : Value) : Entries :=
  [(.str name, v), (.str "transaction", .object [("amount", .int 5)])]

/-- What the group lacks is looked for beside it: the date, the tag, and the tags that it is added
to. The labels and the reviewer are looked for there in any case. -/
theorem bodies_budgetTransactions : ∃ a b flatten,
    (compile budgetTransactions oneTransactionAtATime none).run.1 = .ok [.action a] ∧
    a.head.request.body = some b ∧ b.flatten = some flatten ∧
    flatten.groupKey = some "transaction" ∧ b.propertyNames = [] ∧
    ∀ n ∈ [1, 2], (["date", "tag", "tag_ids", "labels", "reviewer"].map fun name =>
      (a.head.request.build (budgetInputs name (.int n)) []).jsonBody) = [
        oneTransaction [("date", .int n)] [],
        oneTransaction [("tag_ids", .list [.int n])] [],
        oneTransaction [("tag_ids", .list [.int n])] [],
        oneTransaction [] [("labels", .list [.int n])],
        oneTransaction [] [("approved_by", .int n)]] :=
  ⟨_, _, _, by with_unfolding_all rfl, by with_unfolding_all rfl, by with_unfolding_all rfl,
    by with_unfolding_all rfl, by with_unfolding_all rfl,
    List.forall_mem_cons.mpr ⟨by with_unfolding_all rfl,
      List.forall_mem_singleton.mpr (by with_unfolding_all rfl)⟩⟩

/-- **Parameters may reach a grouped item.** It is not so that two inputs make the same body
whenever they differ only in values of parameters, none of which could be taken for the group or is
a property of the body. -/
theorem parameters_reach_grouped_item :
    ¬ ∀ (document : ApiDocument) (config : GeneratorConfig) (onlyPath : Option String)
        (operations : List Operation) (a : Action) (e : Endpoint) (b : BodyPlan)
        (flatten : FlattenPlan) (g : String) (names : List String) (inputs inputs' auth : Entries),
      (compile document config onlyPath).run.1 = .ok operations → .action a ∈ operations →
      e ∈ document.endpoints → a.IsBuiltFor document config e →
      a.head.request.body = some b → b.flatten = some flatten → flatten.groupKey = some g →
      (∀ name ∈ names, name ∈ e.pathParameters.map (·.name) ∨ name ∈ e.queryParameters.map (·.name)) →
      (∀ name ∈ names, ¬ OfGroup g name ∧ name ∉ b.propertyNames) →
      inputs.map Prod.fst = inputs'.map Prod.fst →
      (∀ key, key ∉ names → Entries.get? inputs key = Entries.get? inputs' key) →
      (a.head.request.build inputs auth).jsonBody =
        (a.head.request.build inputs' auth).jsonBody := by
  intro hAlways
  obtain ⟨a, b, flatten, h, hBody, hFlatten, hGroup, hNone, hBodies⟩ := bodies_budgetTransactions
  obtain ⟨hidden, selected, hCompiles⟩ := compile_returns (returns_of_run h)
  obtain ⟨e, he, hBuilt⟩ := hCompiles.endpoint_of_action List.mem_cons_self
  have hMem : e ∈ budgetTransactions.endpoints :=
    selectEndpoints_subset hCompiles.selected_eq e he
  have hQuery : "date" ∈ e.queryParameters.map (·.name) := by
    cases List.mem_singleton.mp hMem
    decide
  have hSame := hAlways _ _ _ _ a e b flatten "transaction" ["date"]
    (budgetInputs "date" (.int 1)) (budgetInputs "date" (.int 2)) [] h List.mem_cons_self hMem
    ⟨hidden, hBuilt⟩ hBody hFlatten hGroup
    (List.forall_mem_singleton.mpr (Or.inr hQuery))
    (List.forall_mem_singleton.mpr ⟨by decide, by rw [hNone]; exact List.not_mem_nil⟩) rfl
    fun key hOther => by
      have hKey : ¬ "date" = key := fun hSame => hOther (List.mem_singleton.mpr hSame.symm)
      simp [budgetInputs, Entries.get?_cons, hKey]
  -- the date that the group lacks is in the body
  have hDate : ∀ n ∈ [1, 2], (a.head.request.build (budgetInputs "date" (.int n)) []).jsonBody =
      oneTransaction [("date", .int n)] [] := fun n hn => (List.cons.inj (hBodies n hn)).1
  rw [hDate 1 (by decide), hDate 2 (by decide)] at hSame
  simp [oneTransaction, Value.object] at hSame

end IntegrationCompiler
