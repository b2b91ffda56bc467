import IntegrationCompiler.Proofs.Operation.Triggers
import IntegrationCompiler.Proofs.Response.Presentable

/-!
# Samples of operations

Every operation of a document has a sample that can be shown.

* `Action.ofEndpoint_presentable`, `Trigger.ofEndpoint_presentable` — operations one by one;
* `samples_can_be_shown` — the operations of a document, whatever its examples and schemas are and
  whatever the configuration hides or flattens.
-/

namespace IntegrationCompiler

open Logged

theorem noContentSample_presentable : Presentable noContentSample := by
  refine ⟨nofun, ?_⟩
  have hPlain : isSensitive "success" = false ∧ isSensitive "status" = false := by decide
  refine List.forall_mem_cons.mpr ⟨⟨"success", rfl, ?_⟩,
    List.forall_mem_singleton.mpr ⟨"status", rfl, ?_⟩⟩
  · rw [← isSensitive_iff, hPlain.1]
    exact Bool.false_ne_true
  · rw [← isSensitive_iff, hPlain.2]
    exact Bool.false_ne_true

section

variable {s : Surroundings} {e : Endpoint} {key : String}

theorem Action.ofEndpoint_presentable {a : Action} (h : (Action.ofEndpoint s e key).Returns a) :
    Presentable a.head.sample := by
  unfold ofEndpoint at h
  dsimp only at h
  obtain ⟨fields, -, h⟩ := returns_bind h
  obtain ⟨request, -, h⟩ := returns_bind h
  obtain ⟨response, -, h⟩ := returns_bind h
  -- the stages may do to the payload what they like: what is shown is made of their result
  split at h
  all_goals
    obtain ⟨raw, -, h⟩ := returns_bind h
    obtain ⟨d, -, h⟩ := returns_bind h
    obtain ⟨sample, hSample, h⟩ := returns_bind h
    cases returns_pure h
  · cases returns_pure hSample
    exact noContentSample_presentable
  · exact actionSample_presentable (returns_liftExcept hSample)

theorem Trigger.ofEndpoint_presentable {c : TriggerConfig} {t : Trigger}
    (h : (Trigger.ofEndpoint s e key c).Returns t) :
    Presentable t.head.sample ∧ Entries.has t.head.sample "id" = true := by
  obtain ⟨-, raw, -, hSample⟩ := ofEndpoint_shows h
  exact triggerSample_presentable hSample

end

/-- **The sample of every operation can be shown**: it is an object with something in it, and none
of its keys names a credential. The sample of a trigger has an `id`. This holds whatever is declared
as an example, whatever the schemas are, and whatever the configuration hides or flattens. -/
theorem samples_can_be_shown {document : ApiDocument} {config : GeneratorConfig}
    {onlyPath : Option String} {operations : List Operation}
    (h : (compile document config onlyPath).run.1 = .ok operations) :
    (∀ o ∈ operations, Presentable o.head.sample) ∧
    ∀ t, .trigger t ∈ operations → Entries.has t.head.sample "id" = true := by
  obtain ⟨hidden, selected, hCompiles⟩ := compile_returns (returns_of_run h)
  have hBoth : ∀ o ∈ operations, Presentable o.head.sample ∧
      ∀ t, o = .trigger t → Entries.has t.head.sample "id" = true := by
    refine hCompiles.forall_operations (fun e a _ ha => ?_) (fun hidden e key c t _ ht => ?_)
    · exact ⟨Action.ofEndpoint_presentable ha, fun t hSame => nomatch hSame⟩
    · obtain ⟨hShown, hId⟩ := Trigger.ofEndpoint_presentable ht
      refine ⟨hShown, ?_⟩
      rintro t ⟨⟩
      exact hId
  exact ⟨fun o ho => (hBoth o ho).1, fun t ht => (hBoth _ ht).2 t rfl⟩

/-- Sessions, with examples that leave little to show: an empty list where they are listed, an
answer of credentials only where one is opened, and where guests are invited a list of them, a text
that is hidden and a key. -/
def sessions : ApiDocument where
  endpoints := [{
    path := "/sessions"
    method := .get
    operationId := some "list_sessions"
    responses := [("200", { statusCode := "200", examples := [(.str "none", .list [])] })] }, {
    path := "/sessions"
    method := .post
    operationId := some "open_session"
    responses := [("200", { statusCode := "200", examples := [
      (.str "open", .object [("API key", .str "k"), ("pass-word", .str "p")])] })] }, {
    path := "/sessions/guests"
    method := .post
    operationId := some "invite_guests"
    requestBody := some { schema := some [(.str "properties", .object [
      ("guests", .object [("type", .str "array")]),
      ("text", .object [("type", .str "string")]),
      ("token", .object [("type", .str "string")])])] }
    responses := [("200", { statusCode := "200", examples := [
      (.str "two", .object [
        ("guests", .list [.object [("name", .str "Ann"), ("seat", .int 3)], .int 7]),
        ("text", .str "Welcome"), ("token", .str "t")])] })] }]
  schemas := [(.str "Guest", .object [("properties", .object [
    ("name", .object [("type", .str "string")])])])]

/-- Guests are invited one by one, and new sessions are polled. -/
def oneGuestAtATime : GeneratorConfig where
  actions := [("invite_guests", {
    hideRequestBodyProperties := ["text"]
    simplify := some {
      enabled := true
      flattenArray := some
        { arrayField := "guests", itemSchema := "Guest", publicName := some "Guest" }
      additionalProperties := ["text", "token"] } })]
  triggers := [("new_session", {
    endpoint := "/sessions"
    title := some "Triggers when a session is opened." })]

/-- An empty list and credentials leave the empty sample; of the guests the first one is shown, in a
group and without a seat. -/
theorem samples_can_be_shown_sessions : ∃ operations,
    (compile sessions oneGuestAtATime none).run.1 = .ok operations ∧
    (operations.map fun o => (o.key, o.head.sample)) = [
      ("list_sessions", emptySample), ("new_session", emptySample), ("open_session", emptySample),
      ("invite_guests", [(.str "guest", .object [("name", .str "Ann")])])] ∧
    ∀ o ∈ operations, Presentable o.head.sample := by
  obtain ⟨operations, h, hSamples⟩ : ∃ operations,
      (compile sessions oneGuestAtATime none).run.1 = .ok operations ∧
      (operations.map fun o => (o.key, o.head.sample)) = [
        ("list_sessions", emptySample), ("new_session", emptySample),
        ("open_session", emptySample),
        ("invite_guests", [(.str "guest", .object [("name", .str "Ann")])])] :=
    ⟨_, by with_unfolding_all rfl, by with_unfolding_all rfl⟩
  exact ⟨operations, h, hSamples, (samples_can_be_shown h).1⟩

end IntegrationCompiler
