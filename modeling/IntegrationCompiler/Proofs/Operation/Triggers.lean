import IntegrationCompiler.Proofs.Operation.Emission

/-!
# Triggers and the dropdowns they fill

Which triggers a compilation emits, in which order, and that each dropdown finds the trigger that
fills it.

* `TriggerConfig.IsPolled` — what decides whether a trigger is emitted;
* `Origin.Describes` — what an operation shows of its origin;
* `compile_emits_in_order` — each key once, exactly the triggers that are polled, in the order of
  the endpoints;
* `dropdowns_are_filled` — every dropdown names one trigger among the operations, a hidden one.
-/

namespace IntegrationCompiler

open Logged

/-! ## Which triggers are polled -/

/-- A hidden trigger is polled if its path can be polled at all; a visible one if it can be polled
at an endpoint that is selected and whose action is not omitted. -/
def TriggerConfig.IsPolled (c : TriggerConfig) (config : GeneratorConfig) (document : ApiDocument)
    (selected : List Endpoint) : Prop :=
  if c.hidden then ∃ e ∈ document.endpoints, e.path = c.endpoint ∧ e.method = .get
  else ∃ e ∈ selected, e.path = c.endpoint ∧ e.method = .get ∧
    (config.action e.actionKey).isOmitted = false

section

variable {document : ApiDocument} {config : GeneratorConfig} {onlyPath : Option String}
  {selected : List Endpoint} {e : Endpoint} {key : String} {c : TriggerConfig}

theorem endpoint?_eq_some {path : String} (h : document.endpoint? path .get = some e) :
    e ∈ document.endpoints ∧ e.path = path ∧ e.method = .get := by
  have hFound := List.find?_some h
  rw [Bool.and_eq_true] at hFound
  exact ⟨List.mem_of_find?_eq_some h, eq_of_beq hFound.1, eq_of_beq hFound.2⟩

theorem endpoint?_isSome {path : String} (hMem : e ∈ document.endpoints) (hPath : e.path = path)
    (hGet : e.method = .get) : ∃ e', document.endpoint? path .get = some e' := by
  refine Option.isSome_iff_exists.mp (List.find?_isSome.mpr ⟨e, hMem, ?_⟩)
  rw [Bool.and_eq_true]
  exact ⟨beq_iff_eq.mpr hPath, beq_iff_eq.mpr hGet⟩

theorem mem_origins {origin : Origin} : origin ∈ config.origins e ↔
    (config.action e.actionKey).isOmitted = false ∧ (origin = .action e ∨ e.method = .get ∧
      ∃ key c, (key, c) ∈ config.triggers ∧ c.endpoint = e.path ∧ origin = .trigger e key c) := by
  unfold GeneratorConfig.origins
  cases (config.action e.actionKey).isOmitted with
  | true => exact ⟨nofun, fun h => nomatch h.1⟩
  | false =>
    rw [if_neg Bool.false_ne_true, List.mem_cons, and_iff_right rfl]
    refine or_congr_right ?_
    split
    · next hGet =>
      rw [and_iff_right hGet, List.mem_map]
      constructor
      · rintro ⟨⟨key, c⟩, hEntry, rfl⟩
        obtain ⟨hMem, hPath⟩ := List.mem_filter.mp hEntry
        exact ⟨key, c, hMem, eq_of_beq hPath, rfl⟩
      · rintro ⟨key, c, hMem, hPath, rfl⟩
        exact ⟨(key, c), List.mem_filter.mpr ⟨hMem, beq_iff_eq.mpr hPath⟩, rfl⟩
    · next hOther => exact ⟨nofun, fun h => absurd h.1 hOther⟩

theorem action_mem_origins {e' : Endpoint} : .action e ∈ config.origins e' ↔
    e = e' ∧ (config.action e.actionKey).isOmitted = false := by
  rw [mem_origins]
  constructor
  · rintro ⟨hKept, hSame | ⟨-, _, _, -, -, hSame⟩⟩
    · cases hSame
      exact ⟨rfl, hKept⟩
    · cases hSame
  · rintro ⟨rfl, hKept⟩
    exact ⟨hKept, Or.inl rfl⟩

theorem trigger_mem_origins {e' : Endpoint} : .trigger e key c ∈ config.origins e' ↔
    e = e' ∧ (config.action e.actionKey).isOmitted = false ∧ e.method = .get ∧
      (key, c) ∈ config.triggers ∧ c.endpoint = e.path := by
  rw [mem_origins]
  constructor
  · rintro ⟨hKept, hSame | ⟨hGet, _, _, hMem, hPath, hSame⟩⟩
    · cases hSame
    · cases hSame
      exact ⟨rfl, hKept, hGet, hMem, hPath⟩
  · rintro ⟨rfl, hKept, hGet, hMem, hPath⟩
    exact ⟨hKept, Or.inr ⟨hGet, key, c, hMem, hPath, rfl⟩⟩

theorem mem_hiddenOrigins {origin : Origin} (h : origin ∈ config.hiddenOrigins document) :
    ∃ e key c, origin = .trigger e key c ∧ (key, c) ∈ config.triggers ∧ c.hidden = true ∧
      document.endpoint? c.endpoint .get = some e := by
  obtain ⟨⟨key, c⟩, hMem, hFound⟩ := List.mem_filterMap.mp h
  dsimp only at hFound
  split at hFound
  · next hHidden =>
    obtain ⟨e, he, rfl⟩ := Option.map_eq_some_iff.mp hFound
    exact ⟨e, key, c, rfl, hMem, hHidden, he⟩
  · cases hFound

theorem action_mem_allOrigins : .action e ∈ config.allOrigins document selected ↔
    e ∈ selected ∧ (config.action e.actionKey).isOmitted = false := by
  unfold GeneratorConfig.allOrigins
  rw [List.mem_append, List.mem_flatMap]
  constructor
  · rintro (⟨e', he', hMem⟩ | hTail)
    · obtain ⟨rfl, hKept⟩ := action_mem_origins.mp hMem
      exact ⟨he', hKept⟩
    · obtain ⟨_, _, _, hSame, -⟩ := mem_hiddenOrigins hTail
      cases hSame
  · exact fun ⟨hMem, hKept⟩ => Or.inl ⟨e, hMem, action_mem_origins.mpr ⟨rfl, hKept⟩⟩

theorem mem_endpoints_of_trigger (hSelected : ∀ e ∈ selected, e ∈ document.endpoints)
    (h : .trigger e key c ∈ config.allOrigins document selected) : e ∈ document.endpoints := by
  rcases List.mem_append.mp h with hWalk | hTail
  · obtain ⟨e', he', hMem⟩ := List.mem_flatMap.mp hWalk
    obtain ⟨rfl, -⟩ := trigger_mem_origins.mp hMem
    exact hSelected e he'
  · obtain ⟨_, _, _, hSame, -, -, hEndpoint⟩ := mem_hiddenOrigins hTail
    cases hSame
    exact (endpoint?_eq_some hEndpoint).1

/-- The triggers among the origins are the configured ones that are polled. -/
theorem of_trigger_mem_allOrigins (hSelected : ∀ e ∈ selected, e ∈ document.endpoints)
    (h : .trigger e key c ∈ config.allOrigins document selected) :
    (key, c) ∈ config.triggers ∧ e.path = c.endpoint ∧ c.IsPolled config document selected := by
  unfold TriggerConfig.IsPolled
  rcases List.mem_append.mp h with hWalk | hTail
  · obtain ⟨e', he', hMem⟩ := List.mem_flatMap.mp hWalk
    obtain ⟨rfl, hKept, hGet, hConfigured, hPath⟩ := trigger_mem_origins.mp hMem
    refine ⟨hConfigured, hPath.symm, ?_⟩
    split
    · exact ⟨e, hSelected e he', hPath.symm, hGet⟩
    · exact ⟨e, he', hPath.symm, hGet, hKept⟩
  · obtain ⟨_, _, _, hSame, hConfigured, hHidden, hEndpoint⟩ := mem_hiddenOrigins hTail
    cases hSame
    obtain ⟨hMem, hPath, hGet⟩ := endpoint?_eq_some hEndpoint
    rw [if_pos hHidden]
    exact ⟨hConfigured, hPath, e, hMem, hPath, hGet⟩

theorem trigger_mem_allOrigins (hMem : (key, c) ∈ config.triggers)
    (hPolled : c.IsPolled config document selected) :
    ∃ e, .trigger e key c ∈ config.allOrigins document selected := by
  unfold TriggerConfig.IsPolled at hPolled
  split at hPolled
  · next hHidden =>
    obtain ⟨e, he, hPath, hGet⟩ := hPolled
    obtain ⟨e', he'⟩ := endpoint?_isSome he hPath hGet
    refine ⟨e', List.mem_append_right _ (List.mem_filterMap.mpr ⟨(key, c), hMem, ?_⟩)⟩
    dsimp only
    rw [if_pos hHidden, he', Option.map_some]
  · obtain ⟨e, he, hPath, hGet, hKept⟩ := hPolled
    exact ⟨e, List.mem_append_left _ (List.mem_flatMap.mpr
      ⟨e, he, trigger_mem_origins.mpr ⟨rfl, hKept, hGet, hMem, hPath.symm⟩⟩)⟩

end

/-! ## What an operation shows -/

/-- An operation has the key, the path and the method of its origin, and is hidden if its trigger
is. -/
def Origin.Describes : Origin → Operation → Prop
  | .action e, .action a =>
    a.head.key = e.actionKey ∧ a.head.path = e.path ∧ a.head.request.method = e.method
  | .trigger e key c, .trigger t =>
    t.head.key = key ∧ t.head.path = e.path ∧ t.hidden = c.hidden
  | _, _ => False

/-- The entry of a configuration under a key, if no two entries have the same key. -/
theorem eq_of_mem_triggers {config : GeneratorConfig}
    (hKeys : (config.triggers.map Prod.fst).Nodup) {key : String} {c c' : TriggerConfig}
    (h : (key, c) ∈ config.triggers) (h' : (key, c') ∈ config.triggers) : c = c' :=
  congrArg Prod.snd (List.inj_on_of_nodup_map hKeys h h' rfl)

namespace Compiles

variable {document : ApiDocument} {config : GeneratorConfig} {onlyPath : Option String}
  {hidden : List (String × Trigger)} {selected : List Endpoint} {operations : List Operation}

/-- An operation shows its origin, if no two triggers are configured under the same key. -/
theorem describes (h : Compiles document config onlyPath hidden selected operations)
    (hKeys : (config.triggers.map Prod.fst).Nodup) {origin : Origin} {o : Operation}
    (hMem : origin ∈ config.allOrigins document selected)
    (hBuilds : Surroundings.Builds ⟨document, config, hidden⟩ origin o) : origin.Describes o := by
  cases hBuilds with
  | action ha => exact Action.ofEndpoint_head ha
  | trigger ht =>
    obtain ⟨hKey, hPath, -, hFlag, -⟩ := Trigger.ofEndpoint_returns ht
    exact ⟨hKey, hPath, hFlag⟩
  | @hidden e key c t hHidden hEntry =>
    obtain ⟨c', e', hMem', -, hEndpoint, hKey, hPath, hFlag, -⟩ := h.of_mem_hidden hEntry
    obtain ⟨hConfigured, hSamePath, -⟩ :=
      of_trigger_mem_allOrigins (selectEndpoints_subset h.selected_eq) hMem
    -- the trigger was built for the first endpoint with the path, which has the same path
    cases eq_of_mem_triggers hKeys hConfigured hMem'
    exact ⟨hKey, hPath.trans ((endpoint?_eq_some hEndpoint).2.1.trans hSamePath.symm),
      hFlag.trans hHidden.symm⟩

/-- A trigger that is polled is emitted, and is the only one with its key. -/
theorem polled_once (h : Compiles document config onlyPath hidden selected operations)
    (hKeys : (config.triggers.map Prod.fst).Nodup) {key : String} {c : TriggerConfig}
    (hMem : (key, c) ∈ config.triggers) (hPolled : c.IsPolled config document selected) :
    ∃ t, t.head.path = c.endpoint ∧ t.hidden = c.hidden ∧
      operations.filter (fun o => o.id == (.trigger, key)) = [.trigger t] := by
  obtain ⟨e, hOrigin⟩ := trigger_mem_allOrigins hMem hPolled
  obtain ⟨origin', hMem', hSame, o, ho, hBuilds⟩ := h.exists_of_mem hOrigin
  have hDescribes := h.describes hKeys hMem' hBuilds
  -- the origin that has the key comes from the same entry, maybe with another endpoint
  cases origin' with
  | action e' => cases hSame
  | trigger e' key' c' =>
    cases hSame
    obtain ⟨hConfigured, hPath, -⟩ :=
      of_trigger_mem_allOrigins (selectEndpoints_subset h.selected_eq) hMem'
    cases eq_of_mem_triggers hKeys hConfigured hMem
    cases o with
    | action a => exact hDescribes.elim
    | trigger t =>
      obtain ⟨hKey, hTriggerPath, hFlag⟩ := hDescribes
      refine ⟨t, hTriggerPath.trans hPath, hFlag, ?_⟩
      rw [← h.filter_id ho, h.id_eq hBuilds]
      rfl

/-- A trigger that is emitted is a configured one that is polled. -/
theorem polled_of_mem (h : Compiles document config onlyPath hidden selected operations)
    {t : Trigger} (ht : .trigger t ∈ operations) :
    ∃ c, (t.head.key, c) ∈ config.triggers ∧ c.IsPolled config document selected := by
  obtain ⟨origin, hOrigin, hBuilds⟩ := exists_left_of_mem h.builds ht
  have hMem := (Origin.mem_of_mem_firsts hOrigin).1
  have hId := h.id_eq hBuilds
  cases origin with
  | action e => cases hId
  | trigger e key c =>
    obtain ⟨hConfigured, -, hPolled⟩ :=
      of_trigger_mem_allOrigins (selectEndpoints_subset h.selected_eq) hMem
    have hKey : t.head.key = key := congrArg Prod.snd hId
    exact ⟨c, hKey ▸ hConfigured, hPolled⟩

end Compiles

/-! ## All triggers in order -/

section

variable {document : ApiDocument} {config : GeneratorConfig} {onlyPath : Option String}
  {operations : List Operation}

/-- Of the configured triggers some are hidden, in the same order. -/
theorem hiddenOrigins_sublist : ((config.hiddenOrigins document).map Origin.id).Sublist
    (config.triggers.map fun entry => (OperationKind.trigger, entry.1)) := by
  unfold GeneratorConfig.hiddenOrigins
  induction config.triggers with
  | nil => exact .slnil
  | cons entry rest ih =>
    rw [List.filterMap_cons]
    split
    · exact ih.cons _
    · next origin hOrigin =>
      have hId : origin.id = (.trigger, entry.1) := by
        dsimp only at hOrigin
        split at hOrigin
        · obtain ⟨e, -, rfl⟩ := Option.map_eq_some_iff.mp hOrigin
          rfl
        · cases hOrigin
      rw [List.map_cons, List.map_cons, hId]
      exact ih.cons_cons _

/-- The keys of hidden triggers differ if those of all triggers do. -/
theorem nodup_hiddenOrigins (hKeys : (config.triggers.map Prod.fst).Nodup) :
    ((config.hiddenOrigins document).map Origin.id).Nodup := by
  refine List.Nodup.sublist hiddenOrigins_sublist ?_
  have hPairs := hKeys.map (f := fun key => (OperationKind.trigger, key))
    fun _ _ hSame => congrArg Prod.snd hSame
  rwa [List.map_map] at hPairs

/-- **The operations of a document.** No two have the same kind and key. The triggers are those that
are polled, each once. In order, the operations are those of the origins met on the walk over the
selected endpoints, and then the hidden triggers that were not met. Triggers are configured in a
mapping, so their keys are all different. -/
theorem compile_emits_in_order (hKeys : (config.triggers.map Prod.fst).Nodup)
    (h : (compile document config onlyPath).run.1 = .ok operations) :
    ∃ selected, selectEndpoints document onlyPath = .ok selected ∧
      (operations.map Operation.id).Nodup ∧
      (∀ key c, (key, c) ∈ config.triggers → c.IsPolled config document selected →
        ∃ t, t.head.path = c.endpoint ∧ t.hidden = c.hidden ∧
          operations.filter (fun o => o.id == (.trigger, key)) = [.trigger t]) ∧
      (∀ t, .trigger t ∈ operations →
        ∃ c, (t.head.key, c) ∈ config.triggers ∧ c.IsPolled config document selected) ∧
      ∃ met unmet, operations = met ++ unmet ∧
        List.Forall₂ Origin.Describes (Origin.firsts [] (selected.flatMap config.origins)) met ∧
        List.Forall₂ Origin.Describes ((config.hiddenOrigins document).filter fun origin =>
          origin.id ∉ (selected.flatMap config.origins).map Origin.id) unmet := by
  obtain ⟨hidden, selected, hCompiles⟩ := compile_returns (returns_of_run h)
  refine ⟨selected, hCompiles.selected_eq, hCompiles.nodup_ids,
    fun key c => hCompiles.polled_once hKeys, fun t => hCompiles.polled_of_mem, ?_⟩
  have hDescribes : List.Forall₂ Origin.Describes
      (Origin.firsts [] (config.allOrigins document selected)) operations := by
    have hMem : ∀ origin ∈ Origin.firsts [] (config.allOrigins document selected),
        origin ∈ config.allOrigins document selected :=
      fun origin hOrigin => (Origin.mem_of_mem_firsts hOrigin).1
    refine ((List.forall₂_and_left _ _).mpr ⟨hMem, hCompiles.builds⟩).imp fun origin o hBoth => ?_
    exact hCompiles.describes hKeys hBoth.1 hBoth.2
  unfold GeneratorConfig.allOrigins at hDescribes
  rw [Origin.firsts_append, Origin.firsts_of_nodup (nodup_hiddenOrigins hKeys)] at hDescribes
  -- the operations are cut where the walk ends
  have hMet := List.forall₂_take_append _ _ _ hDescribes.flip
  have hUnmet := List.forall₂_drop_append _ _ _ hDescribes.flip
  refine ⟨_, _, (List.take_append_drop _ operations).symm, hMet.flip, ?_⟩
  -- when it ends, the keys of the origins that were met are claimed
  simp only [Origin.mem_claims, List.not_mem_nil, or_false] at hUnmet
  exact hUnmet.flip

end

/-- Tasks, which are added as a list, and the users who work on them. -/
def tasksAndUsers : ApiDocument where
  endpoints := [
    { path := "/tasks", method := .get, operationId := some "list_tasks" },
    { path := "/tasks", method := .post, operationId := some "add_tasks"
      requestBody := some { schema := some [(.str "properties", .object [
        ("tasks", .object [("type", .str "array")]),
        ("note", .object [("type", .str "string")])])] } },
    { path := "/users", method := .get, operationId := some "list_users" }]
  schemas := [(.str "Task", .object [("properties", .object [
    ("title", .object [("type", .str "string")]),
    ("users", .object [("type", .str "array")])])])]

/-- Tasks are added one at a time, for a user who is chosen from a list. Users are not listed by an
action, but the list is filled all the same. -/
def chosenUsers : GeneratorConfig where
  actions := [
    ("list_users", { isOmitted := true }),
    ("add_tasks", {
      simplify := some {
        enabled := true
        flattenArray := some
          { arrayField := "tasks", itemSchema := "Task", publicName := some "Task" }
        additionalProperties := ["note"] }
      dynamicFields := [("note", ⟨"notes", "id"⟩)]
      helperFields := [("user", {
        mapTo := "users", type := "integer", dynamicFields := some ⟨"users", "id"⟩ })] })]
  triggers := [
    ("users", { endpoint := "/users", hidden := true }),
    ("new_task", { endpoint := "/tasks", title := some "Triggers when a task is added." }),
    ("notes", { endpoint := "/tasks", hidden := true })]

theorem compile_emits_in_order_tasksAndUsers : ∃ operations,
    (compile tasksAndUsers chosenUsers none).run.1 = .ok operations ∧
    operations.map Operation.id = [(.action, "list_tasks"), (.trigger, "new_task"),
      (.trigger, "notes"), (.action, "add_tasks"), (.trigger, "users")] ∧
    ∃ met unmet, operations = met ++ unmet ∧
      List.Forall₂ Origin.Describes
        (Origin.firsts [] (tasksAndUsers.endpoints.flatMap chosenUsers.origins)) met ∧
      List.Forall₂ Origin.Describes ((chosenUsers.hiddenOrigins tasksAndUsers).filter fun origin =>
        origin.id ∉ (tasksAndUsers.endpoints.flatMap chosenUsers.origins).map Origin.id) unmet := by
  obtain ⟨operations, h, hIds⟩ : ∃ operations,
      (compile tasksAndUsers chosenUsers none).run.1 = .ok operations ∧
      operations.map Operation.id = [(.action, "list_tasks"), (.trigger, "new_task"),
        (.trigger, "notes"), (.action, "add_tasks"), (.trigger, "users")] :=
    ⟨_, by with_unfolding_all rfl, by with_unfolding_all rfl⟩
  obtain ⟨selected, hSelected, -, -, -, hOrder⟩ := compile_emits_in_order (by decide) h
  cases hSelected
  exact ⟨operations, h, hIds, hOrder⟩

/-! ## Dropdowns -/

/-- Fields that were just made have no dropdowns. -/
theorem Field.dynamic_eq_none {fs : List Field} (h : ∀ f ∈ fs, f.Plain) :
    Field.Throughout (fun f => f.dynamic = none) fs :=
  Field.throughout_of_leaves (fun f hf => (h f hf).children_eq) fun f hf => (h f hf).dynamic_eq

namespace Compiles

variable {document : ApiDocument} {config : GeneratorConfig} {onlyPath : Option String}
  {hidden : List (String × Trigger)} {selected : List Endpoint} {operations : List Operation}

/-- A dropdown names a hidden trigger that was built before all operations. -/
theorem dropdown_mem_hidden (h : Compiles document config onlyPath hidden selected operations)
    {o : Operation} (ho : o ∈ operations) {f : Field}
    (hf : f ∈ Field.preorder o.head.inputFields) {b : Binding} (hb : b ∈ f.dynamic) :
    b.triggerKey ∈ hidden.map (·.1) := by
  have hAll : ∀ o ∈ operations, ∀ f ∈ Field.preorder o.head.inputFields, ∀ b ∈ f.dynamic,
      b.triggerKey ∈ hidden.map (·.1) := by
    refine h.forall_operations (fun e a _ ha => ?_) (fun _ e key c t _ ht f hf b hb => ?_)
    · -- only the stages of an action make dropdowns, from what their scope has
      obtain ⟨fields, request, raw, d, hFields, -, hd, -, -, hSame, -⟩ :=
        Action.ofEndpoint_returns ha
      have hStart := (Endpoint.inputFields_ok hFields).plain
      rw [Operation.head, hSame]
      exact Draft.refine_fills (Draft.throughout_fills_of_plain hStart) hd
    · obtain ⟨-, -, -, -, hPlain⟩ := Trigger.ofEndpoint_returns ht
      rw [Field.dynamic_eq_none hPlain f hf] at hb
      cases hb
  exact hAll o ho f hf b hb

/-- A hidden trigger that was built is emitted once. -/
theorem hidden_once (h : Compiles document config onlyPath hidden selected operations)
    (hKeys : (config.triggers.map Prod.fst).Nodup) {key : String}
    (hKey : key ∈ hidden.map (·.1)) :
    ∃ t, t.hidden = true ∧ operations.filter (fun o => o.id == (.trigger, key)) = [.trigger t] := by
  obtain ⟨entry, hEntry, rfl⟩ := List.mem_map.mp hKey
  obtain ⟨c, e, hMem, hHidden, hEndpoint, -⟩ := h.of_mem_hidden hEntry
  have hPolled : c.IsPolled config document selected := by
    unfold TriggerConfig.IsPolled
    rw [if_pos hHidden]
    exact ⟨e, endpoint?_eq_some hEndpoint⟩
  obtain ⟨t, -, hFlag, hOnce⟩ := h.polled_once hKeys hMem hPolled
  exact ⟨t, hFlag.trans hHidden, hOnce⟩

end Compiles

/-- **Every dropdown is filled**: at any depth of any operation, it names a trigger that is there
exactly once and hidden. Again the triggers are configured under different keys. -/
theorem dropdowns_are_filled {document : ApiDocument} {config : GeneratorConfig}
    {onlyPath : Option String} {operations : List Operation}
    (hKeys : (config.triggers.map Prod.fst).Nodup)
    (h : (compile document config onlyPath).run.1 = .ok operations) :
    ∀ o ∈ operations, ∀ f ∈ Field.preorder o.head.inputFields, ∀ b ∈ f.dynamic,
      ∃ t, t.hidden = true ∧
        operations.filter (fun o => o.id == (.trigger, b.triggerKey)) = [.trigger t] := by
  obtain ⟨hidden, selected, hCompiles⟩ := compile_returns (returns_of_run h)
  intro o ho f hf b hb
  exact hCompiles.hidden_once hKeys (hCompiles.dropdown_mem_hidden ho hf hb)

theorem dropdowns_are_filled_tasksAndUsers : ∃ operations,
    (compile tasksAndUsers chosenUsers (some "/tasks")).run.1 = .ok operations ∧
    (operations.flatMap fun o => (Field.preorder o.head.inputFields).filterMap (·.dynamic)) =
      [⟨"users", "id"⟩, ⟨"notes", "id"⟩] ∧
    ∀ key ∈ ["users", "notes"], ∃ t, t.hidden = true ∧
      operations.filter (fun o => o.id == (.trigger, key)) = [.trigger t] := by
  obtain ⟨operations, h, hBindings⟩ : ∃ operations,
      (compile tasksAndUsers chosenUsers (some "/tasks")).run.1 = .ok operations ∧
      (operations.flatMap fun o => (Field.preorder o.head.inputFields).filterMap (·.dynamic)) =
        [⟨"users", "id"⟩, ⟨"notes", "id"⟩] :=
    ⟨_, by with_unfolding_all rfl, by with_unfolding_all rfl⟩
  refine ⟨operations, h, hBindings, fun key hKey => ?_⟩
  have hBound : (⟨key, "id"⟩ : Binding) ∈
      operations.flatMap fun o => (Field.preorder o.head.inputFields).filterMap (·.dynamic) := by
    rw [hBindings]
    rcases List.mem_pair.mp hKey with rfl | rfl
    · exact List.mem_cons_self
    · exact List.mem_cons_of_mem _ List.mem_cons_self
  obtain ⟨o, ho, hInputs⟩ := List.mem_flatMap.mp hBound
  obtain ⟨f, hf, hDynamic⟩ := List.mem_filterMap.mp hInputs
  exact dropdowns_are_filled (by decide) h o ho f hf ⟨key, "id"⟩ hDynamic

end IntegrationCompiler
