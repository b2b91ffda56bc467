import IntegrationCompiler.Proofs.Operation.Coverage
import IntegrationCompiler.Proofs.Operation.Failures

/-!
# Shapes of the fields of operations

A field has either a type or children, and a default only if it holds text. Fields are made from
arbitrary schemas and changed by every stage, and the rule is checked whenever that happens.

* `Failure.OnlyText` — the failures that blame nothing but a value that is no text;
* `compile_onlyText` — other rules are never broken;
* `Surroundings.Moment` — the fields that are there at some moment while an operation is built;
* `fields_keep_shape` — the rule of shapes is kept at every moment and never stops a compilation, if
  no group has the name of a parameter.
-/

namespace IntegrationCompiler

open Logged

/-! ## Rules that may be broken -/

/-- The failure blames nothing but values that have to be texts and are not. -/
def Failure.OnlyText (failure : Failure) : Prop :=
  ∀ i ∈ failure.issues, i.rule = .text

section

variable {failure : Failure} {e : Endpoint}

theorem onlyText_malformed : Failure.OnlyText .malformed :=
  nofun

theorem onlyText_generation {operation : String} {fault : GenerationFault} :
    Failure.OnlyText (.generation operation fault) :=
  nofun

theorem onlyText_of_asText {v : Value} {step : Step} {c : Checked String}
    (hChecked : c = v.asText.under step) (h : (c.orFail : Except Failure String) = .error failure) :
    failure.OnlyText := by
  obtain ⟨issues, hBad, rfl⟩ := error_of_orFail h
  rw [hChecked] at hBad
  intro i hi
  have hIssues : issues = [⟨[step], .text⟩] := by
    cases v with
    | scalar s => cases s <;> cases hBad <;> rfl
    | _ =>
      cases hBad
      rfl
  have hMem : i ∈ issues := hi
  rw [hIssues, List.mem_singleton] at hMem
  rw [hMem]

namespace Field

theorem ofSchema_onlyText {schema description : Value} {key : String} {required : Bool}
    (h : ofSchema schema key required description = .error failure) : failure.OnlyText := by
  rcases error_of_ofSchema h with rfl | rfl
  · exact onlyText_malformed
  · exact List.forall_mem_singleton.mpr rfl

theorem requiredNames_onlyText {schema : Value} (h : requiredNames schema = .error failure) :
    failure.OnlyText := by
  have hMalformed : failure = .malformed := by
    unfold requiredNames at h
    split at h
    · split at h
      · cases h
      · rcases error_of_bind h with hItems | ⟨items, -, h⟩
        · exact (error_of_orMalformed hItems).2
        · obtain ⟨item, -, hItem⟩ := error_of_mapM h
          split at hItem
          · cases hItem
          · exact (Except.error.inj hItem).symm
    · split at h
      · exact (Except.error.inj h).symm
      · cases h
  exact hMalformed ▸ onlyText_malformed

theorem ofParameters_onlyText {parameters : List Parameter} {exclude : List String}
    (h : ofParameters parameters exclude = .error failure) : failure.OnlyText := by
  obtain ⟨p, -, hMade⟩ := error_of_mapM h
  exact ofSchema_onlyText hMade

theorem ofProperties_onlyText {schema : Value} {exclude : List String}
    (h : ofProperties schema exclude = .error failure) : failure.OnlyText := by
  rcases error_of_bind h with hRequired | ⟨required, -, h⟩
  · exact requiredNames_onlyText hRequired
  · obtain ⟨⟨name, property⟩, -, hMade⟩ := error_of_mapM h
    dsimp only at hMade
    split at hMade
    · exact ofSchema_onlyText hMade
    · exact Except.error.inj hMade ▸ onlyText_malformed

end Field

theorem inputFields_onlyText (h : e.inputFields = .error failure) : failure.OnlyText := by
  rcases error_of_bind h with hParameters | ⟨parameters, -, h⟩
  · exact Field.ofParameters_onlyText hParameters
  rcases error_of_bind h with hProperties | ⟨properties, -, h⟩
  · exact Field.ofProperties_onlyText hProperties
  · cases h

theorem requestPlan_onlyText {s : Surroundings} {fixed : Entries}
    (h : s.requestPlan e fixed = .error failure) : failure.OnlyText := by
  obtain ⟨b, -, p, -, hPlan⟩ := error_of_requestPlan h
  rcases error_of_bind hPlan with hName | ⟨name, -, hPlan⟩
  · exact onlyText_of_asText rfl hName
  · cases hPlan

theorem listUnnamed_onlyText (h : e.ListUnnamed failure) : failure.OnlyText := by
  obtain ⟨es, -, k, -, field, hText⟩ := h
  exact onlyText_of_asText rfl hText

theorem pageSize_onlyText {configured : Value} (h : pageSizeOf configured = .error failure) :
    failure.OnlyText := by
  unfold pageSizeOf at h
  split at h
  · cases h
  · split at h
    · cases h
    · split at h
      · cases h
      · exact (error_of_orMalformed h).2 ▸ onlyText_malformed

theorem plainSample_malformed {schema : Value} (h : Schema.plainSample schema = .error failure) :
    failure = .malformed := by
  unfold Schema.plainSample at h
  split at h
  · cases h
  split at h
  · cases h
  split at h
  · -- only an enumeration is looked into
    split at h
    · exact (error_of_orMalformed h).2
    · cases h
  split at h
  · cases h
  split at h
  · cases h
  split at h <;> cases h

theorem sampleTo_malformed {depth : Nat} {schema : Value}
    (h : Schema.sampleTo depth schema = .error failure) : failure = .malformed := by
  -- The induction is on the depth that bounds the recursion into properties.
  induction depth generalizing schema with
  | zero => exact (Except.error.inj h).symm
  | succ depth ih =>
    rw [Schema.sampleTo, Schema.sampleWith] at h
    split at h
    · cases h
    rcases error_of_bind h with hGiven | ⟨given, -, h⟩
    · exact (error_of_orMalformed hGiven).2
    split at h
    · split at h
      · cases h
      · split at h
        · rcases error_of_bind h with hFields | ⟨fields, -, h⟩
          · obtain ⟨⟨name, p⟩, -, hField⟩ := error_of_mapM hFields
            rcases error_of_bind hField with hSub | ⟨v, -, hField⟩
            · exact ih hSub
            · cases hField
          · cases h
        · exact plainSample_malformed h
    · split at h
      · exact (Except.error.inj h).symm
      · cases h

theorem sampleOf_onlyText {response : Option Response} (h : sampleOf response = .error failure) :
    failure.OnlyText := by
  have hMalformed : failure = .malformed := by
    unfold sampleOf at h
    split at h
    · unfold Response.sample at h
      split at h
      · cases h
      · exact sampleTo_malformed h
      · exact sampleTo_malformed h
      · cases h
    · cases h
  exact hMalformed ▸ onlyText_malformed

theorem withoutSensitive_onlyText {sample : Entries} (h : withoutSensitive sample = .error failure) :
    failure.OnlyText := by
  obtain ⟨⟨k, v⟩, -, hKey⟩ := error_of_filterM h
  dsimp only at hKey
  split at hKey
  · cases hKey
  · exact Except.error.inj hKey ▸ onlyText_malformed

theorem actionSample_onlyText {raw : Value} (h : actionSample raw = .error failure) :
    failure.OnlyText := by
  rcases error_of_bind h with hKept | ⟨kept, -, h⟩
  · exact withoutSensitive_onlyText hKept
  · cases h

theorem triggerSample_onlyText {raw : Value} (h : triggerSample raw = .error failure) :
    failure.OnlyText := by
  rcases error_of_bind h with hKept | ⟨kept, -, h⟩
  · exact withoutSensitive_onlyText hKept
  · cases h

theorem describe_onlyText {c : TriggerConfig} {key : String} (h : c.describe key = .error failure) :
    failure.OnlyText := by
  unfold TriggerConfig.describe triggerDescription at h
  split at h
  · cases h
  · dsimp only at h
    split at h
    · exact Except.error.inj h ▸ onlyText_generation
    · split at h
      · cases h
      · exact Except.error.inj h ▸ onlyText_generation

end

/-! ## Operations -/

section

variable {document : ApiDocument} {config : GeneratorConfig} {onlyPath : Option String}
  {failure : Failure}

theorem scope_onlyText {scope : Scope} (h : scope.Stops failure) : failure.OnlyText := by
  cases h with
  | fault => exact onlyText_generation
  | item h => exact Field.ofProperties_onlyText h
  | required h => exact Field.requiredNames_onlyText h
  | kept h => exact Field.ofSchema_onlyText h
  | default _ h => exact Field.error_of_defaultText h ▸ onlyText_malformed

theorem action_onlyText {s : Surroundings} {e : Endpoint} {key : String}
    (h : Action.Stops s e key failure) : failure.OnlyText := by
  cases h with
  | inputs h => exact inputFields_onlyText h
  | request h => exact requestPlan_onlyText h
  | response h => exact listUnnamed_onlyText (ResponsePlan.ofEndpoint_fails h)
  | payload h => exact sampleOf_onlyText h
  | stages h => exact scope_onlyText h
  | sample _ _ h => exact actionSample_onlyText h

theorem trigger_onlyText {s : Surroundings} {e : Endpoint} {key : String} {c : TriggerConfig}
    (h : Trigger.Stops s e key c failure) : failure.OnlyText := by
  cases h with
  | title h => exact describe_onlyText h
  | inputs h => exact Field.ofParameters_onlyText h
  | request h => exact requestPlan_onlyText h
  | extraction h => exact listUnnamed_onlyText (ArrayExtraction.error_of_ofEndpoint h)
  | paging _ h => exact pageSize_onlyText h
  | payload h => exact sampleOf_onlyText h
  | sample _ h => exact triggerSample_onlyText h

theorem select_onlyText (h : selectEndpoints document onlyPath = .error failure) :
    failure.OnlyText := by
  unfold selectEndpoints at h
  split at h
  · cases h
  · dsimp only at h
    split at h
    · exact Except.error.inj h ▸ nofun
    · cases h

/-- Whether the groups around the inputs of items are told apart from the parameters beside them. -/
def GroupsApart (document : ApiDocument) (config : GeneratorConfig) : Prop :=
  ∀ e ∈ document.endpoints, ∀ key ∈ (config.action e.actionKey).groupName?,
    key ∉ e.parameters.map (·.name)

theorem GroupsApart.scope {hidden : List (String × Trigger)} {e : Endpoint}
    (h : GroupsApart document config) (he : e ∈ document.endpoints) :
    ((⟨document, config, hidden⟩ : Surroundings).scope e e.actionKey).GroupApart :=
  fun _ hFlatten key hNotEmpty hSlug => h e he key (mem_groupName? hFlatten hNotEmpty hSlug)

/-- **A compilation that fails blames nothing but values that have to be texts**, if it blames any
value at all. -/
theorem compile_onlyText (hGroups : GroupsApart document config)
    (h : (compile document config onlyPath).Fails failure) : failure.OnlyText := by
  cases compile_fails h with
  | select h => exact select_onlyText h
  | action he h => exact action_onlyText (Action.ofEndpoint_fails (hGroups.scope he) h)
  | trigger _ _ h => exact trigger_onlyText (Trigger.ofEndpoint_fails h)

/-! ## Moments -/

/-- Fields that are there at some moment while the operation of an origin is built. -/
inductive Surroundings.Moment (s : Surroundings) : Origin → List Field → Prop where
  | made {origin : Origin} {schema description : Value} {key : String} {required : Bool}
    {f : Field} : Field.ofSchema schema key required description = .ok f → Moment s origin [f]
  | inputs {e : Endpoint} {fs : List Field} : e.inputFields = .ok fs → Moment s (.action e) fs
  | stages {e : Endpoint} {fields fs : List Field} {request : RequestPlan} {raw : Value} :
    e.inputFields = .ok fields → s.requestPlan e [] = .ok request →
    Draft.Moment (s.scope e e.actionKey) ⟨fields, request, raw⟩ fs → Moment s (.action e) fs
  | parameters {e : Endpoint} {key : String} {c : TriggerConfig} {fs : List Field} :
    Field.ofParameters e.parameters (Entries.names c.queryParams) = .ok fs →
    Moment s (.trigger e key c) fs
  | placeholder {e : Endpoint} {key : String} {c : TriggerConfig} :
    Moment s (.trigger e key c) [placeholderField]

theorem placeholder_wellShaped : placeholderField.WellShaped := by
  decide

theorem moment_shaped {hidden : List (String × Trigger)} {origin : Origin} {fs : List Field}
    (hGroups : GroupsApart document config)
    (hOrigin : origin ∈ config.allOrigins document document.endpoints)
    (h : Surroundings.Moment ⟨document, config, hidden⟩ origin fs) :
    Field.Throughout Field.WellShaped fs := by
  cases h with
  | made hMade =>
    exact Field.throughout_of_leaves
      (List.forall_mem_singleton.mpr (Field.ofSchema_ok hMade).2.children_eq)
      (List.forall_mem_singleton.mpr (Field.ofSchema_wellShaped hMade))
  | inputs hInputs =>
    obtain ⟨parameters, hParameters, hInputs⟩ := ok_of_bind hInputs
    obtain ⟨properties, hProperties, hInputs⟩ := ok_of_bind hInputs
    cases hInputs
    exact Field.throughout_append.mpr
      ⟨Field.ofParameters_shaped hParameters, Field.ofProperties_shaped hProperties⟩
  | @stages e _ _ _ raw hInputs hRequest hMoment =>
    have he : e ∈ document.endpoints := (action_mem_allOrigins.mp hOrigin).1
    exact Draft.moment_shaped (hGroups.scope he) (Endpoint.ready raw hInputs hRequest) hMoment
  | parameters hParameters => exact Field.ofParameters_shaped hParameters
  | placeholder =>
    exact Field.throughout_of_leaves (List.forall_mem_singleton.mpr rfl)
      (List.forall_mem_singleton.mpr placeholder_wellShaped)

theorem Trigger.inputFields_moment {s : Surroundings} {e : Endpoint} {key : String}
    {c : TriggerConfig} {t : Trigger} (h : (Trigger.ofEndpoint s e key c).Returns t) :
    s.Moment (.trigger e key c) t.head.inputFields := by
  unfold ofEndpoint at h
  dsimp only at h
  obtain ⟨description, -, h⟩ := returns_bind h
  obtain ⟨own, hOwn, h⟩ := returns_bind h
  obtain ⟨request, -, h⟩ := returns_bind h
  obtain ⟨extraction, -, h⟩ := returns_bind h
  obtain ⟨pagination, -, h⟩ := returns_bind h
  obtain ⟨raw, -, h⟩ := returns_bind h
  obtain ⟨sample, -, h⟩ := returns_bind h
  cases returns_pure h
  dsimp only
  split
  · exact .placeholder
  · exact .parameters (returns_liftExcept hOwn)

/-- The inputs of an operation that is returned are there at the last moment of its origin, which for
a hidden trigger is another one than that of the operation. -/
theorem Compiles.inputFields_moment {hidden : List (String × Trigger)} {selected : List Endpoint}
    {operations : List Operation}
    (h : Compiles document config onlyPath hidden selected operations) {o : Operation}
    (ho : o ∈ operations) : ∃ hidden, ∃ origin ∈ config.allOrigins document document.endpoints,
      Surroundings.Moment ⟨document, config, hidden⟩ origin o.head.inputFields := by
  have hSubset : ∀ o ∈ config.allOrigins document selected,
      o ∈ config.allOrigins document document.endpoints :=
    allOrigins_subset (selectEndpoints_subset h.selected_eq)
  have hAll : ∀ o ∈ operations, ∃ hidden, ∃ origin ∈ config.allOrigins document document.endpoints,
      Surroundings.Moment ⟨document, config, hidden⟩ origin o.head.inputFields := by
    refine h.forall_operations (fun e a hOrigin ha => ?_)
      (fun hidden e key c t hOrigin ht =>
        ⟨hidden, _, hSubset _ hOrigin, Trigger.inputFields_moment ht⟩)
    obtain ⟨fields, request, raw, d, hFields, hRequest, hd, -, -, hSame, -⟩ :=
      Action.ofEndpoint_returns ha
    refine ⟨hidden, _, hSubset _ hOrigin, ?_⟩
    rw [Operation.head, hSame]
    exact .stages hFields hRequest (.between (List.append_nil _).symm hd)
  exact hAll o ho

/-- **The rule of shapes is never broken**, if no group around the inputs of an item has the name of
a parameter beside it. It stops no compilation; it is kept by all fields of all operations, at any
depth; and while they are built it is kept at every moment. -/
theorem fields_keep_shape (hGroups : ∀ e ∈ document.endpoints,
      ∀ key ∈ (config.action e.actionKey).groupName?, key ∉ e.parameters.map (·.name)) :
    (∀ failure, (compile document config onlyPath).run.1 = .error failure →
      ∀ i ∈ failure.issues, ∀ fault, i.rule ≠ .shape fault) ∧
    (∀ operations, (compile document config onlyPath).run.1 = .ok operations →
      ∀ o ∈ operations, Field.Throughout Field.WellShaped o.head.inputFields) ∧
    ∀ hidden, ∀ origin ∈ config.allOrigins document document.endpoints, ∀ fs,
      Surroundings.Moment ⟨document, config, hidden⟩ origin fs →
      Field.Throughout Field.WellShaped fs := by
  refine ⟨fun failure h i hi fault hRule => ?_, fun operations h o ho => ?_,
    fun hidden origin hOrigin fs hMoment => moment_shaped hGroups hOrigin hMoment⟩
  · have hText := compile_onlyText hGroups (fails_of_run h) i hi
    exact nomatch hText.symm.trans hRule
  · obtain ⟨hidden, selected, hCompiles⟩ := compile_returns (returns_of_run h)
    obtain ⟨hidden', origin, hOrigin, hMoment⟩ := hCompiles.inputFields_moment ho
    exact moment_shaped hGroups hOrigin hMoment

end

/-- The inputs of the item are in a group, with a helper among them and a default. -/
theorem fields_keep_shape_tasksOfProject : ∃ operations,
    (compile tasksOfProject oneTaskAtATime none).run.1 = .ok operations ∧
    (operations.flatMap fun o => (Field.preorder o.head.inputFields).map fun f =>
      (f.key, f.type, f.default)) = [
        ("project", some .string, none), ("notify", some .string, none), ("task", none, none),
        ("title", some .string, some "New task"), ("users", some .string, none),
        ("user", some .integer, none), ("note", some .string, none), ("tag", some .string, none)] ∧
    ∀ o ∈ operations, Field.Throughout Field.WellShaped o.head.inputFields := by
  obtain ⟨operations, h, hFields⟩ : ∃ operations,
      (compile tasksOfProject oneTaskAtATime none).run.1 = .ok operations ∧
      (operations.flatMap fun o => (Field.preorder o.head.inputFields).map fun f =>
        (f.key, f.type, f.default)) = [
          ("project", some .string, none), ("notify", some .string, none), ("task", none, none),
          ("title", some .string, some "New task"), ("users", some .string, none),
          ("user", some .integer, none), ("note", some .string, none),
          ("tag", some .string, none)] :=
    ⟨_, by with_unfolding_all rfl, by with_unfolding_all rfl⟩
  exact ⟨operations, h, hFields, (fields_keep_shape (by decide)).2.1 operations h⟩

end IntegrationCompiler
