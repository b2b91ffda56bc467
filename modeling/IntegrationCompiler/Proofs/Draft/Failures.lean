import IntegrationCompiler.Proofs.Draft.Shape

/-!
# Why refining a draft may fail

Each stage fails because configuration and document disagree, or because a schema or a default is of
a kind that nobody planned for. The checks of the rule of shapes are passed everywhere.

* `Scope.Stops` — the reasons;
* `Draft.refine_fails` — there are no others, with one lemma for every step.
-/

namespace IntegrationCompiler

open Logged

/-- Why refining a draft may fail: configuration and document disagree, or a schema or a default is
of a kind that nobody planned for. The rule of shapes is no reason. -/
inductive Scope.Stops (scope : Scope) : Failure → Prop where
  | fault (fault : GenerationFault) : Stops scope (.generation scope.key fault)
  | item {e : Failure} :
    Field.ofProperties scope.itemSchema scope.config.hideRequestBodyProperties = .error e →
    Stops scope e
  | required {e : Failure} : Field.requiredNames scope.bodySchema = .error e → Stops scope e
  | kept {e : Failure} {name : String} {isRequired : Bool} :
    Field.ofSchema (Entries.getOrNull (Schema.properties scope.bodySchema) name) name isRequired
      .null = .error e → Stops scope e
  | default {e : Failure} {key : Scalar} {v : Value} : (key, v) ∈ scope.config.fieldDefaults →
    defaultText v = .error e → Stops scope e

namespace Draft

variable {scope : Scope} {d : Draft} {e : Failure}

theorem bind_fails {key : String} {dropdown : DropdownConfig} :
    ¬ (scope.bind key dropdown).Fails e := by
  intro h
  unfold Scope.bind at h
  split at h
  · exact not_fails_pure h
  · exact not_fails_pure (fails_after_remark h)

theorem fail_fails {α : Type} {fault : GenerationFault} (h : (scope.fail fault : Logged α).Fails e) :
    scope.Stops e :=
  fails_throw h ▸ .fault fault

theorem keptProperties_fails {names : List String} (h : (keptProperties scope names).Fails e) :
    scope.Stops e := by
  unfold keptProperties at h
  dsimp only at h
  split at h
  · exact absurd h not_fails_pure
  · split at h
    · exact fail_fails h
    · split at h
      · exact absurd h not_fails_pure
      · exact fail_fails h

theorem flatten_fails {config : FlattenConfig} {additional : List String}
    (hd : Field.Throughout Field.WellShaped d.fields)
    (h : (d.flatten scope config additional).Fails e) : scope.Stops e := by
  unfold flatten at h
  dsimp only at h
  split at h
  · exact fail_fails h
  rcases fails_bind h with hKept | ⟨kept, -, h⟩
  · exact keptProperties_fails hKept
  rcases fails_bind h with hItem | ⟨itemFields, hItem, h⟩
  · exact .item (fails_liftExcept hItem)
  rcases fails_bind h with hPlaced | ⟨placed, -, h⟩
  · -- placing the item does not fail
    have hBeside : Field.Throughout Field.WellShaped (fieldsBesideBody scope d) :=
      Field.throughout_iff_forall.mpr fun f hf =>
        Field.throughout_iff_forall.mp hd f (List.mem_of_mem_filter hf)
    obtain ⟨placed, hPlaces, -⟩ := placeItem_shaped config (config.publicName.getD "")
      (Field.ofProperties_shaped (returns_liftExcept hItem)) hBeside
    obtain ⟨issues, hBad, -⟩ := fails_orFail hPlaced
    exact nomatch hPlaces.symm.trans hBad
  rcases fails_bind h with hRequired | ⟨required, -, h⟩
  · exact .required (fails_liftExcept hRequired)
  rcases fails_bind h with hFields | ⟨fields, -, h⟩
  · obtain ⟨-, name, -, placed', -, -, hAdd⟩ := error_of_foldlM (fails_liftExcept hFields)
    unfold addKept at hAdd
    split at hAdd
    · cases hAdd
    · rcases error_of_bind hAdd with hMade | ⟨f, -, hAdd⟩
      · exact .kept hMade
      · cases hAdd
  · exact absurd h not_fails_pure

theorem helperField_fails {key : String} {helper : HelperConfig}
    (h : (helperField scope key helper).Fails e) : scope.Stops e := by
  have hField {type : FieldType} {label : String} {binding : Option Binding}
      (h : ((Field.checked {
        key := key, label := label, type := some type, helpText := helper.helpText,
        dynamic := binding }).orFail : Logged Field).Fails e) : scope.Stops e := by
    have hShape : Field.WellShaped {
        key := key, label := label, type := some type, helpText := helper.helpText,
        dynamic := binding } := ⟨rfl, nofun⟩
    rw [Field.checked_of_wellShaped hShape] at h
    exact absurd h not_fails_pure
  -- The field keeps the rule of shapes, so only the name of the type can stop a helper.
  unfold helperField at h
  dsimp only at h
  split at h
  · rcases fails_bind h with hPure | ⟨type, -, h⟩
    · exact absurd hPure not_fails_pure
    split at h
    · rcases fails_bind h with hBind | ⟨binding, -, h⟩
      · exact absurd hBind bind_fails
      · exact hField h
    · rcases fails_bind h with hPure | ⟨binding, -, h⟩
      · exact absurd hPure not_fails_pure
      · exact hField h
  · rcases fails_bind h with hFail | ⟨type, hFail, -⟩
    · exact fail_fails hFail
    · exact absurd hFail not_returns_throw

theorem addMerge_fails {site : Option ItemSite} {nested : Bool} {key : String}
    {helper : HelperConfig} {merges : List MergePlan} :
    ¬ (addMerge scope site nested key helper merges).Fails e := by
  intro h
  unfold addMerge at h
  dsimp only at h
  split at h
  · exact not_fails_pure h
  · split at h
    · exact not_fails_pure (fails_after_remark h)
    · exact not_fails_pure h

theorem attachHelper_fails {site : Option ItemSite} {a : Attachment}
    {named : String × HelperConfig} (ha : Hosts site a)
    (h : (attachHelper scope site a named).Fails e) : scope.Stops e := by
  obtain ⟨key, helper⟩ := named
  unfold attachHelper at h
  dsimp only at h
  split at h
  · next group hFound =>
    have hGroup : groupFor site helper.mapTo = some group := hFound
    split at h
    · exact absurd (fails_after_remark h) not_fails_pure
    rcases fails_bind h with hField | ⟨f, hField, h⟩
    · exact helperField_fails hField
    rcases fails_bind h with hAdd | ⟨fields, -, h⟩
    · -- the group takes the helper
      obtain ⟨fields', hAdded, -⟩ := addToGroup_shaped (ha.group group (groupFor_eq_some hGroup))
        ha.shapes (throughout_helper hField)
      obtain ⟨issues, hBad, -⟩ := fails_orFail hAdd
      exact nomatch hAdded.symm.trans hBad
    rcases fails_bind h with hMerge | ⟨merges, -, h⟩
    · exact absurd hMerge addMerge_fails
    · exact absurd h not_fails_pure
  · split at h
    · exact absurd (fails_after_remark h) not_fails_pure
    rcases fails_bind h with hField | ⟨f, -, h⟩
    · exact helperField_fails hField
    rcases fails_bind h with hPure | ⟨fields, -, h⟩
    · exact absurd hPure not_fails_pure
    rcases fails_bind h with hMerge | ⟨merges, -, h⟩
    · exact absurd hMerge addMerge_fails
    · exact absurd h not_fails_pure

theorem addHelpers_fails (hd : Ready scope 2 d) (h : (d.addHelpers scope).Fails e) :
    scope.Stops e := by
  unfold addHelpers at h
  rcases fails_bind h with hAttach | ⟨a, -, h⟩
  · obtain ⟨done, named, left, a, -, hDone, hStep⟩ := fails_foldlM hAttach
    have hHosts := returns_foldlM (I := Hosts (itemSite? scope d)) (hosts_start hd)
      (fun _ _ _ _ hStart hStep => attachHelper_hosts hStart hStep) hDone
    exact attachHelper_fails hHosts hStep
  · exact absurd h not_fails_pure

theorem bindings_fails {fields : List Field} : ¬ (bindings scope fields).Fails e := by
  intro h
  obtain ⟨f, -, hStep⟩ := fails_filterMapM h
  split at hStep
  · exact not_fails_pure hStep
  · rcases fails_bind hStep with hBind | ⟨binding, -, hStep⟩
    · exact bind_fails hBind
    · exact not_fails_pure hStep

theorem bindDropdowns_fails : ¬ (d.bindDropdowns scope).Fails e := by
  intro h
  unfold bindDropdowns at h
  rcases fails_bind h with hBindings | ⟨bound, -, h⟩
  · exact bindings_fails hBindings
  rcases fails_bind h with hWarnings | ⟨-, -, h⟩
  · refine not_fails_forIn (fun key _ hStep => ?_) _ _ hWarnings
    exact not_fails_pure (fails_after_remark hStep)
  · exact not_fails_pure h

theorem setDefault_fails {key : String} {v : Value}
    (hd : Field.Throughout Field.WellShaped d.fields) (h : (setDefault scope d key v).Fails e) :
    defaultText v = .error e := by
  unfold setDefault at h
  split at h
  · exact absurd h not_fails_pure
  · next f hFound =>
    dsimp only at h
    split at h
    · next hText =>
      -- the field that was found may have a default, since it holds text
      have hCheck (default : Option String) :
          ¬ ((Field.checked { f with default := default }).orFail : Logged Field).Fails e := by
        rw [Field.checked_of_wellShaped ((find?_shaped hd hFound).withDefault hText default)]
        exact not_fails_pure
      split at h
      · rcases fails_bind h with hPure | ⟨default, -, h⟩
        · exact absurd hPure not_fails_pure
        rcases fails_bind h with hChecked | ⟨-, -, h⟩
        · exact absurd hChecked (hCheck default)
        · exact absurd h not_fails_pure
      · rcases fails_bind h with hDefault | ⟨default, -, h⟩
        · exact fails_liftExcept (fails_map hDefault)
        rcases fails_bind h with hChecked | ⟨-, -, h⟩
        · exact absurd hChecked (hCheck default)
        · exact absurd h not_fails_pure
    · split at h
      all_goals
        split at h
        · exact absurd h not_fails_pure
        · exact absurd (fails_after_remark h) not_fails_pure

theorem addDefaults_fails (hd : Field.Throughout Field.WellShaped d.fields)
    (h : (d.addDefaults scope).Fails e) : scope.Stops e := by
  unfold addDefaults at h
  dsimp only at h
  split at h
  · obtain ⟨done, entry, left, d', hSplit, hDone, hStep⟩ := fails_foldlM h
    have hShapes := returns_foldlM (I := fun d => Field.Throughout Field.WellShaped d.fields) hd
      (fun _ _ _ _ hStart hStep => setDefault_shaped hStart hStep) hDone
    have hMem : entry ∈ scope.config.fieldDefaults :=
      hSplit ▸ List.mem_append_right _ List.mem_cons_self
    exact .default hMem (setDefault_fails hShapes hStep)
  · exact fail_fails h

theorem apply_fails {stage : Stage} (hd : Ready scope stage.rank d)
    (h : (stage.apply scope d).Fails e) : scope.Stops e := by
  cases stage with
  | visibility => exact absurd h not_fails_pure
  | flattening =>
    dsimp only [Stage.apply] at h
    split at h
    · split at h
      · exact flatten_fails hd.shapes h
      · exact absurd h not_fails_pure
    · exact absurd h not_fails_pure
  | helpers => exact addHelpers_fails hd h
  | dropdowns => exact absurd h bindDropdowns_fails
  | defaults => exact addDefaults_fails hd.shapes h

/-- **Why refining a draft fails.** The rule of shapes, which is checked at many places, is never the
reason. -/
theorem refine_fails (hGroup : scope.GroupApart) (hd : Ready scope 0 d)
    (h : (d.refine scope).Fails e) : scope.Stops e := by
  obtain ⟨done, stage, left, d', hStages, hDone, hStep⟩ := fails_foldlM h
  exact apply_fails (ready_for hGroup hd hStages hDone) (fails_after_remark hStep)

end Draft

end IntegrationCompiler
