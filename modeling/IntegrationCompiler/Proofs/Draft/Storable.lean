import IntegrationCompiler.Proofs.Draft.Shape
import IntegrationCompiler.Proofs.Operation.Kept
import IntegrationCompiler.Proofs.Response.Storable

/-!
# Drafts that can be stored

Whatever the stages of an action put into a draft comes from the sample or from the configuration,
and the fields that they leave keep the rule of shapes: they check it where they could break it.

Main definition: `Draft.Storable`.

Main result: `Draft.refine_storable` — the stages keep it.
-/

namespace IntegrationCompiler

open Value Logged

/-! ## Hidden keys -/

theorem Value.dropKeysOfItems_eq_map (names : List String) (items : List Value) :
    dropKeysOfItems names items = items.map (dropKeys names) := by
  induction items with
  | nil => rfl
  | cons v rest ih => rw [dropKeysOfItems, ih, List.map_cons]

theorem Value.Storable.dropKeys {v : Value} (h : v.Storable) (names : List String) :
    (v.dropKeys names).Storable := by
  obtain ⟨hJson, hKept⟩ := h
  induction hJson with
  | null => exact storable_null
  | bool b => exact storable_bool b
  | int n => exact ⟨.int n, hKept⟩
  | float negative m q => exact ⟨.float negative m q, hKept⟩
  | str s => exact storable_str s
  | list hItems ih =>
    rw [Value.dropKeys, dropKeysOfItems_eq_map]
    exact storable_list_iff.mpr (List.forall_mem_map.mpr fun v hv =>
      ih v hv fun s hs => hKept s (.item hv hs))
  | map hKeys hDistinct hValues _ =>
    rw [Value.dropKeys]
    exact Storable.sublist ⟨.map hKeys hDistinct hValues, hKept⟩ List.filter_sublist

/-- The inputs of the draft keep the rule of shapes, and what may hold any values can be stored. -/
structure Draft.Storable (d : Draft) : Prop where
  shapes : Field.Throughout Field.WellShaped d.fields
  sample : d.sample.Storable
  request : d.request.Storable

namespace Draft

variable {scope : Scope} {d d' : Draft}

theorem hide_storable (h : d.Storable) : (d.hide scope).Storable := by
  unfold hide
  dsimp only
  split
  · exact h
  · refine ⟨Field.throughout_dropHidden Field.keptByChildren_wellShaped h.shapes,
      h.sample.dropKeys _, h.request.fixed, fun body hBody => ?_⟩
    obtain ⟨body', hBody', rfl⟩ := Option.map_eq_some_iff.mp hBody
    exact h.request.defaults body' hBody'

theorem regroupSample_storable {arrayField group : String} {itemNames kept : List String}
    {sample : Value} (hDefaults : (Value.map scope.config.fieldDefaults).Storable)
    (h : sample.Storable) :
    (regroupSample scope arrayField group itemNames kept sample).Storable := by
  unfold regroupSample
  split
  · next es =>
    split
    · next first rest hList =>
      have hFirst : (Value.map first).Storable := by
        rcases getOrNull_eq_null_or_mem es arrayField with hNull | hMem
        · cases hNull.symm.trans hList
        · rw [hList] at hMem
          exact h.within (.entry hMem (.item List.mem_cons_self (.self _)))
      have hItem : (Value.map (first.filter fun field =>
          itemNames.any fun name => field.1 == .str name)).Storable :=
        hFirst.sublist List.filter_sublist
      -- beside the item stand values of the sample and configured defaults
      refine List.foldlRecOn kept _ (motive := fun (acc : Entries) => (Value.map acc).Storable)
        (storable_boxed hItem) fun acc hAcc name _ => ?_
      cases hFound : (Entries.get? es name).or (Entries.get? scope.config.fieldDefaults name) with
      | none => exact hAcc
      | some v =>
        refine hAcc.set ?_ name
        rcases Option.or_eq_some_iff.mp hFound with hOwn | ⟨-, hDefault⟩
        · exact h.get? hOwn
        · exact hDefaults.get? hDefault
    · exact h
  · exact h

theorem defaults_getD {p : RequestPlan} (h : p.Storable) :
    (Value.map (p.body.getD {}).defaults).Storable := by
  cases hBody : p.body with
  | none => exact storable_empty
  | some body => exact h.defaults body hBody

theorem flatten_storable {config : FlattenConfig} {additional : List String}
    (hDefaults : (Value.map scope.config.fieldDefaults).Storable) (h : d.Storable)
    (hFlatten : (d.flatten scope config additional).Returns d') : d'.Storable := by
  obtain ⟨kept, itemFields, placed, required, fields, -, hItem, hPlaced, hFields, rfl⟩ :=
    flatten_returns hFlatten
  have hBeside : Field.Throughout Field.WellShaped (fieldsBesideBody scope d) :=
    Field.throughout_iff_forall.mpr fun f hf =>
      Field.throughout_iff_forall.mp h.shapes f (List.mem_of_mem_filter hf)
  obtain ⟨placed', hPlaced', hShapes⟩ :=
    placeItem_shaped config (config.publicName.getD "") (Field.ofProperties_shaped hItem) hBeside
  cases Checked.ok.inj (hPlaced.symm.trans hPlaced')
  refine ⟨?_, ?_, h.request.fixed, ?_⟩
  · exact ok_of_foldlM hShapes (fun _ _ _ _ hStart hStep => addKept_shaped hStart hStep) hFields
  · dsimp only
    unfold flattenedSample
    split
    · exact regroupSample_storable hDefaults h.sample
    · exact h.sample
  · rintro body ⟨⟩
    exact defaults_getD h.request

/-- A helper that was put into a group left a group. -/
theorem addToGroup_keeps_shape {fields fields' : List Field} {group : String} {f : Field}
    (hFields : Field.Throughout Field.WellShaped fields)
    (hf : Field.Throughout Field.WellShaped [f])
    (h : addToGroup fields group f = .ok fields') : Field.Throughout Field.WellShaped fields' := by
  unfold addToGroup at h
  dsimp only at h
  split at h
  · next g hFound =>
    obtain ⟨g', hChecked, h⟩ := Checked.andThen_eq_ok.mp h
    cases h
    refine Field.throughout_updateFirst Field.keptByChildren_wellShaped (fun c hc hShaped => ?_) hFields
    cases Option.some.inj (hFound.symm.trans hc)
    have hShape := Field.wellShaped_of_checked hChecked
    rw [Field.checked_eq_ok hChecked] at hShape
    exact ⟨hShape, Field.throughout_append.mpr ⟨hShaped.2, hf⟩⟩
  · cases h
    exact hFields

theorem attachHelper_keeps_shape {site : Option ItemSite} {a a' : Attachment}
    {named : String × HelperConfig} (ha : Field.Throughout Field.WellShaped a.fields)
    (h : (attachHelper scope site a named).Returns a') :
    Field.Throughout Field.WellShaped a'.fields := by
  rcases attachHelper_returns h with rfl | ⟨f, hBuilt, hInGroup, hAlone, -⟩
  · exact ha
  have hf := throughout_helper hBuilt
  cases hGroup : groupFor site named.2.mapTo with
  | none => exact hAlone hGroup ▸ Field.throughout_append.mpr ⟨ha, hf⟩
  | some g => exact addToGroup_keeps_shape ha hf (hInGroup g hGroup)

theorem setDefault_storable {key : String} {v : Value} (hv : v.Storable) (h : d.Storable)
    (hStep : (setDefault scope d key v).Returns d') : d'.Storable := by
  have hShapes := setDefault_shaped h.shapes hStep
  rcases setDefault_returns hStep with rfl | ⟨_, rfl⟩ | rfl
  · exact h
  · exact ⟨hShapes, h.sample, h.request⟩
  · refine ⟨hShapes, h.sample, h.request.fixed, fun body hBody => ?_⟩
    obtain ⟨body', hBody', rfl⟩ := Option.map_eq_some_iff.mp hBody
    exact (h.request.defaults body' hBody').set hv key

theorem apply_storable {stage : Stage}
    (hDefaults : (Value.map scope.config.fieldDefaults).Storable) (h : d.Storable)
    (hStage : (stage.apply scope d).Returns d') : d'.Storable := by
  cases stage with
  | visibility =>
    have hHidden : d' = d.hide scope := returns_pure hStage
    rw [hHidden]
    exact hide_storable h
  | flattening =>
    rcases apply_flattening_returns hStage with ⟨config, additional, -, hFlatten⟩ | ⟨-, rfl⟩
    · exact flatten_storable hDefaults h hFlatten
    · exact h
  | helpers =>
    obtain ⟨a, ha, rfl⟩ := addHelpers_returns hStage
    -- helpers are new fields; the defaults of the body are those that were there
    have hShapes := returns_foldlM
      (I := fun a : Attachment => Field.Throughout Field.WellShaped a.fields) h.shapes
      (fun _ _ _ _ hStart hStep => attachHelper_keeps_shape hStart hStep) ha
    refine ⟨hShapes, h.sample, h.request.fixed, ?_⟩
    rintro body ⟨⟩
    exact defaults_getD h.request
  | dropdowns =>
    obtain ⟨bound, -, rfl⟩ := bindDropdowns_returns hStage
    refine ⟨mapLeaves_shaped bound h.shapes, h.sample, h.request.fixed, fun body hBody => ?_⟩
    obtain ⟨body', hBody', rfl⟩ := Option.map_eq_some_iff.mp hBody
    exact h.request.defaults body' hBody'
  | defaults =>
    refine addDefaults_invariant (I := Draft.Storable) h (fun e he d d' hd hStep => ?_) hStage
    exact setDefault_storable ((storable_map_iff.mp hDefaults).2.2 e he) hd hStep

theorem refine_storable (hDefaults : (Value.map scope.config.fieldDefaults).Storable)
    (h : d.Storable) (hRefine : (d.refine scope).Returns d') : d'.Storable :=
  refine_invariant (I := Draft.Storable) h
    (fun _ _ _ hStart hStep => apply_storable hDefaults hStart hStep) hRefine

end Draft

end IntegrationCompiler
