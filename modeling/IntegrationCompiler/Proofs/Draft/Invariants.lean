import IntegrationCompiler.Proofs.Draft.Stages
import IntegrationCompiler.Proofs.Field.Tree

/-!
# What all stages keep

* `Draft.refine_method` — the method of the request;
* `Draft.refine_fills` — every dropdown, at any depth, is filled by a trigger that is there;
* `Draft.refine_groupNamed` — the group around the inputs of an item has a key.
-/

namespace IntegrationCompiler

open Logged

variable {scope : Scope} {d d' : Draft}

namespace Draft

/-! ## The method -/

theorem apply_method {stage : Stage} (h : (stage.apply scope d).Returns d') :
    d'.request.method = d.request.method := by
  cases stage with
  | visibility =>
    have hHidden : d' = d.hide scope := returns_pure h
    rw [hHidden]
    unfold hide RequestPlan.hide
    dsimp only
    split <;> rfl
  | flattening =>
    rcases apply_flattening_returns h with ⟨config, additional, -, h⟩ | ⟨-, rfl⟩
    · obtain ⟨kept, itemFields, placed, required, fields, -, -, -, -, rfl⟩ :=
        flatten_returns h
      rfl
    · rfl
  | helpers =>
    obtain ⟨a, -, rfl⟩ := addHelpers_returns h
    rfl
  | dropdowns =>
    obtain ⟨bound, -, rfl⟩ := bindDropdowns_returns h
    rfl
  | defaults =>
    refine addDefaults_invariant (I := fun e => e.request.method = d.request.method) rfl ?_ h
    intro _ _ e e' he hStep
    rcases setDefault_returns hStep with rfl | ⟨default, rfl⟩ | rfl <;> exact he

/-- The stages do not change the method of the request. -/
theorem refine_method (h : (d.refine scope).Returns d') :
    d'.request.method = d.request.method :=
  refine_invariant (I := fun e => e.request.method = d.request.method) rfl
    (fun _ _ _ he hStage => (apply_method hStage).trans he) h

/-! ## Dropdowns -/

theorem fills_of_plain {f : Field} (h : f.Plain) : scope.Fills f := by
  intro b hb
  rw [h.dynamic_eq] at hb
  cases hb

/-- Fields that were just made have no dropdowns. -/
theorem throughout_fills_of_plain {fs : List Field} (h : ∀ f ∈ fs, f.Plain) :
    Field.Throughout scope.Fills fs :=
  Field.throughout_of_leaves (fun f hf => (h f hf).children_eq) fun f hf => fills_of_plain (h f hf)

theorem flatten_fills {config : FlattenConfig} {additional : List String}
    (hd : Field.Throughout scope.Fills d.fields)
    (h : (d.flatten scope config additional).Returns d') :
    Field.Throughout scope.Fills d'.fields := by
  obtain ⟨kept, itemFields, placed, required, fields, -, hItem, hPlaced, hFields, rfl⟩ :=
    flatten_returns h
  have hItemFills : ∀ f ∈ itemFields, scope.Fills f ∧ Field.Throughout scope.Fills f.children :=
    Field.throughout_iff_forall.mp (throughout_fills_of_plain (Field.ofProperties_ok hItem).plain)
  have hBeside : Field.Throughout scope.Fills (fieldsBesideBody scope d) :=
    Field.throughout_iff_forall.mpr fun f hf =>
      Field.throughout_iff_forall.mp hd f (List.mem_of_mem_filter hf)
  have hPlacedFills : Field.Throughout scope.Fills placed := by
    rcases placeItem_ok hPlaced with ⟨key, g, -, rfl, -, hChildren, hDynamic⟩ | ⟨-, rfl⟩
    · -- the group itself has no dropdown
      refine Field.throughout_append.mpr
        ⟨hBeside, Field.throughout_cons.mpr ⟨⟨?_, ?_⟩, Field.throughout_nil⟩⟩
      · intro b hb
        rw [hDynamic] at hb
        cases hb
      · rw [hChildren]
        exact Field.throughout_iff_forall.mpr hItemFills
    · exact Field.throughout_append.mpr ⟨hBeside, Field.throughout_iff_forall.mpr fun f hf =>
        hItemFills f (List.mem_of_mem_filter hf)⟩
  obtain ⟨more, rfl, hMore, -⟩ := foldlM_addKept_ok hFields
  exact Field.throughout_append.mpr
    ⟨hPlacedFills, throughout_fills_of_plain fun f hf => (hMore f hf).1⟩

theorem attachHelper_fills {site : Option ItemSite} {a a' : Attachment}
    {named : String × HelperConfig} (ha : Field.Throughout scope.Fills a.fields)
    (h : (attachHelper scope site a named).Returns a') :
    Field.Throughout scope.Fills a'.fields := by
  rcases attachHelper_returns h with rfl | ⟨f, hBuilt, hInGroup, hAlone, -⟩
  · exact ha
  obtain ⟨-, hLeaf, hFills⟩ := helperField_returns hBuilt
  have hField : Field.Throughout scope.Fills [f] :=
    Field.throughout_of_leaves (List.forall_mem_singleton.mpr hLeaf)
      (List.forall_mem_singleton.mpr hFills)
  cases hGroup : groupFor site named.2.mapTo with
  | none =>
    rw [hAlone hGroup]
    exact Field.throughout_append.mpr ⟨ha, hField⟩
  | some g =>
    rcases addToGroup_ok (hInGroup g hGroup) with ⟨-, hSame⟩ | hAdded
    · rwa [hSame]
    · rw [hAdded]
      refine Field.throughout_updateFirst ?_ ?_ ha
      · exact fun f cs _ hf => hf
      · exact fun f _ hf => ⟨hf.1, Field.throughout_append.mpr ⟨hf.2, hField⟩⟩

theorem fills_withDropdown {bound : List (String × Binding)}
    (hBound : ∀ b ∈ bound, b.2.triggerKey ∈ scope.dropdowns) {f : Field} (hf : scope.Fills f) :
    scope.Fills (withDropdown bound f) := by
  unfold withDropdown
  split
  · next b hb =>
    obtain ⟨front, back, rfl, -⟩ := List.lookup_eq_some_iff.mp hb
    rintro b' ⟨⟩
    exact hBound (f.key, b) (List.mem_append_right _ List.mem_cons_self)
  · exact hf

theorem apply_fills {stage : Stage} (hd : Field.Throughout scope.Fills d.fields)
    (h : (stage.apply scope d).Returns d') : Field.Throughout scope.Fills d'.fields := by
  cases stage with
  | visibility =>
    have hHidden : d' = d.hide scope := returns_pure h
    rw [hHidden]
    unfold hide
    dsimp only
    split
    · exact hd
    · exact Field.throughout_dropHidden (fun _ _ _ hf => hf) hd
  | flattening =>
    rcases apply_flattening_returns h with ⟨config, additional, -, h⟩ | ⟨-, rfl⟩
    · exact flatten_fills hd h
    · exact hd
  | helpers =>
    obtain ⟨a, ha, rfl⟩ := addHelpers_returns h
    exact returns_foldlM (I := fun a => Field.Throughout scope.Fills a.fields) hd
      (fun _ _ _ _ hStart hStep => attachHelper_fills hStart hStep) ha
  | dropdowns =>
    obtain ⟨bound, hBound, rfl⟩ := bindDropdowns_returns h
    refine Field.throughout_mapLeaves (fun _ _ _ hf => hf) (fun f hLeaf hf => ?_) hd
    refine ⟨fills_withDropdown hBound hf, ?_⟩
    -- with a dropdown or without, a leaf stays a leaf
    unfold withDropdown
    split
    all_goals
      rw [hLeaf]
      exact Field.throughout_nil
  | defaults =>
    refine addDefaults_invariant (I := fun e => Field.Throughout scope.Fills e.fields) hd ?_ h
    intro _ _ e e' he hStep
    rcases setDefault_returns hStep with rfl | ⟨default, rfl⟩ | rfl
    · exact he
    · refine Field.throughout_updateFirst ?_ ?_ he
      · exact fun f cs _ hf => hf
      · exact fun f _ hf => hf
    · exact he

/-- **No stage gives a field a dropdown that no trigger fills.** -/
theorem refine_fills (hd : Field.Throughout scope.Fills d.fields)
    (h : (d.refine scope).Returns d') : Field.Throughout scope.Fills d'.fields :=
  refine_invariant (I := fun e => Field.Throughout scope.Fills e.fields) hd
    (fun _ _ _ he hStage => apply_fills he hStage) h

/-! ## The group of an item -/

/-- A list that is flattened with a group has a key for it. -/
def GroupNamed (d : Draft) : Prop :=
  ∀ b ∈ d.request.body, ∀ flatten ∈ b.flatten, flatten.groupKey ≠ some ""

theorem groupNamed_of_no_item (h : ∀ b ∈ d.request.body, b.flatten = none) : d.GroupNamed := by
  intro b hb flatten hFlatten
  rw [h b hb] at hFlatten
  cases hFlatten

theorem groupKey_flattenedBody {config : FlattenConfig} {kept : List String}
    {itemFields : List Field} {previous : BodyPlan} : ∀ flatten ∈
      (flattenedBody scope config kept itemFields previous).flatten,
      flatten.groupKey = groupKey? config itemFields := by
  unfold flattenedBody
  dsimp only
  intro flatten hFlatten
  rw [← Option.some.inj hFlatten]

theorem flatten_groupNamed {config : FlattenConfig} {additional : List String}
    (h : (d.flatten scope config additional).Returns d') : d'.GroupNamed := by
  obtain ⟨kept, itemFields, placed, required, fields, -, -, -, -, rfl⟩ := flatten_returns h
  intro b hb flatten hFlatten hEmpty
  rw [← Option.some.inj hb] at hFlatten
  rw [groupKey_flattenedBody flatten hFlatten] at hEmpty
  exact (groupKey?_eq_some hEmpty).1 rfl

theorem apply_groupNamed {stage : Stage} (hd : d.GroupNamed)
    (h : (stage.apply scope d).Returns d') : d'.GroupNamed := by
  cases stage with
  | visibility =>
    have hHidden : d' = d.hide scope := returns_pure h
    rw [hHidden]
    unfold hide
    dsimp only
    split
    · exact hd
    · intro b hb
      obtain ⟨b', hb', rfl⟩ := Option.map_eq_some_iff.mp hb
      exact hd b' hb'
  | flattening =>
    rcases apply_flattening_returns h with ⟨config, additional, -, h⟩ | ⟨-, rfl⟩
    · exact flatten_groupNamed h
    · exact hd
  | helpers =>
    obtain ⟨a, -, rfl⟩ := addHelpers_returns h
    rintro _ ⟨⟩ flatten hFlatten
    -- without a body there is no list either
    cases hBody : d.request.body with
    | none =>
      rw [hBody] at hFlatten
      cases hFlatten
    | some b =>
      rw [hBody] at hFlatten
      exact hd b hBody flatten hFlatten
  | dropdowns =>
    obtain ⟨bound, -, rfl⟩ := bindDropdowns_returns h
    intro b hb flatten hFlatten
    obtain ⟨b', hb', rfl⟩ := Option.map_eq_some_iff.mp hb
    obtain ⟨flatten', hFlatten', rfl⟩ := Option.map_eq_some_iff.mp hFlatten
    exact hd b' hb' flatten' hFlatten'
  | defaults =>
    refine addDefaults_invariant (I := GroupNamed) hd ?_ h
    intro _ _ e e' he hStep
    rcases setDefault_returns hStep with rfl | ⟨default, rfl⟩ | rfl
    · exact he
    · exact he
    · intro b hb
      obtain ⟨b', hb', rfl⟩ := Option.map_eq_some_iff.mp hb
      exact he b' hb'

/-- **No stage makes a group without a key.** -/
theorem refine_groupNamed (hd : d.GroupNamed) (h : (d.refine scope).Returns d') : d'.GroupNamed :=
  refine_invariant hd (fun _ _ _ he hStage => apply_groupNamed he hStage) h

end Draft

end IntegrationCompiler
