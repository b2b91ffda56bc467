import IntegrationCompiler.Proofs.Draft.Coverage
import IntegrationCompiler.Proofs.Field.Shape

/-!
# Shapes of fields on the way through the stages

If the group of the item does not have the name of a parameter, the stages keep the rule of shapes,
not only in the end but at every moment.

* `Stage.Moment`, `Draft.Moment` — the fields that are there at some moment;
* `Draft.Ready` — what a draft is like before each stage; `Draft.apply_ready` — what it is like after
  one; `Draft.ready_for` — when the turn of a stage comes;
* `Draft.moment_shaped` — all fields at all moments keep the rule.
-/

namespace IntegrationCompiler

open Logged

/-! ## Moments -/

/-- Fields that are there at some moment while a stage changes a draft: fields that were just made,
or those of the draft after some of the changes. -/
inductive Stage.Moment (scope : Scope) (d : Draft) : Stage → List Field → Prop where
  | itemMade {fs : List Field} :
    Field.ofProperties scope.itemSchema scope.config.hideRequestBodyProperties = .ok fs →
    Moment scope d .flattening fs
  | keptAdded {config : FlattenConfig} {itemFields placed fs : List Field}
    {additional done left : List String} {required : List Scalar} :
    scope.flatten? = some config → (Draft.keptProperties scope additional).Returns (done ++ left) →
    Field.ofProperties scope.itemSchema scope.config.hideRequestBodyProperties = .ok itemFields →
    Draft.placeItem (Draft.groupKey? config itemFields) (config.publicName.getD "") itemFields
      (Draft.fieldsBesideBody scope d) = .ok placed →
    done.foldlM (Draft.addKept scope required) placed = .ok fs → Moment scope d .flattening fs
  | helperMade {named : String × HelperConfig} {f : Field} : named ∈ scope.config.helperFields →
    (Draft.helperField scope named.1 named.2).Returns f → Moment scope d .helpers [f]
  | helperAdded {done left : List (String × HelperConfig)} {a : Draft.Attachment} :
    scope.config.helperFields = done ++ left →
    (done.foldlM (Draft.attachHelper scope (Draft.itemSite? scope d))
      { fields := d.fields }).Returns a → Moment scope d .helpers a.fields
  | dropdownSet {done left : List (String × Binding)} :
    (Draft.bindings scope d.fields).Returns (done ++ left) →
    Moment scope d .dropdowns (Field.mapLeaves (Draft.withDropdown done) d.fields)
  | defaultSet {done left : Entries} {d' : Draft} : scope.config.fieldDefaults = done ++ left →
    (done.foldlM (fun d (entry : Scalar × Value) =>
      Draft.setDefault scope d entry.1.text entry.2) d).Returns d' →
    Moment scope d .defaults d'.fields

/-- Fields that are there at some moment while a draft is refined: between two stages, or within
one. -/
inductive Draft.Moment (scope : Scope) (d : Draft) : List Field → Prop where
  | between {done left : List Stage} {d' : Draft} : scope.config.stages = done ++ left →
    (done.foldlM (Draft.refineBy scope) d).Returns d' → Moment scope d d'.fields
  | within {done left : List Stage} {stage : Stage} {d' : Draft} {fs : List Field} :
    scope.config.stages = done ++ stage :: left →
    (done.foldlM (Draft.refineBy scope) d).Returns d' → stage.Moment scope d' fs →
    Moment scope d fs

/-- The place of a stage in the fixed order. -/
def Stage.rank : Stage → Nat
  | .visibility => 0
  | .flattening => 1
  | .helpers => 2
  | .dropdowns => 3
  | .defaults => 4

/-- The group of the item, if there is one, does not have the name of a parameter. -/
def Scope.GroupApart (scope : Scope) : Prop :=
  ∀ config, scope.flatten? = some config → ∀ key, key ≠ "" →
    key = slugify (config.publicName.getD "") → key ∉ scope.parameterNames

/-! ## Fields that were just made -/

namespace Field

theorem ofParameters_shaped {parameters : List Parameter} {exclude : List String}
    {fs : List Field} (h : ofParameters parameters exclude = .ok fs) :
    Throughout WellShaped fs := by
  refine throughout_of_leaves (ofParameters_ok h).children_eq fun f hf => ?_
  obtain ⟨p, -, hMade⟩ := exists_left_of_mem (ok_of_mapM h) hf
  exact ofSchema_wellShaped hMade

theorem ofProperties_shaped {schema : Value} {exclude : List String} {fs : List Field}
    (h : ofProperties schema exclude = .ok fs) : Throughout WellShaped fs := by
  refine throughout_of_leaves (ofProperties_ok h).children_eq fun f hf => ?_
  obtain ⟨required, -, h⟩ := ok_of_bind h
  obtain ⟨⟨k, v⟩, -, hMade⟩ := exists_left_of_mem (ok_of_mapM h) hf
  dsimp only at hMade
  split at hMade
  · exact ofSchema_wellShaped hMade
  · cases hMade

end Field

namespace Draft

variable {scope : Scope} {d d' : Draft}

/-! ## Flattening -/

theorem addKept_shaped {required : List Scalar} {fields fields' : List Field} {name : String}
    (hFields : Field.Throughout Field.WellShaped fields)
    (h : addKept scope required fields name = .ok fields') :
    Field.Throughout Field.WellShaped fields' := by
  unfold addKept at h
  split at h
  · cases h
    exact hFields
  · obtain ⟨f, hf, h⟩ := ok_of_bind h
    cases h
    refine Field.throughout_append.mpr ⟨hFields, Field.throughout_of_leaves ?_ ?_⟩
    · exact List.forall_mem_singleton.mpr (Field.ofSchema_ok hf).2.children_eq
    · exact List.forall_mem_singleton.mpr (Field.ofSchema_wellShaped hf)

/-- Placing an item never breaks the rule: a group is made around some fields only. -/
theorem placeItem_shaped (config : FlattenConfig) (label : String)
    {itemFields fields : List Field} (hItem : Field.Throughout Field.WellShaped itemFields)
    (hFields : Field.Throughout Field.WellShaped fields) :
    ∃ placed, placeItem (groupKey? config itemFields) label itemFields fields = .ok placed ∧
      Field.Throughout Field.WellShaped placed := by
  cases hGroup : groupKey? config itemFields with
  | none =>
    refine ⟨_, rfl, Field.throughout_append.mpr ⟨hFields, ?_⟩⟩
    exact Field.throughout_iff_forall.mpr fun f hf =>
      Field.throughout_iff_forall.mp hItem f (List.mem_of_mem_filter hf)
  | some key =>
    obtain ⟨-, hSome, -⟩ := groupKey?_eq_some hGroup
    have hShape : Field.WellShaped
        { key := key, label := label, required := true, children := itemFields } :=
      Field.wellShaped_group hSome
    refine ⟨_, by rw [placeItem, Field.checked_of_wellShaped hShape]; rfl, ?_⟩
    exact Field.throughout_append.mpr
      ⟨hFields, Field.throughout_cons.mpr ⟨⟨hShape, hItem⟩, Field.throughout_nil⟩⟩

/-! ## Helpers -/

/-- The field of a helper keeps the rule, whatever its type. -/
theorem helperField_shaped {key : String} {helper : HelperConfig} {f : Field}
    (h : (helperField scope key helper).Returns f) : f.WellShaped := by
  unfold helperField at h
  dsimp only at h
  split at h
  · obtain ⟨type, -, h⟩ := returns_bind h
    split at h
    all_goals
      obtain ⟨binding, -, h⟩ := returns_bind h
      exact Field.wellShaped_of_checked (returns_orFail h)
  · obtain ⟨_, hFail, -⟩ := returns_bind h
    exact absurd hFail not_returns_throw

/-- A helper that stands in the group of the item never breaks the rule there. -/
theorem addToGroup_shaped {fields : List Field} {key : String} {f : Field}
    (hGroup : GroupPlaced key fields) (hFields : Field.Throughout Field.WellShaped fields)
    (hf : Field.Throughout Field.WellShaped [f]) :
    ∃ fields', addToGroup fields key f = .ok fields' ∧
      Field.Throughout Field.WellShaped fields' := by
  obtain ⟨-, before, g, after, rfl, hg, hSome, hBefore⟩ := hGroup
  rw [Field.throughout_append, Field.throughout_cons] at hFields
  obtain ⟨hFront, ⟨hShape, hUnder⟩, hBack⟩ := hFields
  refine ⟨before ++ { g with children := g.children ++ [f] } :: after, ?_, ?_⟩
  · rw [addToGroup, Field.find?_behind_leaves hBefore hg]
    dsimp only
    rw [Field.checked_of_wellShaped (hShape.withChild hSome f), Checked.andThen,
      Field.updateFirst_behind_leaves hBefore hg]
  · exact Field.throughout_append.mpr ⟨hFront, Field.throughout_cons.mpr
      ⟨⟨hShape.withChild hSome f, Field.throughout_append.mpr ⟨hUnder, hf⟩⟩, hBack⟩⟩

/-- Fields and merges to which helpers have been added: the rule is kept, and the group is where
helpers look for it. -/
structure Hosts (site : Option ItemSite) (a : Attachment) : Prop where
  shapes : Field.Throughout Field.WellShaped a.fields
  group : ∀ key, site.bind (·.group) = some key → GroupPlaced key a.fields

theorem throughout_helper {key : String} {helper : HelperConfig} {f : Field}
    (h : (helperField scope key helper).Returns f) : Field.Throughout Field.WellShaped [f] :=
  Field.throughout_of_leaves (List.forall_mem_singleton.mpr (helperField_returns h).2.1)
    (List.forall_mem_singleton.mpr (helperField_shaped h))

theorem attachHelper_hosts {site : Option ItemSite} {a a' : Attachment}
    {named : String × HelperConfig} (ha : Hosts site a)
    (h : (attachHelper scope site a named).Returns a') : Hosts site a' := by
  rcases attachHelper_returns h with rfl | ⟨f, hBuilt, hInGroup, hAlone, -⟩
  · exact ha
  obtain ⟨-, hLeaf, -⟩ := helperField_returns hBuilt
  have hf := throughout_helper hBuilt
  -- A helper that maps into the item goes into its group; every other stands at the end.
  cases hGroup : groupFor site named.2.mapTo with
  | none =>
    have hFields := hAlone hGroup
    refine ⟨hFields ▸ Field.throughout_append.mpr ⟨ha.shapes, hf⟩, fun key hKey => ?_⟩
    rw [hFields]
    exact (ha.group key hKey).append _
  | some g =>
    have hPlaced := ha.group g (groupFor_eq_some hGroup)
    obtain ⟨fields', hAdded, hShapes⟩ := addToGroup_shaped hPlaced ha.shapes hf
    cases Checked.ok.inj ((hInGroup g hGroup).symm.trans hAdded)
    refine ⟨hShapes, fun key hKey => ?_⟩
    cases Option.some.inj ((groupFor_eq_some hGroup).symm.trans hKey)
    exact (addToGroup_placed hPlaced hLeaf (hInGroup g hGroup)).1

/-! ## Dropdowns and defaults -/

theorem mapLeaves_shaped (bound : List (String × Binding)) {fs : List Field}
    (h : Field.Throughout Field.WellShaped fs) :
    Field.Throughout Field.WellShaped (Field.mapLeaves (withDropdown bound) fs) := by
  refine Field.throughout_mapLeaves Field.keptByChildren_wellShaped (fun f hLeaf hf => ?_) h
  unfold withDropdown
  split
  · refine ⟨hf.withDynamic _, ?_⟩
    rw [hLeaf]
    exact Field.throughout_nil
  · rw [hLeaf]
    exact ⟨hf, Field.throughout_nil⟩

theorem find?_shaped {fs : List Field} {key : String} {f : Field}
    (hFields : Field.Throughout Field.WellShaped fs) (h : Field.find? fs key = some f) :
    f.WellShaped :=
  hFields f (List.mem_of_find?_eq_some h)

theorem setDefault_shaped {key : String} {v : Value}
    (hd : Field.Throughout Field.WellShaped d.fields)
    (h : (setDefault scope d key v).Returns d') :
    Field.Throughout Field.WellShaped d'.fields := by
  unfold setDefault at h
  split at h
  · cases returns_pure h
    exact hd
  · next f hFound =>
    have hUpdate (hText : f.type = some .string) (default : Option String) :
        Field.Throughout Field.WellShaped
          (Field.updateFirst key (fun g => { g with default := default }) d.fields) := by
      refine Field.throughout_updateFirst Field.keptByChildren_wellShaped (fun g hg hShaped => ?_) hd
      -- the field that changes is the one whose type was looked at
      cases Option.some.inj (hFound.symm.trans hg)
      exact ⟨hShaped.1.withDefault hText default, hShaped.2⟩
    dsimp only at h
    split at h
    · next hText =>
      split at h
      all_goals
        obtain ⟨default, -, h⟩ := returns_bind h
        obtain ⟨-, -, h⟩ := returns_bind h
        cases returns_pure h
        exact hUpdate hText default
    · split at h
      all_goals
        split at h
        · cases returns_pure h
          exact hd
        · cases returns_pure (returns_after_remark h)
          exact hd

/-! ## One stage after another -/

/-- What a draft is like before the stages from some place on. At first its fields are leaves; those
that do not come from the body belong to parameters; and from flattening until the helpers are there
the group of the item is where they look for it. -/
structure Ready (scope : Scope) (place : Nat) (d : Draft) : Prop where
  shapes : Field.Throughout Field.WellShaped d.fields
  fresh : place ≤ 0 → ∀ f ∈ d.fields, f.children = [] ∧
    (f.key ∈ scope.parameterNames ∨ f.key ∈ d.request.bodyNames)
  beside : place ≤ 1 → ∀ f ∈ fieldsBesideBody scope d,
    f.children = [] ∧ f.key ∈ scope.parameterNames
  unflattened : place ≤ 1 → ∀ body ∈ d.request.body, body.flatten = none
  grouped : place ≤ 2 → ∀ body ∈ d.request.body, ∀ flatten ∈ body.flatten,
    ∀ key ∈ flatten.groupKey, GroupPlaced key d.fields

namespace Ready

theorem mono {place place' : Nat} (h : Ready scope place d) (hPlace : place ≤ place') :
    Ready scope place' d where
  shapes := h.shapes
  fresh hLate := h.fresh (Nat.le_trans hPlace hLate)
  beside hLate := h.beside (Nat.le_trans hPlace hLate)
  unflattened hLate := h.unflattened (Nat.le_trans hPlace hLate)
  grouped hLate := h.grouped (Nat.le_trans hPlace hLate)

/-- After the helpers nothing but the rule of shapes is needed. -/
theorem of_shapes {place : Nat} (hLate : 2 < place)
    (h : Field.Throughout Field.WellShaped d.fields) : Ready scope place d where
  shapes := h
  fresh hEarly := by omega
  beside hEarly := by omega
  unflattened hEarly := by omega
  grouped hEarly := by omega

end Ready

theorem mem_fieldsBesideBody {f : Field} : f ∈ fieldsBesideBody scope d ↔
    f ∈ d.fields ∧ (f.key ∈ scope.parameterNames ∨ f.key ∉ d.request.bodyNames) := by
  have hNames : ((d.request.body.map (·.propertyNames)).getD []) = d.request.bodyNames := by
    unfold RequestPlan.bodyNames
    cases d.request.body with
    | none => rfl
    | some body => simp
  unfold fieldsBesideBody
  rw [List.mem_filter, ← hNames]
  simp

/-- Before anything is hidden the fields are those of parameters and of the body. -/
theorem ready_of_fresh (hShapes : Field.Throughout Field.WellShaped d.fields)
    (hFresh : ∀ f ∈ d.fields, f.children = [] ∧
      (f.key ∈ scope.parameterNames ∨ f.key ∈ d.request.bodyNames))
    (hUnflattened : ∀ body ∈ d.request.body, body.flatten = none) : Ready scope 0 d where
  shapes := hShapes
  fresh _ := hFresh
  beside _ f hf := by
    obtain ⟨hMem, hBeside⟩ := mem_fieldsBesideBody.mp hf
    obtain ⟨hLeaf, hName⟩ := hFresh f hMem
    exact ⟨hLeaf, hBeside.elim id fun hNot => hName.resolve_right hNot⟩
  unflattened _ := hUnflattened
  grouped _ body hBody flatten hFlatten := by
    rw [hUnflattened body hBody] at hFlatten
    cases hFlatten

theorem hide_ready (h : Ready scope 0 d) : Ready scope 1 (d.hide scope) := by
  unfold hide
  dsimp only
  split
  · exact h.mono (Nat.zero_le 1)
  · have hFresh := h.fresh (Nat.le_refl 0)
    have hKept : ∀ f ∈ Field.dropHidden (scope.hiddenQuery ++ scope.hiddenBody) d.fields,
        f ∈ d.fields ∧ f.key ∉ scope.hiddenBody := by
      intro f hf
      rw [Field.dropHidden_of_leaves fun f hf => (hFresh f hf).1, List.mem_filter] at hf
      refine ⟨hf.1, fun hHidden => ?_⟩
      have hStays := hf.2
      rw [List.contains_iff_mem.mpr (List.mem_append_right _ hHidden)] at hStays
      cases hStays
    have hUnflattened : ∀ body ∈ (d.request.hide scope.hiddenQuery scope.hiddenBody).body,
        body.flatten = none := by
      intro body hBody
      obtain ⟨body', hBody', rfl⟩ := Option.map_eq_some_iff.mp hBody
      exact h.unflattened (Nat.zero_le 1) body' hBody'
    refine ⟨Field.throughout_dropHidden Field.keptByChildren_wellShaped h.shapes, by omega,
      fun _ f hf => ?_, fun _ => hUnflattened, fun _ body hBody flatten hFlatten => ?_⟩
    · obtain ⟨hMem, hBeside⟩ := mem_fieldsBesideBody.mp hf
      obtain ⟨hThere, hShown⟩ := hKept f hMem
      obtain ⟨hLeaf, hName⟩ := hFresh f hThere
      -- a property that is not hidden is still asked for
      exact ⟨hLeaf, hBeside.elim id fun hNot => hName.resolve_right fun hProperty =>
        hNot (mem_bodyNames_hide.mpr ⟨hProperty, hShown⟩)⟩
    · rw [hUnflattened body hBody] at hFlatten
      cases hFlatten

theorem flatten_ready {config : FlattenConfig} {additional : List String}
    (hGroup : ∀ key, key ≠ "" → key = slugify (config.publicName.getD "") →
      key ∉ scope.parameterNames)
    (h : Ready scope 1 d) (hFlatten : (d.flatten scope config additional).Returns d') :
    Ready scope 2 d' := by
  obtain ⟨kept, itemFields, placed, required, fields, -, hItem, hPlaced, hFields, rfl⟩ :=
    flatten_returns hFlatten
  have hBeside : Field.Throughout Field.WellShaped (fieldsBesideBody scope d) :=
    Field.throughout_iff_forall.mpr fun f hf =>
      Field.throughout_iff_forall.mp h.shapes f (List.mem_of_mem_filter hf)
  obtain ⟨placed', hPlaced', hShapes⟩ :=
    placeItem_shaped config (config.publicName.getD "") (Field.ofProperties_shaped hItem) hBeside
  cases Checked.ok.inj (hPlaced.symm.trans hPlaced')
  refine ⟨?_, by omega, by omega, by omega, fun _ body hBody flatten hPlan key hKey => ?_⟩
  · exact ok_of_foldlM hShapes (fun _ _ _ _ hStart hStep => addKept_shaped hStart hStep) hFields
  · have hSame : flattenedBody scope config kept itemFields (d.request.body.getD {}) = body :=
      Option.some.inj hBody
    rw [← hSame, flattenedBody, Option.mem_some_iff] at hPlan
    rw [← hPlan, Option.mem_def] at hKey
    dsimp only at hKey
    -- behind the fields beside the body, none of which has its key
    obtain ⟨hNotEmpty, hSome, hSlug⟩ := groupKey?_eq_some hKey
    obtain ⟨more, rfl, -, -⟩ := foldlM_addKept_ok hFields
    rcases placeItem_ok hPlaced with ⟨key', g, hKey', rfl, hg, hChildren, -⟩ | ⟨hNone, -⟩
    · cases Option.some.inj (hKey.symm.trans hKey')
      refine ⟨hNotEmpty, fieldsBesideBody scope d, g, more, ?_, hg, by rwa [hChildren], ?_⟩
      · rw [List.append_assoc, List.singleton_append]
      · intro f hf
        obtain ⟨hLeaf, hParameter⟩ := h.beside (Nat.le_refl 1) f hf
        refine ⟨hLeaf, fun hSame => hGroup key hNotEmpty hSlug ?_⟩
        rw [← hSame]
        exact hParameter
    · cases hKey.symm.trans hNone

/-- Where the helpers are added, the group of their site is the one that was made. -/
theorem hosts_start (h : Ready scope 2 d) :
    Hosts (itemSite? scope d) { fields := d.fields } where
  shapes := h.shapes
  group key hKey := by
    obtain ⟨site, hSite, hKey⟩ := Option.bind_eq_some_iff.mp hKey
    obtain ⟨flatten, hFlatten, rfl⟩ := Option.map_eq_some_iff.mp hSite
    obtain ⟨body, hBody, hFlatten⟩ := Option.bind_eq_some_iff.mp hFlatten
    exact h.grouped (Nat.le_refl 2) body hBody flatten hFlatten key
      (Option.filter_eq_some_iff.mp hKey).1

theorem apply_ready {stage : Stage} (hGroup : scope.GroupApart) (h : Ready scope stage.rank d)
    (hStage : (stage.apply scope d).Returns d') : Ready scope (stage.rank + 1) d' := by
  cases stage with
  | visibility =>
    have hHidden : d' = d.hide scope := returns_pure hStage
    rw [hHidden]
    exact hide_ready h
  | flattening =>
    rcases apply_flattening_returns hStage with ⟨config, additional, hConfig, hFlatten⟩ | ⟨-, rfl⟩
    · exact flatten_ready (hGroup config hConfig) h hFlatten
    · exact h.mono (Nat.le_succ 1)
  | helpers =>
    obtain ⟨a, ha, rfl⟩ := addHelpers_returns hStage
    have hHosts := returns_foldlM (I := Hosts (itemSite? scope d)) (hosts_start h)
      (fun _ _ _ _ hStart hStep => attachHelper_hosts hStart hStep) ha
    exact .of_shapes (by decide) hHosts.shapes
  | dropdowns =>
    obtain ⟨bound, -, rfl⟩ := bindDropdowns_returns hStage
    exact .of_shapes (by decide) (mapLeaves_shaped bound h.shapes)
  | defaults =>
    refine .of_shapes (by decide) ?_
    exact addDefaults_invariant (I := fun d => Field.Throughout Field.WellShaped d.fields) h.shapes
      (fun _ _ _ _ hStart hStep => setDefault_shaped hStart hStep) hStage

/-- The stages come in the fixed order. -/
theorem stages_sorted (config : ActionConfig) :
    config.stages.Pairwise fun stage stage' => stage.rank < stage'.rank :=
  List.Pairwise.filter _ (by decide)

/-- **After some of the stages the draft is ready for those that are left.** -/
theorem ready_after (hGroup : scope.GroupApart) {place : Nat} {done left : List Stage}
    (hSorted : (done ++ left).Pairwise fun stage stage' => stage.rank < stage'.rank)
    (hLater : ∀ stage ∈ done ++ left, place ≤ stage.rank) (h : Ready scope place d)
    (hDone : (done.foldlM (refineBy scope) d).Returns d') :
    ∃ place', (∀ stage ∈ left, place' ≤ stage.rank) ∧ Ready scope place' d' := by
  induction done generalizing place d with
  | nil =>
    cases returns_pure hDone
    exact ⟨place, hLater, h⟩
  | cons stage rest ih =>
    rw [List.foldlM_cons] at hDone
    obtain ⟨next, hNext, hRest⟩ := returns_bind hDone
    obtain ⟨hBehind, hSorted⟩ := List.pairwise_cons.mp hSorted
    have hStage := h.mono (hLater stage List.mem_cons_self)
    exact ih hSorted hBehind (apply_ready hGroup hStage (returns_after_remark hNext)) hRest

/-- The draft is ready for a stage when its turn comes. -/
theorem ready_for (hGroup : scope.GroupApart) {done left : List Stage} {stage : Stage}
    (h : Ready scope 0 d) (hStages : scope.config.stages = done ++ stage :: left)
    (hDone : (done.foldlM (refineBy scope) d).Returns d') : Ready scope stage.rank d' := by
  have hSorted := stages_sorted scope.config
  rw [hStages] at hSorted
  obtain ⟨place, hLeft, hReady⟩ :=
    ready_after hGroup hSorted (fun _ _ => Nat.zero_le _) h hDone
  exact hReady.mono (hLeft stage List.mem_cons_self)

theorem stage_moment_shaped {stage : Stage} {fs : List Field} (h : Ready scope stage.rank d)
    (hMoment : stage.Moment scope d fs) : Field.Throughout Field.WellShaped fs := by
  cases hMoment with
  | itemMade hItem => exact Field.ofProperties_shaped hItem
  | @keptAdded config itemFields placed _ _ _ _ _ _ _ hItem hPlaced hFields =>
    have hBeside : Field.Throughout Field.WellShaped (fieldsBesideBody scope d) :=
      Field.throughout_iff_forall.mpr fun f hf =>
        Field.throughout_iff_forall.mp h.shapes f (List.mem_of_mem_filter hf)
    -- The kept properties are added one by one to the fields with the item in place.
    obtain ⟨placed', hPlaced', hShapes⟩ :=
      placeItem_shaped config (config.publicName.getD "") (Field.ofProperties_shaped hItem) hBeside
    cases Checked.ok.inj (hPlaced.symm.trans hPlaced')
    exact ok_of_foldlM hShapes (fun _ _ _ _ hStart hStep => addKept_shaped hStart hStep) hFields
  | helperMade _ hMade => exact throughout_helper hMade
  | helperAdded _ hAdded =>
    exact (returns_foldlM (I := Hosts (itemSite? scope d)) (hosts_start h)
      (fun _ _ _ _ hStart hStep => attachHelper_hosts hStart hStep) hAdded).shapes
  | dropdownSet _ => exact mapLeaves_shaped _ h.shapes
  | defaultSet _ hSet =>
    exact returns_foldlM (I := fun d => Field.Throughout Field.WellShaped d.fields) h.shapes
      (fun _ _ _ _ hStart hStep => setDefault_shaped hStart hStep) hSet

/-- **At every moment all fields keep the rule of shapes**, between stages and within them. -/
theorem moment_shaped (hGroup : scope.GroupApart) (h : Ready scope 0 d) {fs : List Field}
    (hMoment : Draft.Moment scope d fs) : Field.Throughout Field.WellShaped fs := by
  cases hMoment with
  | between hStages hDone =>
    have hSorted := stages_sorted scope.config
    rw [hStages] at hSorted
    obtain ⟨_, -, hReady⟩ := ready_after hGroup hSorted (fun _ _ => Nat.zero_le _) h hDone
    exact hReady.shapes
  | within hStages hDone hWithin =>
    exact stage_moment_shaped (ready_for hGroup h hStages hDone) hWithin

end Draft

end IntegrationCompiler
