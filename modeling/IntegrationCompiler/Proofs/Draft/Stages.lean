import IntegrationCompiler.Draft.Stage
import IntegrationCompiler.Proofs.Diagnostics.Returns
import IntegrationCompiler.Proofs.Field.OfSchema

/-!
# What each stage can do

For every stage, and for every step inside one, what it has done to the draft when it ends with a
result. Statements about drafts are derived from these and do not look into the stages again.

* `Draft.refine_returns` — the stages one after another; `Draft.refine_invariant` — what every stage
  keeps;
* `Draft.flatten_returns`, with `keptProperties_eq`, `placeItem_ok`, `addKept_ok` and
  `groupKey?_eq_some`;
* `Draft.addHelpers_returns`, with `attachHelper_attaches`, `addToGroup_ok` and `addMerge_returns`;
* `Draft.bindDropdowns_returns` and `Draft.setDefault_returns`;
* `Draft.refine_phases` — what flattening brings about, and the stages after it keep.
-/

namespace IntegrationCompiler

open Logged

variable {scope : Scope} {d d' : Draft}

/-- Every dropdown in the scope's fields is one that a trigger of the scope fills. -/
def Scope.Fills (scope : Scope) (f : Field) : Prop :=
  ∀ b ∈ f.dynamic, b.triggerKey ∈ scope.dropdowns

theorem Scope.bind_returns {key : String} {dropdown : DropdownConfig} {found : Option Binding}
    (h : (scope.bind key dropdown).Returns found) :
    ∀ b ∈ found, b.triggerKey ∈ scope.dropdowns := by
  unfold bind at h
  split at h
  · next hKnown =>
    cases returns_pure h
    rintro b ⟨⟩
    exact List.contains_iff_mem.mp hKnown
  · cases returns_pure (returns_after_remark h)
    exact nofun

/-! ## One after another -/

/-- What one stage makes of a draft: nothing happens if the configuration does not ask for it. -/
inductive Stage.Takes (scope : Scope) (stage : Stage) : Draft → Draft → Prop where
  | asked {d d' : Draft} : stage.isAsked scope.config = true → (stage.apply scope d).Returns d' →
    Takes scope stage d d'
  | left {d : Draft} : stage.isAsked scope.config = false → Takes scope stage d d

namespace Draft

theorem takes_of_returns {stage : Stage}
    (h : (if stage.isAsked scope.config then refineBy scope d stage else pure d).Returns d') :
    stage.Takes scope d d' := by
  split at h
  · next hAsked => exact .asked hAsked (returns_after_remark h)
  · next hLeft =>
    cases returns_pure h
    exact .left (Bool.not_eq_true _ ▸ hLeft)

/-- The drafts between the stages. The first stage always takes place. -/
theorem refine_returns (h : (d.refine scope).Returns d') : ∃ d₁ d₂ d₃,
    Stage.flattening.Takes scope (d.hide scope) d₁ ∧ Stage.helpers.Takes scope d₁ d₂ ∧
      Stage.dropdowns.Takes scope d₂ d₃ ∧ Stage.defaults.Takes scope d₃ d' := by
  -- leaving a stage out of the list is the same as passing it by
  unfold refine ActionConfig.stages at h
  rw [List.foldlM_filter, List.foldlM_cons] at h
  obtain ⟨d₀, hHide, h⟩ := returns_bind h
  rw [List.foldlM_cons] at h
  obtain ⟨d₁, hFlatten, h⟩ := returns_bind h
  rw [List.foldlM_cons] at h
  obtain ⟨d₂, hHelpers, h⟩ := returns_bind h
  rw [List.foldlM_cons] at h
  obtain ⟨d₃, hDropdowns, h⟩ := returns_bind h
  rw [List.foldlM_cons] at h
  obtain ⟨d₄, hDefaults, h⟩ := returns_bind h
  cases returns_pure h
  have hFirst : d₀ = d.hide scope := returns_pure (returns_after_remark hHide)
  exact ⟨d₁, d₂, d₃, hFirst ▸ takes_of_returns hFlatten, takes_of_returns hHelpers,
    takes_of_returns hDropdowns, takes_of_returns hDefaults⟩

/-- What every stage keeps, all of them keep. -/
theorem refine_invariant {I : Draft → Prop} (hStart : I d)
    (hStage : ∀ stage d d', I d → (Stage.apply scope stage d).Returns d' → I d')
    (h : (d.refine scope).Returns d') : I d' :=
  returns_foldlM hStart
    (fun stage _ d d' hd hStep => hStage stage d d' hd (returns_after_remark hStep))
    h

/-! ## Flattening -/

/-- The properties that stay are those that are named and not hidden, and the schema knows each that
is named. -/
theorem keptProperties_eq {names kept : List String}
    (h : (keptProperties scope names).Returns kept) :
    (∀ name ∈ names, name ∈ Entries.names (Schema.properties scope.bodySchema)) ∧
      kept = names.filter fun name => !scope.config.hideRequestBodyProperties.contains name := by
  unfold keptProperties at h
  dsimp only at h
  split at h
  · next hEmpty =>
    cases returns_pure h
    rw [List.isEmpty_iff.mp hEmpty]
    exact ⟨nofun, rfl⟩
  · split at h
    · exact absurd h not_returns_throw
    · split at h
      · next hKnown =>
        refine ⟨?_, returns_pure h⟩
        intro name hName
        -- the names that the schema does not know were filtered out, and none was left
        have hAll := List.filter_eq_nil_iff.mp (List.isEmpty_iff.mp hKnown) name hName
        exact Entries.mem_names.mpr (by simpa using hAll)
      · exact absurd h not_returns_throw

theorem keptProperties_returns {names kept : List String}
    (h : (keptProperties scope names).Returns kept) :
    ∀ name ∈ kept, name ∈ Entries.names (Schema.properties scope.bodySchema) := by
  obtain ⟨hKnown, rfl⟩ := keptProperties_eq h
  intro name hName
  exact hKnown name (List.mem_of_mem_filter hName)

theorem addKept_ok {required : List Scalar} {fields fields' : List Field} {name : String}
    (h : addKept scope required fields name = .ok fields') :
    name ∈ fields.map (·.key) ∧ fields' = fields ∨
      name ∉ fields.map (·.key) ∧
        ∃ f : Field, f.key = name ∧ f.Plain ∧ fields' = fields ++ [f] := by
  unfold addKept at h
  split at h
  · next hThere =>
    cases h
    obtain ⟨f, hf, hKey⟩ := List.any_eq_true.mp hThere
    exact Or.inl ⟨List.mem_map.mpr ⟨f, hf, eq_of_beq hKey⟩, rfl⟩
  · next hMissing =>
    obtain ⟨f, hf, h⟩ := ok_of_bind h
    cases h
    obtain ⟨hKey, hPlain⟩ := Field.ofSchema_ok hf
    refine Or.inr ⟨?_, f, hKey, hPlain, rfl⟩
    intro hMem
    obtain ⟨f', hf', hSame⟩ := List.mem_map.mp hMem
    exact hMissing (List.any_eq_true.mpr ⟨f', hf', beq_iff_eq.mpr hSame⟩)

/-- The fields for the properties that stay come behind the others, and each property has one. -/
theorem foldlM_addKept_ok {required : List Scalar} {kept : List String}
    {placed fields : List Field} (h : kept.foldlM (addKept scope required) placed = .ok fields) :
    ∃ more : List Field, fields = placed ++ more ∧ (∀ f ∈ more, f.Plain ∧ f.key ∈ kept) ∧
      ∀ name ∈ kept, name ∈ fields.map (·.key) := by
  induction kept generalizing placed with
  | nil =>
    cases h
    exact ⟨[], (List.append_nil _).symm, nofun, nofun⟩
  | cons name rest ih =>
    rw [List.foldlM_cons] at h
    obtain ⟨next, hNext, h⟩ := ok_of_bind h
    obtain ⟨more, rfl, hMore, hRest⟩ := ih h
    have hMore' : ∀ f ∈ more, f.Plain ∧ f.key ∈ name :: rest :=
      fun f hf => ⟨(hMore f hf).1, List.mem_cons_of_mem _ (hMore f hf).2⟩
    -- the property has a field already, or gets one
    rcases addKept_ok hNext with ⟨hThere, rfl⟩ | ⟨-, f, hKey, hPlain, rfl⟩
    · refine ⟨more, rfl, hMore', List.forall_mem_cons.mpr ⟨?_, hRest⟩⟩
      rw [List.map_append]
      exact List.mem_append_left _ hThere
    · refine ⟨f :: more, by rw [List.append_assoc, List.singleton_append], ?_, ?_⟩
      · exact List.forall_mem_cons.mpr ⟨⟨hPlain, hKey ▸ List.mem_cons_self⟩, hMore'⟩
      · refine List.forall_mem_cons.mpr ⟨?_, hRest⟩
        rw [List.map_append, List.map_append]
        exact List.mem_append_left _ (List.mem_append_right _ (List.mem_singleton.mpr hKey.symm))

/-- Properties that stay bring no key twice: none that is there already, and none of their own. -/
theorem nodup_foldlM_addKept {required : List Scalar} {kept : List String}
    {placed more : List Field}
    (h : kept.foldlM (addKept scope required) placed = .ok (placed ++ more)) :
    (more.map (·.key)).Nodup ∧ ∀ f ∈ more, f.key ∉ placed.map (·.key) := by
  induction kept generalizing placed more with
  | nil =>
    have hNone : more = [] := List.self_eq_append_right.mp (Except.ok.inj h)
    rw [hNone]
    exact ⟨List.nodup_nil, nofun⟩
  | cons name rest ih =>
    rw [List.foldlM_cons] at h
    obtain ⟨next, hNext, h⟩ := ok_of_bind h
    rcases addKept_ok hNext with ⟨-, rfl⟩ | ⟨hMissing, f, hKey, -, rfl⟩
    · exact ih h
    · -- the new field comes first among those that are added
      obtain ⟨later, hLater, -⟩ := foldlM_addKept_ok h
      rw [List.append_assoc, List.singleton_append] at hLater
      cases List.append_cancel_left hLater
      rw [List.append_cons placed f later] at h
      obtain ⟨hDistinct, hOthers⟩ := ih h
      rw [← hKey] at hMissing
      refine ⟨?_, ?_⟩
      · rw [List.map_cons, List.nodup_cons]
        refine ⟨?_, hDistinct⟩
        intro hTwice
        obtain ⟨f', hf', hSame⟩ := List.mem_map.mp hTwice
        refine hOthers f' hf' ?_
        rw [hSame, List.map_append]
        exact List.mem_append_right _ List.mem_cons_self
      · rw [List.forall_mem_cons]
        refine ⟨hMissing, ?_⟩
        intro f' hf' hTaken
        refine hOthers f' hf' ?_
        rw [List.map_append]
        exact List.mem_append_left _ hTaken

/-- An item goes behind the inputs: as a group, or each of its fields whose key is not taken. -/
theorem placeItem_ok {group : Option String} {label : String}
    {itemFields fields placed : List Field}
    (h : placeItem group label itemFields fields = .ok placed) :
    (∃ key g, group = some key ∧ placed = fields ++ [g] ∧ g.key = key ∧ g.children = itemFields ∧
      g.dynamic = none) ∨
    group = none ∧ placed = fields ++ itemFields.filter fun f => !fields.any (·.key == f.key) := by
  cases group with
  | none =>
    cases h
    exact Or.inr ⟨rfl, rfl⟩
  | some key =>
    obtain ⟨g, hg, rfl⟩ := Checked.map_eq_ok.mp h
    cases Field.checked_eq_ok hg
    exact Or.inl ⟨key, _, rfl, rfl, rfl, rfl, rfl⟩

/-- A group has the name of the list, which is not empty, and holds something. -/
theorem groupKey?_eq_some {config : FlattenConfig} {itemFields : List Field} {key : String}
    (h : groupKey? config itemFields = some key) :
    key ≠ "" ∧ itemFields ≠ [] ∧ key = slugify (config.publicName.getD "") := by
  unfold groupKey? at h
  dsimp only at h
  split at h
  · cases h
  · next hBoth =>
    cases h
    simp only [Bool.or_eq_true, not_or, String.isEmpty_iff, List.isEmpty_iff] at hBoth
    exact ⟨hBoth.1, hBoth.2, rfl⟩

/-- The plan of the body after flattening. -/
def flattenedBody (scope : Scope) (config : FlattenConfig) (kept : List String)
    (itemFields : List Field) (previous : BodyPlan) : BodyPlan where
  properties := namedPropertyPlans scope.bodySchema kept
  flatten := some ⟨config.arrayField, groupKey? config itemFields,
    namedPropertyPlans scope.itemSchema (itemFields.map (·.key))⟩
  helperMerges := previous.helperMerges
  defaults := previous.defaults

/-- The sample after flattening. -/
def flattenedSample (scope : Scope) (config : FlattenConfig) (kept : List String)
    (itemFields : List Field) (sample : Value) : Value :=
  match groupKey? config itemFields with
  | some key => regroupSample scope config.arrayField key (itemFields.map (·.key)) kept sample
  | none => sample

theorem flatten_returns {config : FlattenConfig} {additional : List String}
    (h : (d.flatten scope config additional).Returns d') :
    ∃ kept itemFields placed required fields,
      (keptProperties scope additional).Returns kept ∧
      Field.ofProperties scope.itemSchema scope.config.hideRequestBodyProperties = .ok itemFields ∧
      placeItem (groupKey? config itemFields) (config.publicName.getD "") itemFields
        (fieldsBesideBody scope d) = .ok placed ∧
      kept.foldlM (addKept scope required) placed = .ok fields ∧
      d' = {
        fields := fields
        request := { d.request with
          body := some (flattenedBody scope config kept itemFields (d.request.body.getD {})) }
        sample := flattenedSample scope config kept itemFields d.sample } := by
  unfold flatten at h
  dsimp only at h
  split at h
  · exact absurd h not_returns_throw
  · obtain ⟨kept, hKept, h⟩ := returns_bind h
    obtain ⟨itemFields, hItem, h⟩ := returns_bind h
    obtain ⟨placed, hPlaced, h⟩ := returns_bind h
    obtain ⟨required, -, h⟩ := returns_bind h
    obtain ⟨fields, hFields, h⟩ := returns_bind h
    refine ⟨kept, itemFields, placed, required, fields, hKept, returns_liftExcept hItem,
      returns_orFail hPlaced, returns_liftExcept hFields, ?_⟩
    refine (returns_pure h).trans ?_
    unfold flattenedSample flattenedBody
    cases groupKey? config itemFields with
    | none => rfl
    | some key => rfl

/-- The stage of flattening flattens the list that is configured, if there is one. -/
theorem apply_flattening_returns (h : (Stage.flattening.apply scope d).Returns d') :
    (∃ config additional, scope.flatten? = some config ∧
      (d.flatten scope config additional).Returns d') ∨ scope.flatten? = none ∧ d' = d := by
  dsimp only [Stage.apply] at h
  unfold Scope.flatten?
  cases hSimplified : scope.config.simplified? with
  | none =>
    rw [hSimplified] at h
    exact Or.inr ⟨rfl, returns_pure h⟩
  | some simplify =>
    rw [hSimplified] at h
    dsimp only [Option.bind_some] at h ⊢
    cases hFlatten : simplify.flattenArray with
    | none =>
      rw [hFlatten] at h
      exact Or.inr ⟨rfl, returns_pure h⟩
    | some config =>
      rw [hFlatten] at h
      exact Or.inl ⟨config, simplify.additionalProperties, rfl, h⟩

/-! ## Helpers -/

theorem helperField_returns {key : String} {helper : HelperConfig} {f : Field}
    (h : (helperField scope key helper).Returns f) :
    f.key = key ∧ f.children = [] ∧ scope.Fills f := by
  unfold helperField at h
  dsimp only at h
  split at h
  · obtain ⟨type, -, h⟩ := returns_bind h
    split at h
    · obtain ⟨binding, hBinding, h⟩ := returns_bind h
      cases Field.checked_eq_ok (returns_orFail h)
      exact ⟨rfl, rfl, Scope.bind_returns hBinding⟩
    · obtain ⟨binding, hNone, h⟩ := returns_bind h
      cases returns_pure hNone
      cases Field.checked_eq_ok (returns_orFail h)
      exact ⟨rfl, rfl, nofun⟩
  · obtain ⟨_, hFail, -⟩ := returns_bind h
    exact absurd hFail not_returns_throw

/-- One more field in a group changes the first field with the key of the group. -/
theorem addToGroup_ok {fields fields' : List Field} {group : String} {f : Field}
    (h : addToGroup fields group f = .ok fields') :
    (Field.find? fields group).isNone ∧ fields' = fields ∨
      fields' =
        Field.updateFirst group (fun g => { g with children := g.children ++ [f] }) fields := by
  unfold addToGroup at h
  dsimp only at h
  split at h
  · obtain ⟨g, -, h⟩ := Checked.andThen_eq_ok.mp h
    exact Or.inr (Checked.ok.inj h).symm
  · next hNone => exact Or.inl ⟨Option.isNone_iff_eq_none.mpr hNone, (Checked.ok.inj h).symm⟩

/-- What gets one more field is checked again, so it does not hold a value itself. -/
theorem addToGroup_untyped {fields fields' : List Field} {group : String} {f g : Field}
    (h : addToGroup fields group f = .ok fields') (hFound : Field.find? fields group = some g) :
    g.type = none := by
  unfold addToGroup at h
  rw [hFound] at h
  obtain ⟨g', hChecked, -⟩ := Checked.andThen_eq_ok.mp h
  have hNotEmpty : (g.children ++ [f]).isEmpty = false := by
    rw [List.isEmpty_eq_false_iff]
    exact List.append_ne_nil_of_right_ne_nil _ (List.cons_ne_nil f [])
  unfold Field.checked Field.shapeFault? at hChecked
  dsimp only at hChecked
  rw [hNotEmpty] at hChecked
  cases hType : g.type with
  | none => rfl
  | some type =>
    rw [hType] at hChecked
    cases hChecked

/-- Whether a property belongs to the item. -/
def isOfItem (site : Option ItemSite) (target : String) : Bool :=
  (site.map fun s => Entries.has s.properties target).getD false

/-- The group in which the helpers of a property are placed, if they are. -/
def groupFor (site : Option ItemSite) (target : String) : Option String :=
  if isOfItem site target then site.bind (·.group) else none

/-- A merge for the target of a helper gains the helper, or there is a new one. -/
theorem addMerge_returns {site : Option ItemSite} {nested : Bool} {key : String}
    {helper : HelperConfig} {merges merges' : List MergePlan}
    (h : (addMerge scope site nested key helper merges).Returns merges') :
    merges.any (·.target == helper.mapTo) = true ∧
      merges' = merges.map (fun m =>
        if m.target == helper.mapTo then { m with helperKeys := m.helperKeys ++ [key] } else m) ∨
    ∃ isArray, merges' = merges ++ [{
      target := helper.mapTo, helperKeys := [key], targetIsArray := isArray,
      inItem := isOfItem site helper.mapTo, nested := nested }] := by
  have hItem : ((site.map (·.properties)).bind (Entries.get? · helper.mapTo)).isSome =
      isOfItem site helper.mapTo := by
    cases site <;> rfl
  rw [← hItem]
  unfold addMerge at h
  split at h
  · next hThere => exact Or.inl ⟨hThere, returns_pure h⟩
  · dsimp only at h
    split at h
    · exact Or.inr ⟨_, returns_pure (returns_after_remark h)⟩
    · exact Or.inr ⟨_, returns_pure h⟩

/-- The inputs among which the helper of a property is placed: those in the group of the item, or all
that do not stand in one. -/
def siblingsFor (site : Option ItemSite) (target : String) (fields : List Field) : List Field :=
  match groupFor site target with
  | some g => ((Field.find? fields g).map Field.children).getD []
  | none => fields

/-- A helper is skipped; or no input beside it has its key, its field is placed in its group or
behind the inputs, and its merge is there. -/
theorem attachHelper_attaches {site : Option ItemSite} {a a' : Attachment}
    {named : String × HelperConfig} (h : (attachHelper scope site a named).Returns a') :
    a' = a ∨ named.1 ∉ (siblingsFor site named.2.mapTo a.fields).map (·.key) ∧
      ∃ f : Field, (helperField scope named.1 named.2).Returns f ∧
      (∀ g, groupFor site named.2.mapTo = some g → addToGroup a.fields g f = .ok a'.fields) ∧
      (groupFor site named.2.mapTo = none → a'.fields = a.fields ++ [f]) ∧
      (addMerge scope site (groupFor site named.2.mapTo).isSome named.1 named.2 a.merges).Returns
        a'.merges := by
  obtain ⟨key, helper⟩ := named
  have hFree {siblings : List Field} (hNone : ¬ (siblings.any (·.key == key)) = true) :
      key ∉ siblings.map (·.key) := by
    intro hMem
    obtain ⟨f, hf, hSame⟩ := List.mem_map.mp hMem
    exact hNone (List.any_eq_true.mpr ⟨f, hf, beq_iff_eq.mpr hSame⟩)
  unfold siblingsFor
  unfold attachHelper at h
  dsimp only at h ⊢
  -- in a group and beside the inputs a taken key makes the helper be skipped
  split at h
  · next group hFound =>
    have hGroup : groupFor site helper.mapTo = some group := hFound
    split at h
    · exact Or.inl (returns_pure (returns_after_remark h))
    · next hNone =>
      obtain ⟨f, hField, h⟩ := returns_bind h
      obtain ⟨fields, hFields, h⟩ := returns_bind h
      obtain ⟨merges, hMerges, h⟩ := returns_bind h
      cases returns_pure h
      rw [hGroup]
      refine Or.inr ⟨hFree hNone, f, hField, fun g hg => ?_, nofun, hGroup ▸ hMerges⟩
      cases hg
      exact returns_orFail hFields
  · next hFound =>
    have hGroup : groupFor site helper.mapTo = none := hFound
    split at h
    · exact Or.inl (returns_pure (returns_after_remark h))
    · next hNone =>
      obtain ⟨f, hField, h⟩ := returns_bind h
      obtain ⟨fields, hFields, h⟩ := returns_bind h
      obtain ⟨merges, hMerges, h⟩ := returns_bind h
      cases returns_pure h
      cases returns_pure hFields
      rw [hGroup]
      exact Or.inr ⟨hFree hNone, f, hField, nofun, fun _ => rfl, hGroup ▸ hMerges⟩

/-- The same without the key of the helper. -/
theorem attachHelper_returns {site : Option ItemSite} {a a' : Attachment}
    {named : String × HelperConfig} (h : (attachHelper scope site a named).Returns a') :
    a' = a ∨ ∃ f : Field, (helperField scope named.1 named.2).Returns f ∧
      (∀ g, groupFor site named.2.mapTo = some g → addToGroup a.fields g f = .ok a'.fields) ∧
      (groupFor site named.2.mapTo = none → a'.fields = a.fields ++ [f]) ∧
      (addMerge scope site (groupFor site named.2.mapTo).isSome named.1 named.2 a.merges).Returns
        a'.merges :=
  (attachHelper_attaches h).imp_right And.right

theorem addHelpers_returns (h : (d.addHelpers scope).Returns d') :
    ∃ a, (scope.config.helperFields.foldlM (attachHelper scope (itemSite? scope d))
        { fields := d.fields }).Returns a ∧
      d' = { d with
        fields := a.fields
        request := { d.request with
          body := some { d.request.body.getD {} with
            helperMerges := (d.request.body.getD {}).helperMerges ++ a.merges } } } := by
  unfold addHelpers at h
  obtain ⟨a, ha, h⟩ := returns_bind h
  exact ⟨a, ha, returns_pure h⟩

/-! ## Dropdowns -/

theorem bindings_returns {fields : List Field} {bound : List (String × Binding)}
    (h : (bindings scope fields).Returns bound) :
    ∀ b ∈ bound, b.2.triggerKey ∈ scope.dropdowns := by
  intro b hb
  obtain ⟨f, -, hf⟩ := returns_of_mem_filterMapM h hb
  split at hf
  · exact nomatch returns_pure hf
  · obtain ⟨binding, hBinding, hf⟩ := returns_bind hf
    obtain ⟨b', hb', rfl⟩ := Option.map_eq_some_iff.mp (returns_pure hf).symm
    exact Scope.bind_returns hBinding b' hb'

/-- The field with its dropdown, if it has one among the bound ones. -/
def withDropdown (bound : List (String × Binding)) (f : Field) : Field :=
  match bound.lookup f.key with
  | some b => { f with dynamic := some b }
  | none => f

theorem bindDropdowns_returns (h : (d.bindDropdowns scope).Returns d') :
    ∃ bound, (∀ b ∈ bound, b.2.triggerKey ∈ scope.dropdowns) ∧
      d' = { d with
        fields := Field.mapLeaves (withDropdown bound) d.fields
        request := { d.request with body := d.request.body.map (markBody scope) } } := by
  unfold bindDropdowns at h
  obtain ⟨bound, hBound, h⟩ := returns_bind h
  obtain ⟨-, -, h⟩ := returns_bind h
  exact ⟨bound, bindings_returns hBound, returns_pure h⟩

/-! ## Defaults -/

/-- A default is not looked at, becomes that of a field, or becomes one of the body. -/
theorem setDefault_returns {key : String} {v : Value}
    (h : (setDefault scope d key v).Returns d') :
    d' = d ∨
    (∃ default, d' = { d with
      fields := Field.updateFirst key (fun g => { g with default := default }) d.fields }) ∨
    d' = { d with
      request := { d.request with
        body := d.request.body.map fun b =>
          { b with defaults := Entries.set b.defaults key v } } } := by
  unfold setDefault at h
  split at h
  · exact Or.inl (returns_pure h)
  · dsimp only at h
    split at h
    · -- the field holds text
      split at h
      all_goals
        obtain ⟨default, -, h⟩ := returns_bind h
        obtain ⟨-, -, h⟩ := returns_bind h
        exact Or.inr (Or.inl ⟨default, returns_pure h⟩)
    · -- a default of another kind is left to the body, unless it is null
      split at h
      all_goals
        split at h
        · exact Or.inr (Or.inr (returns_pure h))
        · exact Or.inl (returns_pure (returns_after_remark h))

/-- What every default keeps, all of them keep. -/
theorem addDefaults_invariant {I : Draft → Prop} (hStart : I d)
    (hStep : ∀ e ∈ scope.config.fieldDefaults, ∀ d d', I d →
      (setDefault scope d e.1.text e.2).Returns d' → I d')
    (h : (d.addDefaults scope).Returns d') : I d' := by
  unfold addDefaults at h
  dsimp only at h
  split at h
  · exact returns_foldlM hStart hStep h
  · exact absurd h not_returns_throw

/-! ## What helpers find -/

/-- Helpers are put among fields that are in order, be they flattened or not, and leave them in an
order that dropdowns and defaults do not disturb. -/
theorem refine_phases {I J : Draft → Prop} (hHidden : I (d.hide scope))
    (hFlattened : ∀ config additional e, scope.flatten? = some config →
      ((d.hide scope).flatten scope config additional).Returns e → I e)
    (hUnhelped : ∀ e, I e → J e)
    (hHelped : ∀ e e', I e → (e.addHelpers scope).Returns e' → J e')
    (hDropdowns : ∀ e e', J e → (e.bindDropdowns scope).Returns e' → J e')
    (hDefault : ∀ e e' key v, J e → (setDefault scope e key v).Returns e' → J e')
    (h : (d.refine scope).Returns d') : J d' := by
  obtain ⟨d₁, d₂, d₃, hFirst, hSecond, hThird, hLast⟩ := refine_returns h
  have hFlat : I d₁ := by
    cases hFirst with
    | left => exact hHidden
    | asked _ hApply =>
      rcases apply_flattening_returns hApply with ⟨config, additional, hConfig, hFlat⟩ | ⟨-, rfl⟩
      · exact hFlattened config additional d₁ hConfig hFlat
      · exact hHidden
  have hWithHelpers : J d₂ := by
    cases hSecond with
    | left => exact hUnhelped _ hFlat
    | asked _ hApply => exact hHelped _ _ hFlat hApply
  have hBound : J d₃ := by
    cases hThird with
    | left => exact hWithHelpers
    | asked _ hApply => exact hDropdowns _ _ hWithHelpers hApply
  cases hLast with
  | left => exact hBound
  | asked _ hApply => exact addDefaults_invariant hBound (fun _ _ _ _ => hDefault _ _ _ _) hApply

end Draft

end IntegrationCompiler
