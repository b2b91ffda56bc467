import IntegrationCompiler.Proofs.Draft.Coverage
import IntegrationCompiler.Proofs.Request.Placed

/-!
# Properties that are withheld

A property of the body that is hidden has to stay away from the request. The first stage takes it
out, and every later stage could bring it back: the item of a flattened list has properties of its
own, some properties of the body are put beside it, helpers write to properties, and so do defaults.

* `BodyPlan.Withholds` — nothing in the plan of a body has a name;
* `BodyPlan.Withholds.has_build`, `BodyPlan.Withholds.has_item` — then neither the body nor
  its item has an entry with that name, whatever the inputs are;
* `Scope.Withholds` — a name that the configuration hides and nowhere asks for;
* `Draft.refine_withholds` — after all stages such a name is withheld.
-/

namespace IntegrationCompiler

open Logged

/-! ## What a plan cannot send -/

namespace BodyPlan

/-- No property of the body or of its item has the name, the list of the item has another one, and
no helper is merged into it. -/
structure Withholds (b : BodyPlan) (name : String) : Prop where
  property : name ∉ b.propertyNames
  item : ∀ flatten ∈ b.flatten,
    flatten.arrayField ≠ name ∧ name ∉ flatten.itemProperties.map (·.name)
  merge : ∀ m ∈ b.helperMerges, m.target ≠ name

variable {b : BodyPlan} {flatten : FlattenPlan} {name : String}

/-- A body has no entry with a name that its plan withholds. Whatever part of the plan stores
anything stores it under a name of its own. -/
theorem Withholds.has_build (h : b.Withholds name) (inputs : Entries) :
    Entries.has (b.build inputs) name = false := by
  have hProperties : Entries.get? (b.properties.foldl (b.addProperty inputs) []) name = none := by
    refine Entries.get?_foldl_of_keeps ?_ []
    intro p hp body
    refine get?_addProperty_of_ne ?_ body
    rintro rfl
    exact h.property (List.mem_map_of_mem hp)
  have hMerges : ∀ m ∈ b.helperMerges.filter (!·.inItem), ∀ body,
      Entries.get? (m.apply body inputs none) name = Entries.get? body name := by
    intro m hm body
    exact MergePlan.get?_apply_of_ne (h.merge m (List.mem_of_mem_filter hm)) body inputs none
  have hNone : Entries.get? (b.build inputs) name = none := by
    unfold build
    dsimp only
    rw [Entries.get?_foldl_of_keeps hMerges]
    split
    · next flatten hFlatten =>
      rw [Entries.get?_set, if_neg (h.item flatten hFlatten).1]
      exact hProperties
    · exact hProperties
  rw [Entries.has, hNone]
  rfl

/-- The item has no entry with such a name either. -/
theorem Withholds.has_item (h : b.Withholds name) (hFlatten : b.flatten = some flatten)
    (inputs : Entries) : Entries.has (b.item flatten inputs) name = false := by
  have hMerges : ∀ m ∈ b.helperMerges.filter (·.inItem), ∀ item,
      Entries.get? (m.apply item inputs flatten.groupKey) name = Entries.get? item name := by
    intro m hm item
    exact MergePlan.get?_apply_of_ne (h.merge m (List.mem_of_mem_filter hm)) item inputs _
  have hNone : Entries.get? (b.item flatten inputs) name = none := by
    unfold BodyPlan.item
    dsimp only
    rw [Entries.get?_foldl_of_keeps hMerges]
    refine Entries.get?_foldl_of_keeps ?_ []
    intro p hp item
    have hOther : p.name ≠ name := by
      rintro rfl
      exact (h.item flatten hFlatten).2 (List.mem_map_of_mem hp)
    split
    · rw [Entries.get?_set, if_neg hOther]
    · rfl
  rw [Entries.has, hNone]
  rfl

end BodyPlan

/-! ## Stages -/

/-- A property that the configuration hides and asks for nowhere else: no parameter has its name, it
is not the list that is flattened, and no helper is meant for it. -/
structure Scope.Withholds (scope : Scope) (name : String) : Prop where
  hidden : name ∈ scope.config.hideRequestBodyProperties
  parameter : name ∉ scope.parameterNames
  flattened : ∀ config, scope.flatten? = some config → config.arrayField ≠ name
  helper : ∀ entry ∈ scope.config.helperFields, entry.2.mapTo ≠ name

namespace Draft

variable {scope : Scope} {d d' : Draft} {name : String}

/-- The plan of the body, if there is one, withholds a name. -/
def Withholds (d : Draft) (name : String) : Prop :=
  ∀ b ∈ d.request.body, b.Withholds name

/-- The first stage takes hidden properties out of a plan that has nothing but properties. -/
theorem hide_withholds (hName : scope.Withholds name)
    (hStart : ∀ b ∈ d.request.body, b.flatten = none ∧ b.helperMerges = []) :
    (d.hide scope).Withholds name := by
  have hHidden : name ∈ scope.hiddenBody :=
    Scope.mem_hiddenBody_iff.mpr ⟨hName.hidden, hName.parameter⟩
  intro b hb
  rw [hide_request] at hb
  obtain ⟨b', hb', rfl⟩ := Option.map_eq_some_iff.mp hb
  obtain ⟨hFlatten, hMerges⟩ := hStart b' hb'
  refine ⟨?_, ?_, ?_⟩
  · intro hMem
    obtain ⟨p, hp, rfl⟩ := List.mem_map.mp hMem
    have hKept := (List.mem_filter.mp hp).2
    rw [List.contains_iff_mem.mpr hHidden] at hKept
    cases hKept
  · intro flatten hSome
    rw [hFlatten] at hSome
    cases hSome
  · intro m hm
    rw [hMerges] at hm
    cases hm

/-- Flattening leaves hidden properties out of the item, and does not keep them beside it. -/
theorem flatten_withholds {config : FlattenConfig} {additional : List String}
    (hName : scope.Withholds name) (hConfig : scope.flatten? = some config)
    (hd : d.Withholds name) (h : (d.flatten scope config additional).Returns d') :
    d'.Withholds name := by
  obtain ⟨kept, itemFields, placed, required, fields, hKept, hItem, -, -, rfl⟩ :=
    flatten_returns h
  -- among any names, those that are not hidden do not have this one
  have hNotVisible (names : List String) : name ∉ names.filter fun other =>
      !scope.config.hideRequestBodyProperties.contains other := by
    intro hMem
    have hVisible := (List.mem_filter.mp hMem).2
    rw [List.contains_iff_mem.mpr hName.hidden] at hVisible
    cases hVisible
  have hNotKept : name ∉ kept := by
    rw [(keptProperties_eq hKept).2]
    exact hNotVisible additional
  have hNotOfItem : name ∉ itemFields.map (·.key) := by
    rw [(Field.ofProperties_ok hItem).keys_eq]
    exact hNotVisible _
  rintro b ⟨⟩
  refine ⟨?_, ?_, ?_⟩
  · intro hMem
    obtain ⟨p, hp, rfl⟩ := List.mem_map.mp hMem
    exact hNotKept (name_of_mem_namedPropertyPlans hp)
  · rintro flatten ⟨⟩
    refine ⟨hName.flattened config hConfig, ?_⟩
    intro hMem
    obtain ⟨p, hp, rfl⟩ := List.mem_map.mp hMem
    exact hNotOfItem (name_of_mem_namedPropertyPlans hp)
  · -- the merges are those of the body that was there, if there was one
    cases hBody : d.request.body with
    | none => exact nofun
    | some b => exact (hd b hBody).merge

/-- Helpers are merged into the properties that they are meant for. -/
theorem attachHelper_targets {site : Option ItemSite} {a a' : Attachment}
    {named : String × HelperConfig} (hNamed : named ∈ scope.config.helperFields)
    (ha : ∀ m ∈ a.merges, ∃ entry ∈ scope.config.helperFields, m.target = entry.2.mapTo)
    (h : (attachHelper scope site a named).Returns a') :
    ∀ m ∈ a'.merges, ∃ entry ∈ scope.config.helperFields, m.target = entry.2.mapTo := by
  rcases attachHelper_returns h with rfl | ⟨f, -, -, -, hMerge⟩
  · exact ha
  · intro m hm
    rcases addMerge_returns hMerge with ⟨-, hJoined⟩ | ⟨isArray, hNew⟩
    · rw [hJoined] at hm
      obtain ⟨m', hm', rfl⟩ := List.mem_map.mp hm
      -- one more key does not change the target of a merge
      have hSame : (if m'.target == named.2.mapTo then
          { m' with helperKeys := m'.helperKeys ++ [named.1] } else m').target = m'.target := by
        split <;> rfl
      rw [hSame]
      exact ha m' hm'
    · rw [hNew] at hm
      rcases List.mem_append.mp hm with hOld | hLast
      · exact ha m hOld
      · cases List.mem_singleton.mp hLast
        exact ⟨named, hNamed, rfl⟩

theorem addHelpers_withholds (hName : scope.Withholds name) (hd : d.Withholds name)
    (h : (d.addHelpers scope).Returns d') : d'.Withholds name := by
  obtain ⟨a, hAttached, rfl⟩ := addHelpers_returns h
  have hTargets : ∀ m ∈ a.merges,
      ∃ entry ∈ scope.config.helperFields, m.target = entry.2.mapTo :=
    returns_foldlM (I := fun a => ∀ m ∈ a.merges,
        ∃ entry ∈ scope.config.helperFields, m.target = entry.2.mapTo) nofun
      (fun _ hNamed _ _ ha hStep => attachHelper_targets hNamed ha hStep) hAttached
  have hPrevious : (d.request.body.getD {}).Withholds name := by
    cases hBody : d.request.body with
    | none => exact ⟨nofun, nofun, nofun⟩
    | some b => exact hd b hBody
  rintro b ⟨⟩
  refine ⟨hPrevious.property, hPrevious.item, ?_⟩
  intro m hm
  rcases List.mem_append.mp hm with hOld | hNew
  · exact hPrevious.merge m hOld
  · obtain ⟨entry, hEntry, hTarget⟩ := hTargets m hNew
    rw [hTarget]
    exact hName.helper entry hEntry

/-- Marks of dropdowns leave all names as they are. -/
theorem bindDropdowns_withholds (hd : d.Withholds name) (h : (d.bindDropdowns scope).Returns d') :
    d'.Withholds name := by
  obtain ⟨bound, -, rfl⟩ := bindDropdowns_returns h
  have hMarked (ps : List PropertyPlan) :
      (ps.map (markDynamic scope)).map (·.name) = ps.map (·.name) := by
    rw [List.map_map]
    exact List.map_congr_left fun p _ => markDynamic_name p
  intro b hb
  obtain ⟨b', hb', rfl⟩ := Option.map_eq_some_iff.mp hb
  have hOld := hd b' hb'
  refine ⟨?_, ?_, hOld.merge⟩
  · show name ∉ (b'.properties.map (markDynamic scope)).map (·.name)
    rw [hMarked]
    exact hOld.property
  · intro flatten hFlatten
    obtain ⟨flatten', hFlatten', rfl⟩ := Option.map_eq_some_iff.mp hFlatten
    dsimp only
    rw [hMarked]
    exact hOld.item flatten' hFlatten'

/-- A default of the body is only looked at for a property that the plan has. -/
theorem setDefault_withholds {key : String} {v : Value} (hd : d.Withholds name)
    (h : (setDefault scope d key v).Returns d') : d'.Withholds name := by
  rcases setDefault_returns h with rfl | ⟨default, rfl⟩ | rfl
  · exact hd
  · exact hd
  · intro b hb
    obtain ⟨b', hb', rfl⟩ := Option.map_eq_some_iff.mp hb
    exact ⟨(hd b' hb').property, (hd b' hb').item, (hd b' hb').merge⟩

/-- **No stage brings a hidden property back.** -/
theorem refine_withholds (hName : scope.Withholds name)
    (hStart : ∀ b ∈ d.request.body, b.flatten = none ∧ b.helperMerges = [])
    (h : (d.refine scope).Returns d') : d'.Withholds name := by
  have hHidden := hide_withholds hName hStart
  refine refine_phases (I := fun e => e.Withholds name)
    (J := fun e => e.Withholds name) hHidden ?_ ?_ ?_ ?_ ?_ h
  · exact fun _ _ _ hConfig hFlat => flatten_withholds hName hConfig hHidden hFlat
  · exact fun _ he => he
  · exact fun _ _ he hStage => addHelpers_withholds hName he hStage
  · exact fun _ _ he hStage => bindDropdowns_withholds he hStage
  · exact fun _ _ _ _ he hStep => setDefault_withholds he hStep

end Draft

end IntegrationCompiler
