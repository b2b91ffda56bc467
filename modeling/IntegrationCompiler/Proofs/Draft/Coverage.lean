import IntegrationCompiler.Proofs.Draft.Stages
import IntegrationCompiler.Proofs.Field.Tree
import IntegrationCompiler.Proofs.Request.Slots

/-!
# Inputs and requests that fit together

The stages change the inputs of an action and its request plan side by side. If no two names of the
endpoint are the same, the places where the plan looks for inputs stay the places of the inputs.

* `Draft.Covered` — the slots of the plan are the paths to the leaves of the fields;
* `Draft.Level`, `Draft.Straight` — before the list is flattened: every field is a leaf and is asked
  for by its name, by two parts of the plan at most or by one only;
* `Draft.Shaped` — afterwards: the draft is covered, and the group of the item is where helpers
  look for it;
* `Draft.refine_covered` — all stages together.
-/

namespace IntegrationCompiler

open Logged

namespace Scope

variable {scope : Scope} {name : String}

/-- The names of the properties of the body. -/
def bodyNames (scope : Scope) : List String :=
  Entries.names (Schema.properties scope.bodySchema)

theorem mem_hiddenQuery_iff :
    name ∈ scope.hiddenQuery ↔ name ∈ scope.config.hideQueryParams ∧ name ∈ scope.queryNames := by
  rw [hiddenQuery, List.mem_filter, List.contains_iff_mem]

theorem mem_hiddenBody_iff : name ∈ scope.hiddenBody ↔
    name ∈ scope.config.hideRequestBodyProperties ∧ name ∉ scope.parameterNames := by
  rw [hiddenBody, List.mem_filter, Bool.not_eq_true', List.contains_eq_mem,
    decide_eq_false_iff_not]

theorem queryNames_subset (h : name ∈ scope.queryNames) : name ∈ scope.parameterNames := by
  obtain ⟨p, hp, rfl⟩ := List.mem_map.mp h
  exact List.mem_map_of_mem (List.mem_of_mem_filter hp)

end Scope

namespace Draft

variable {scope : Scope} {d d' : Draft}

/-- The places where the plan looks for inputs are those of the inputs. -/
def Covered (d : Draft) : Prop :=
  ∀ path, path ∈ d.request.slots ↔ path ∈ Field.leafPaths d.fields

/-! ## Before flattening -/

/-- A draft whose fields are all leaves: one for each parameter that the plan asks for, and one for
each property of the body that shares its name with no parameter. -/
structure Level (scope : Scope) (d : Draft) : Prop where
  leaves : ∀ f ∈ d.fields, f.children = []
  keys : ∀ name, name ∈ d.fields.map (·.key) ↔
    name ∈ d.request.parameterNames ∨
      name ∈ d.request.bodyNames ∧ name ∉ scope.parameterNames
  path_names : ∀ name ∈ d.request.pathParams, name ∉ scope.queryNames
  parameter_names : ∀ name ∈ d.request.parameterNames, name ∈ scope.parameterNames
  unshaped : ∀ b ∈ d.request.body, b.flatten = none ∧ b.helperMerges = []

/-- A draft whose fields are all leaves, one for each name that the plan asks for. -/
structure Straight (scope : Scope) (d : Draft) : Prop where
  leaves : ∀ f ∈ d.fields, f.children = []
  keys : ∀ name, name ∈ d.fields.map (·.key) ↔
    name ∈ d.request.parameterNames ∨ name ∈ d.request.bodyNames
  path_names : ∀ name ∈ d.request.pathParams, name ∉ scope.queryNames
  parameter_names : ∀ name ∈ d.request.parameterNames, name ∈ scope.parameterNames
  body_names : ∀ name ∈ d.request.bodyNames, name ∉ scope.parameterNames
  unshaped : ∀ b ∈ d.request.body, b.flatten = none ∧ b.helperMerges = []

theorem Straight.level (hd : Straight scope d) : Level scope d where
  leaves := hd.leaves
  keys name := by
    rw [hd.keys]
    exact or_congr_right (iff_self_and.mpr (hd.body_names name))
  path_names := hd.path_names
  parameter_names := hd.parameter_names
  unshaped := hd.unshaped

theorem Level.straight (hd : Level scope d)
    (hApart : ∀ name ∈ d.request.bodyNames, name ∉ scope.parameterNames) : Straight scope d where
  leaves := hd.leaves
  keys name := by
    rw [hd.keys]
    exact or_congr_right (iff_self_and.mpr (hApart name)).symm
  path_names := hd.path_names
  parameter_names := hd.parameter_names
  body_names := hApart
  unshaped := hd.unshaped

/-- The names of what stays if some names are hidden. -/
theorem mem_names_of_filter {α : Type} {nameOf : α → String} {as : List α} {hidden : List String}
    {name : String} : name ∈ (as.filter fun a => !hidden.contains (nameOf a)).map nameOf ↔
      name ∈ as.map nameOf ∧ name ∉ hidden := by
  have hSwap : (as.map nameOf).filter (fun name => !hidden.contains name) =
      (as.filter fun a => !hidden.contains (nameOf a)).map nameOf := List.filter_map
  rw [← hSwap, List.mem_filter]
  simp

theorem mem_parameterNames_hide {plan : RequestPlan} {query body : List String} {name : String} :
    name ∈ (plan.hide query body).parameterNames ↔
      name ∈ plan.pathParams ∨ name ∈ plan.query.params.map (·.name) ∧ name ∉ query := by
  unfold RequestPlan.hide RequestPlan.parameterNames
  rw [List.mem_append, mem_names_of_filter]

theorem mem_bodyNames_hide {plan : RequestPlan} {query body : List String} {name : String} :
    name ∈ (plan.hide query body).bodyNames ↔ name ∈ plan.bodyNames ∧ name ∉ body := by
  unfold RequestPlan.hide RequestPlan.bodyNames
  cases plan.body with
  | none => simp
  | some b =>
    rw [Option.map_some, Option.toList_some, Option.toList_some, List.flatMap_singleton,
      List.flatMap_singleton]
    exact mem_names_of_filter

/-- A plan without hidden names is the plan itself. -/
theorem request_hide_nil (plan : RequestPlan) : plan.hide [] [] = plan := by
  have hParams : plan.query.params.filter (fun p => !([] : List String).contains p.name) =
      plan.query.params := List.filter_eq_self.mpr fun _ _ => rfl
  have hBody : plan.body.map (fun b =>
      { b with properties := b.properties.filter fun p => !([] : List String).contains p.name }) =
      plan.body := by
    cases plan.body with
    | none => rfl
    | some b => exact congrArg some (congrArg (fun properties => { b with properties := properties })
        (List.filter_eq_self.mpr fun _ _ => rfl))
  rw [RequestPlan.hide, hParams, hBody]

/-- The plan loses what is hidden, each place its own names. -/
theorem hide_request :
    (d.hide scope).request = d.request.hide scope.hiddenQuery scope.hiddenBody := by
  unfold hide
  dsimp only
  split
  · next hNone =>
    -- nothing is hidden, and the draft is left as it is
    rw [Bool.and_eq_true, List.isEmpty_iff, List.isEmpty_iff] at hNone
    rw [hNone.1, hNone.2, request_hide_nil]
  · rfl

/-- Of leaves, hiding takes some away. -/
theorem hide_fields_sublist (hLeaves : ∀ f ∈ d.fields, f.children = []) :
    (d.hide scope).fields.Sublist d.fields := by
  unfold hide
  dsimp only
  split
  · exact List.Sublist.refl _
  · dsimp only
    rw [Field.dropHidden_of_leaves hLeaves]
    exact List.filter_sublist

/-- Leaves are taken away by their names, wherever these are hidden. -/
theorem mem_keys_hide (hLeaves : ∀ f ∈ d.fields, f.children = []) {name : String} :
    name ∈ (d.hide scope).fields.map (·.key) ↔
      name ∈ d.fields.map (·.key) ∧ name ∉ scope.hiddenQuery ∧ name ∉ scope.hiddenBody := by
  unfold hide
  dsimp only
  split
  · next hNone =>
    rw [Bool.and_eq_true, List.isEmpty_iff, List.isEmpty_iff] at hNone
    rw [hNone.1, hNone.2]
    simp
  · rw [Field.dropHidden_of_leaves hLeaves, mem_names_of_filter, List.mem_append, not_or]

/-- Hiding takes the same names from the fields and from the plan. -/
theorem hide_level (hd : Level scope d) : Level scope (d.hide scope) := by
  have hLeaves : ∀ f ∈ (d.hide scope).fields, f.children = [] := fun f hf =>
    hd.leaves f ((hide_fields_sublist hd.leaves).subset hf)
  refine ⟨hLeaves, fun name => ?_, ?_, fun name hName => ?_, fun b hb => ?_⟩
  · rw [mem_keys_hide hd.leaves, hd.keys, hide_request, mem_parameterNames_hide,
      mem_bodyNames_hide, RequestPlan.parameterNames, List.mem_append]
    constructor
    · rintro ⟨(hPath | hQuery) | ⟨hBody, hOther⟩, hNotQuery, hNotBody⟩
      · exact Or.inl (Or.inl hPath)
      · exact Or.inl (Or.inr ⟨hQuery, hNotQuery⟩)
      · exact Or.inr ⟨⟨hBody, hNotBody⟩, hOther⟩
    · -- what one list hides has no name that the other parts of the plan ask for
      have hParameter : name ∈ d.request.parameterNames → name ∉ scope.hiddenBody := fun hAsked h =>
        (Scope.mem_hiddenBody_iff.mp h).2 (hd.parameter_names name hAsked)
      rintro ((hPath | ⟨hQuery, hNotQuery⟩) | ⟨⟨hBody, hNotBody⟩, hOther⟩)
      · exact ⟨Or.inl (Or.inl hPath),
          fun h => hd.path_names name hPath (Scope.mem_hiddenQuery_iff.mp h).2,
          hParameter (List.mem_append_left _ hPath)⟩
      · exact ⟨Or.inl (Or.inr hQuery), hNotQuery, hParameter (List.mem_append_right _ hQuery)⟩
      · exact ⟨Or.inr ⟨hBody, hOther⟩,
          fun h => hOther (Scope.queryNames_subset (Scope.mem_hiddenQuery_iff.mp h).2), hNotBody⟩
  · rw [hide_request]
    exact hd.path_names
  · rw [hide_request] at hName
    rcases mem_parameterNames_hide.mp hName with hPath | ⟨hQuery, -⟩
    · exact hd.parameter_names name (List.mem_append_left _ hPath)
    · exact hd.parameter_names name (List.mem_append_right _ hQuery)
  · rw [hide_request] at hb
    obtain ⟨b', hb', rfl⟩ := Option.map_eq_some_iff.mp hb
    exact hd.unshaped b' hb'

theorem hide_straight (hd : Straight scope d) : Straight scope (d.hide scope) := by
  refine (hide_level hd.level).straight fun name hName => ?_
  rw [hide_request] at hName
  exact hd.body_names name (mem_bodyNames_hide.mp hName).1

/-! ## Flattening -/

/-- The fields have a group with the given key, with leaves of other keys before it. -/
def GroupPlaced (key : String) (fields : List Field) : Prop :=
  key ≠ "" ∧ ∃ before g after, fields = before ++ g :: after ∧ g.key = key ∧ g.children ≠ [] ∧
    ∀ f ∈ before, f.children = [] ∧ f.key ≠ key

theorem GroupPlaced.append {key : String} {fields : List Field} (h : GroupPlaced key fields)
    (more : List Field) : GroupPlaced key (fields ++ more) := by
  obtain ⟨hKey, before, g, after, rfl, hg, hGroup, hBefore⟩ := h
  exact ⟨hKey, before, g, after ++ more, by rw [List.append_assoc, List.cons_append], hg, hGroup,
    hBefore⟩

/-- A draft that is covered, has no helpers yet, and has the group of the item where helpers look
for it. -/
structure Shaped (d : Draft) : Prop where
  covered : d.Covered
  unmerged : ∀ b ∈ d.request.body, b.helperMerges = []
  group : ∀ b ∈ d.request.body, ∀ flatten ∈ b.flatten, ∀ key ∈ flatten.groupKey,
    GroupPlaced key d.fields

theorem mem_leafPaths_of_leaves {fs : List Field} (h : ∀ f ∈ fs, f.children = [])
    {path : List String} : path ∈ Field.leafPaths fs ↔ ∃ name ∈ fs.map (·.key), path = [name] := by
  rw [Field.leafPaths_of_leaves h]
  simp only [List.mem_map, exists_exists_and_eq_and, eq_comm (a := path)]

theorem helperSlots_of_unmerged {b : BodyPlan} (h : b.helperMerges = []) : b.helperSlots = [] := by
  rw [BodyPlan.helperSlots, h, List.flatMap_nil]

theorem mem_bodyNames {plan : RequestPlan} {name : String} :
    name ∈ plan.bodyNames ↔ ∃ b ∈ plan.body, name ∈ b.propertyNames := by
  rw [RequestPlan.bodyNames, List.mem_flatMap]
  simp only [Option.mem_toList, Option.mem_def]

/-- Where nothing is flattened, the draft is covered as it is. -/
theorem shaped_of_straight (hd : Straight scope d) : Shaped d where
  covered path := by
    rw [RequestPlan.mem_slots, mem_leafPaths_of_leaves hd.leaves]
    have hBody : (∃ b ∈ d.request.body, path ∈ b.slots) ↔
        ∃ name ∈ d.request.bodyNames, path = [name] := by
      simp only [mem_bodyNames]
      constructor
      · rintro ⟨b, hb, hSlot⟩
        obtain ⟨hFlatten, hMerges⟩ := hd.unshaped b hb
        rw [BodyPlan.mem_slots, hFlatten, helperSlots_of_unmerged hMerges] at hSlot
        rcases hSlot with ⟨name, hName, rfl⟩ | ⟨_, hNone, -⟩ | hNone
        · exact ⟨name, ⟨b, hb, hName⟩, rfl⟩
        · cases hNone
        · cases hNone
      · rintro ⟨name, ⟨b, hb, hName⟩, rfl⟩
        exact ⟨b, hb, BodyPlan.mem_slots.mpr (Or.inl ⟨name, hName, rfl⟩)⟩
    rw [hBody]
    simp only [hd.keys, or_and_right, exists_or]
  unmerged b hb := (hd.unshaped b hb).2
  group b hb flatten hFlatten := by
    rw [(hd.unshaped b hb).1] at hFlatten
    cases hFlatten

/-- Beside the body are the inputs for parameters. -/
theorem mem_keys_besideBody (hd : Level scope d) {name : String} :
    name ∈ (fieldsBesideBody scope d).map (·.key) ↔ name ∈ d.request.parameterNames := by
  have hBodyNames : (d.request.body.map (·.propertyNames)).getD [] = d.request.bodyNames := by
    unfold RequestPlan.bodyNames
    cases d.request.body with
    | none => rfl
    | some b => rw [Option.toList_some, List.flatMap_singleton]; rfl
  unfold fieldsBesideBody
  dsimp only
  rw [hBodyNames]
  simp only [List.mem_map, List.mem_filter, Bool.or_eq_true, Bool.not_eq_true',
    List.contains_eq_mem, decide_eq_true_eq, decide_eq_false_iff_not]
  constructor
  · rintro ⟨f, ⟨hf, hBeside⟩, rfl⟩
    rcases (hd.keys f.key).mp (List.mem_map_of_mem hf) with hParameter | ⟨hBody, hOther⟩
    · exact hParameter
    · exact absurd hBody (hBeside.resolve_left hOther)
  · intro hName
    obtain ⟨f, hf, rfl⟩ := List.mem_map.mp ((hd.keys name).mpr (Or.inl hName))
    exact ⟨f, ⟨hf, Or.inl (hd.parameter_names _ hName)⟩, rfl⟩

/-- A plan for properties has the names of some of those it was made for. -/
theorem name_of_mem_namedPropertyPlans {schema : Value} {names : List String} {p : PropertyPlan}
    (h : p ∈ namedPropertyPlans schema names) : p.name ∈ names := by
  obtain ⟨name, hName, hPlan⟩ := List.mem_filterMap.mp h
  obtain ⟨property, -, rfl⟩ := Option.map_eq_some_iff.mp hPlan
  exact hName

theorem mem_names_namedPropertyPlans {schema : Value} {names : List String}
    (h : ∀ name ∈ names, name ∈ Entries.names (Schema.properties schema)) {name : String} :
    (∃ p ∈ namedPropertyPlans schema names, p.name = name) ↔ name ∈ names := by
  constructor
  · rintro ⟨p, hp, rfl⟩
    exact name_of_mem_namedPropertyPlans hp
  · intro hName
    obtain ⟨property, hProperty⟩ :=
      Option.isSome_iff_exists.mp (Entries.mem_names.mp (h name hName))
    exact ⟨_, List.mem_filterMap.mpr ⟨name, hName, by rw [hProperty, Option.map_some]⟩, rfl⟩

theorem mem_leafPaths_group {g : Field} (hSome : g.children ≠ [])
    (hLeaves : ∀ f ∈ g.children, f.children = []) {path : List String} :
    path ∈ Field.leafPaths [g] ↔ ∃ name ∈ g.children.map (·.key), path = [g.key, name] := by
  rw [Field.leafPaths_eq_flatMap, List.flatMap_singleton, Field.leafPathsOf_eq,
    if_neg (by rwa [List.isEmpty_iff]), Field.leafPaths_of_leaves hLeaves, List.map_map]
  simp only [List.mem_map, exists_exists_and_eq_and, Function.comp_apply, eq_comm (a := path)]

/-- The slots of the plan after flattening: parameters, what is kept, and the item in its group. -/
theorem mem_slots_flattened {plan : RequestPlan} {config : FlattenConfig} {kept : List String}
    {itemFields : List Field} {previous : BodyPlan}
    (hKept : ∀ name ∈ kept, name ∈ scope.bodyNames)
    (hItem : ∀ name ∈ itemFields.map (·.key),
      name ∈ Entries.names (Schema.properties scope.itemSchema))
    (hMerges : previous.helperMerges = []) {path : List String} :
    path ∈ ({ plan with body := some (flattenedBody scope config kept itemFields previous) } :
        RequestPlan).slots ↔
      (∃ name ∈ plan.parameterNames, path = [name]) ∨ (∃ name ∈ kept, path = [name]) ∨
      ∃ name ∈ itemFields.map (·.key), path = inputPath (groupKey? config itemFields) name := by
  have hKeptSlots : (∃ name ∈ (namedPropertyPlans scope.bodySchema kept).map (·.name),
      path = [name]) ↔ ∃ name ∈ kept, path = [name] := by
    refine exists_congr fun name => and_congr_left fun _ => ?_
    rw [List.mem_map]
    exact mem_names_namedPropertyPlans hKept
  have hItemSlots : (∃ p ∈ namedPropertyPlans scope.itemSchema (itemFields.map (·.key)),
      path = inputPath (groupKey? config itemFields) p.name) ↔
      ∃ name ∈ itemFields.map (·.key), path = inputPath (groupKey? config itemFields) name := by
    constructor
    · rintro ⟨p, hp, hPath⟩
      exact ⟨p.name, (mem_names_namedPropertyPlans hItem).mp ⟨p, hp, rfl⟩, hPath⟩
    · rintro ⟨name, hName, hPath⟩
      obtain ⟨p, hp, rfl⟩ := (mem_names_namedPropertyPlans hItem).mpr hName
      exact ⟨p, hp, hPath⟩
  rw [RequestPlan.mem_slots]
  refine or_congr_right ?_
  simp only [Option.mem_some_iff, exists_eq_left', BodyPlan.mem_slots, BodyPlan.propertyNames,
    flattenedBody, helperSlots_of_unmerged, hMerges, List.not_mem_nil, or_false]
  rw [hKeptSlots, hItemSlots]

/-- The fields that flattening puts together, apart from how the item is placed: some for the item,
and some for the properties that are kept. -/
structure Parts (scope : Scope) (d : Draft) (kept : List String) (itemFields more : List Field) :
    Prop where
  straight : Straight scope d
  kept_names : ∀ name ∈ kept, name ∈ scope.bodyNames
  item_leaves : ∀ f ∈ itemFields, f.children = []
  item_names : ∀ name ∈ itemFields.map (·.key),
    name ∈ Entries.names (Schema.properties scope.itemSchema)
  more_leaves : ∀ f ∈ more, f.children = []
  more_names : ∀ name ∈ more.map (·.key), name ∈ kept

namespace Parts

variable {kept : List String} {itemFields more : List Field}

theorem beside_leaves (h : Parts scope d kept itemFields more) :
    ∀ f ∈ fieldsBesideBody scope d, f.children = [] :=
  fun f hf => h.straight.leaves f (List.mem_of_mem_filter hf)

/-- In a group, the item has paths of its own. -/
theorem mem_leafPaths_grouped (h : Parts scope d kept itemFields more) {g : Field} {key : String}
    (hSome : itemFields ≠ []) (hg : g.key = key) (hChildren : g.children = itemFields)
    (hNoProperty : key ∉ scope.bodyNames)
    (hAll : ∀ name ∈ kept, name ∈ (fieldsBesideBody scope d ++ [g] ++ more).map (·.key))
    {path : List String} :
    path ∈ Field.leafPaths (fieldsBesideBody scope d ++ [g] ++ more) ↔
      (∃ name ∈ d.request.parameterNames, path = [name]) ∨ (∃ name ∈ kept, path = [name]) ∨
      ∃ name ∈ itemFields.map (·.key), path = [key, name] := by
  rw [Field.leafPaths_append, Field.leafPaths_append, List.mem_append, List.mem_append,
    mem_leafPaths_group (by rwa [hChildren]) (hChildren ▸ h.item_leaves), hChildren, hg,
    mem_leafPaths_of_leaves h.beside_leaves, mem_leafPaths_of_leaves h.more_leaves]
  simp only [mem_keys_besideBody h.straight.level]
  constructor
  · rintro ((hParameter | hOfItem) | ⟨name, hName, rfl⟩)
    · exact Or.inl hParameter
    · exact Or.inr (Or.inr hOfItem)
    · exact Or.inr (Or.inl ⟨name, h.more_names name hName, rfl⟩)
  · rintro (hParameter | ⟨name, hName, rfl⟩ | hOfItem)
    · exact Or.inl (Or.inl hParameter)
    · -- a property that is kept has a field, which is not the group
      have hThere := hAll name hName
      rw [List.map_append, List.map_append, List.mem_append, List.mem_append,
        mem_keys_besideBody h.straight.level] at hThere
      rcases hThere with (hParameter | hIsGroup) | hIsMore
      · exact Or.inl (Or.inl ⟨name, hParameter, rfl⟩)
      · have hSame : name = key := (List.mem_singleton.mp hIsGroup).trans hg
        exact absurd (hSame ▸ h.kept_names name hName) hNoProperty
      · exact Or.inr ⟨name, hIsMore, rfl⟩
    · exact Or.inl (Or.inr hOfItem)

/-- Without a group, the fields of the item stand beside the parameters, each unless its key is
taken. -/
theorem mem_leafPaths_ungrouped (h : Parts scope d kept itemFields more)
    (hAll : ∀ name ∈ kept, name ∈ (fieldsBesideBody scope d ++ itemFields.filter (fun f =>
      !(fieldsBesideBody scope d).any (·.key == f.key)) ++ more).map (·.key))
    {path : List String} :
    path ∈ Field.leafPaths (fieldsBesideBody scope d ++ itemFields.filter (fun f =>
        !(fieldsBesideBody scope d).any (·.key == f.key)) ++ more) ↔
      (∃ name ∈ d.request.parameterNames, path = [name]) ∨ (∃ name ∈ kept, path = [name]) ∨
      ∃ name ∈ itemFields.map (·.key), path = [name] := by
  have hOfItem : ∀ f ∈ itemFields.filter fun f => !(fieldsBesideBody scope d).any (·.key == f.key),
      f.children = [] :=
    fun f hf => h.item_leaves f (List.mem_of_mem_filter hf)
  rw [mem_leafPaths_of_leaves (List.forall_mem_append.mpr
    ⟨List.forall_mem_append.mpr ⟨h.beside_leaves, hOfItem⟩, h.more_leaves⟩)]
  simp only [← exists_or, ← or_and_right]
  refine exists_congr fun name => and_congr_left fun _ => ?_
  have hKeys : name ∈ (fieldsBesideBody scope d).map (·.key) ↔ name ∈ d.request.parameterNames :=
    mem_keys_besideBody h.straight.level
  constructor
  · rw [List.map_append, List.map_append, List.mem_append, List.mem_append, hKeys]
    rintro ((hParameter | hItem) | hIsMore)
    · exact Or.inl hParameter
    · obtain ⟨f, hf, rfl⟩ := List.mem_map.mp hItem
      exact Or.inr (Or.inr (List.mem_map_of_mem (List.mem_of_mem_filter hf)))
    · exact Or.inr (Or.inl (h.more_names name hIsMore))
  · rintro (hParameter | hKept | hItem)
    · rw [List.map_append, List.map_append]
      exact List.mem_append_left _ (List.mem_append_left _ (hKeys.mpr hParameter))
    · exact hAll name hKept
    · obtain ⟨f, hf, rfl⟩ := List.mem_map.mp hItem
      rw [List.map_append, List.map_append]
      refine List.mem_append_left _ ?_
      -- a field whose key is taken is left out, but then there is one with its key
      cases hTaken : (fieldsBesideBody scope d).any (·.key == f.key) with
      | true =>
        obtain ⟨f', hf', hSame⟩ := List.any_eq_true.mp hTaken
        exact List.mem_append_left _ (List.mem_map.mpr ⟨f', hf', eq_of_beq hSame⟩)
      | false =>
        refine List.mem_append_right _ (List.mem_map_of_mem (List.mem_filter.mpr ⟨hf, ?_⟩))
        rw [hTaken]
        rfl

end Parts

/-- A flattened draft is shaped, if its fields have the paths that the plan asks for. -/
theorem shaped_of_flattened {plan : RequestPlan} {config : FlattenConfig} {kept : List String}
    {itemFields fields : List Field} {previous : BodyPlan} {sample : Value}
    (hCovered : Covered ⟨fields,
      { plan with body := some (flattenedBody scope config kept itemFields previous) }, sample⟩)
    (hMerges : previous.helperMerges = [])
    (hGroup : ∀ key, groupKey? config itemFields = some key → GroupPlaced key fields) :
    Shaped ⟨fields,
      { plan with body := some (flattenedBody scope config kept itemFields previous) },
      sample⟩ where
  covered := hCovered
  unmerged b hb := by
    have hBody : flattenedBody scope config kept itemFields previous = b := Option.some.inj hb
    rw [← hBody]
    exact hMerges
  group b hb flatten hFlatten key hKey := by
    have hBody : flattenedBody scope config kept itemFields previous = b := Option.some.inj hb
    have hPlan : (flattenedBody scope config kept itemFields previous).flatten =
        some ⟨config.arrayField, groupKey? config itemFields,
          namedPropertyPlans scope.itemSchema (itemFields.map (·.key))⟩ := rfl
    rw [← hBody, hPlan, Option.mem_some_iff] at hFlatten
    rw [← hFlatten, Option.mem_def] at hKey
    dsimp only at hKey
    exact hGroup key hKey

/-- **Flattening keeps inputs and request together**, if the group has none of their names. -/
theorem flatten_shaped {config : FlattenConfig} {additional : List String}
    (hd : Straight scope d)
    (hGroup : ∀ key, key ≠ "" → key = slugify (config.publicName.getD "") →
      key ∉ scope.parameterNames ∧ key ∉ scope.bodyNames)
    (h : (d.flatten scope config additional).Returns d') : Shaped d' := by
  obtain ⟨kept, itemFields, placed, required, fields, hKept, hItem, hPlaced, hFields, rfl⟩ :=
    flatten_returns h
  have hItemNamed := Field.ofProperties_ok hItem
  obtain ⟨more, rfl, hMore, hAll⟩ := foldlM_addKept_ok hFields
  have hParts : Parts scope d kept itemFields more := by
    refine ⟨hd, keptProperties_returns hKept, hItemNamed.children_eq, ?_,
      fun f hf => (hMore f hf).1.children_eq, ?_⟩
    · rw [hItemNamed.keys_eq]
      exact fun name hName => List.mem_of_mem_filter hName
    · intro name hName
      obtain ⟨f, hf, rfl⟩ := List.mem_map.mp hName
      exact (hMore f hf).2
  have hMerges : (d.request.body.getD {}).helperMerges = [] := by
    cases hBody : d.request.body with
    | none => rfl
    | some b => exact (hd.unshaped b hBody).2
  have hSlots := fun path => @mem_slots_flattened scope d.request config kept itemFields
    (d.request.body.getD {}) hParts.kept_names hParts.item_names hMerges path
  rcases placeItem_ok hPlaced with ⟨key, g, hKey, rfl, hg, hChildren, -⟩ | ⟨hNone, rfl⟩
  · -- the item is a group, behind fields that do not have its key
    obtain ⟨hNotEmpty, hSome, hSlug⟩ := groupKey?_eq_some hKey
    obtain ⟨hNoParameter, hNoProperty⟩ := hGroup key hNotEmpty hSlug
    refine shaped_of_flattened (fun path => ?_) hMerges fun key' hKey' => ?_
    · rw [hSlots, hParts.mem_leafPaths_grouped hSome hg hChildren hNoProperty hAll, hKey]
      simp only [inputPath_some hNotEmpty]
    · cases Option.some.inj (hKey.symm.trans hKey')
      refine ⟨hNotEmpty, fieldsBesideBody scope d, g, more, ?_, hg, by rwa [hChildren], ?_⟩
      · rw [List.append_assoc, List.singleton_append]
      · refine fun f hf => ⟨hParts.beside_leaves f hf, fun hSame => hNoParameter ?_⟩
        exact hd.parameter_names key
          ((mem_keys_besideBody hd.level).mp (hSame ▸ List.mem_map_of_mem hf))
  · -- the fields of the item stand beside the others, and no helper is nested
    refine shaped_of_flattened (fun path => ?_) hMerges fun key hKey => ?_
    · rw [hSlots, hParts.mem_leafPaths_ungrouped hAll, hNone]
      simp only [inputPath_none]
    · exact nomatch hNone.symm.trans hKey

/-! ## Helpers -/

/-- The places of the helpers of some merges: in the group of the item for its properties, if there
is one. -/
def mergeSlots (site : Option ItemSite) (merges : List MergePlan) : List (List String) :=
  merges.flatMap fun m => m.helperKeys.map (inputPath (groupFor site m.target))

/-- A merge that knows whether its property is in the item and its helpers are in the group. -/
structure Sited (site : Option ItemSite) (m : MergePlan) : Prop where
  inItem_eq : m.inItem = isOfItem site m.target
  nested_eq : m.nested = (groupFor site m.target).isSome

/-- Fields and merges to which helpers have been added. -/
structure Fits (site : Option ItemSite) (slots : List (List String)) (a : Attachment) : Prop where
  covered : ∀ path, path ∈ slots ∨ path ∈ mergeSlots site a.merges ↔ path ∈ Field.leafPaths a.fields
  merges : ∀ m ∈ a.merges, Sited site m
  group : ∀ key, site.bind (·.group) = some key → GroupPlaced key a.fields

variable {site : Option ItemSite} {slots : List (List String)} {a a' : Attachment}

theorem mem_mergeSlots {merges : List MergePlan} {path : List String} :
    path ∈ mergeSlots site merges ↔
      ∃ m ∈ merges, ∃ key ∈ m.helperKeys, path = inputPath (groupFor site m.target) key := by
  simp only [mergeSlots, List.mem_flatMap, List.mem_map, eq_comm (a := path)]

theorem mergeSlots_append (ms ns : List MergePlan) :
    mergeSlots site (ms ++ ns) = mergeSlots site ms ++ mergeSlots site ns :=
  List.flatMap_append

/-- A merge with one more helper asks for one more input. -/
theorem mem_mergeSlots_join {target key : String} {merges : List MergePlan}
    (hThere : merges.any (·.target == target) = true) {path : List String} :
    path ∈ mergeSlots site (merges.map fun m =>
        if m.target == target then { m with helperKeys := m.helperKeys ++ [key] } else m) ↔
      path ∈ mergeSlots site merges ∨ path = inputPath (groupFor site target) key := by
  rw [mem_mergeSlots, mem_mergeSlots]
  constructor
  · rintro ⟨m', hm', key', hKey', rfl⟩
    obtain ⟨m, hm, rfl⟩ := List.mem_map.mp hm'
    split at hKey'
    · next hTarget =>
      rw [if_pos hTarget]
      rcases List.mem_append.mp hKey' with hOld | hNew
      · exact Or.inl ⟨m, hm, key', hOld, rfl⟩
      · exact Or.inr (by rw [List.mem_singleton.mp hNew, eq_of_beq hTarget])
    · next hOther =>
      rw [if_neg hOther]
      exact Or.inl ⟨m, hm, key', hKey', rfl⟩
  · rintro (⟨m, hm, key', hKey', rfl⟩ | rfl)
    · refine ⟨_, List.mem_map_of_mem hm, key', ?_, ?_⟩
      · split
        · exact List.mem_append_left _ hKey'
        · exact hKey'
      · split <;> rfl
    · obtain ⟨m, hm, hTarget⟩ := List.any_eq_true.mp hThere
      refine ⟨_, List.mem_map_of_mem hm, key, ?_, ?_⟩
      · rw [if_pos hTarget]
        exact List.mem_append_right _ (List.mem_singleton_self _)
      · rw [if_pos hTarget, eq_of_beq hTarget]

/-- One more helper asks for one more input. -/
theorem addMerge_slots {key : String} {helper : HelperConfig} {merges merges' : List MergePlan}
    (h : (addMerge scope site (groupFor site helper.mapTo).isSome key helper merges).Returns
      merges')
    (hMerges : ∀ m ∈ merges, Sited site m) :
    (∀ m ∈ merges', Sited site m) ∧ ∀ path, path ∈ mergeSlots site merges' ↔
      path ∈ mergeSlots site merges ∨ path = inputPath (groupFor site helper.mapTo) key := by
  rcases addMerge_returns h with ⟨hThere, rfl⟩ | ⟨isArray, rfl⟩
  · -- the merge for the target is there and gains the helper
    refine ⟨fun m' hm' => ?_, fun path => mem_mergeSlots_join hThere⟩
    obtain ⟨m, hm, rfl⟩ := List.mem_map.mp hm'
    obtain ⟨hInItem, hNested⟩ := hMerges m hm
    split
    · exact ⟨hInItem, hNested⟩
    · exact ⟨hInItem, hNested⟩
  · -- there is a new merge with this helper only
    refine ⟨List.forall_mem_append.mpr ⟨hMerges, List.forall_mem_singleton.mpr ⟨rfl, rfl⟩⟩,
      fun path => ?_⟩
    rw [mergeSlots_append, List.mem_append]
    refine or_congr_right ?_
    simp only [mem_mergeSlots, List.mem_singleton, exists_eq_left]

/-- A helper in the group of the item adds a leaf there, and the group stays where it is. -/
theorem addToGroup_placed {fields fields' : List Field} {key : String} {f : Field}
    (hGroup : GroupPlaced key fields) (hLeaf : f.children = [])
    (h : addToGroup fields key f = .ok fields') :
    GroupPlaced key fields' ∧ ∀ path, path ∈ Field.leafPaths fields' ↔
      path ∈ Field.leafPaths fields ∨ path = [key, f.key] := by
  obtain ⟨hNotEmpty, before, g, after, rfl, hg, hSome, hBefore⟩ := hGroup
  -- the first field with the key is the group
  have hPlace : fields' = before ++ { g with children := g.children ++ [f] } :: after := by
    rcases addToGroup_ok h with ⟨hMissing, -⟩ | hAdded
    · rw [Field.find?_behind_leaves hBefore hg] at hMissing
      cases hMissing
    · rw [hAdded, Field.updateFirst_behind_leaves hBefore hg]
  subst hPlace
  refine ⟨⟨hNotEmpty, before, _, after, rfl, hg, ?_, hBefore⟩, fun path => ?_⟩
  · exact List.append_ne_nil_of_left_ne_nil hSome _
  · have hLeafPaths : Field.leafPaths [f] = [[f.key]] := by
      rw [Field.leafPaths_of_leaves (List.forall_mem_singleton.mpr hLeaf)]
      rfl
    have hOld : g.leafPathsOf = (Field.leafPaths g.children).map (key :: ·) := by
      rw [Field.leafPathsOf_eq, if_neg (by rwa [List.isEmpty_iff]), hg]
    have hNew : Field.leafPathsOf { g with children := g.children ++ [f] } =
        g.leafPathsOf ++ [[key, f.key]] := by
      rw [hOld, Field.leafPathsOf_eq, if_neg (by
        rw [List.isEmpty_iff]
        exact List.append_ne_nil_of_left_ne_nil hSome _)]
      dsimp only
      rw [Field.leafPaths_append, hLeafPaths, List.map_append, hg]
      rfl
    rw [Field.leafPaths_append, Field.leafPaths_append, Field.leafPaths, Field.leafPaths, hNew]
    simp only [List.mem_append, List.mem_singleton]
    tauto

theorem groupFor_eq_some {target key : String} (h : groupFor site target = some key) :
    site.bind (·.group) = some key := by
  unfold groupFor at h
  split at h
  · exact h
  · cases h

/-- **A helper brings its input and its slot at the same place.** -/
theorem attachHelper_fits {named : String × HelperConfig} (ha : Fits site slots a)
    (h : (attachHelper scope site a named).Returns a') : Fits site slots a' := by
  rcases attachHelper_returns h with rfl | ⟨f, hBuilt, hInGroup, hAlone, hMerge⟩
  · exact ha
  obtain ⟨hKey, hLeaf, -⟩ := helperField_returns hBuilt
  obtain ⟨hMerges, hSlots⟩ := addMerge_slots hMerge ha.merges
  have hFields : (∀ key, site.bind (·.group) = some key → GroupPlaced key a'.fields) ∧
      ∀ path, path ∈ Field.leafPaths a'.fields ↔ path ∈ Field.leafPaths a.fields ∨
        path = inputPath (groupFor site named.2.mapTo) named.1 := by
    cases hGroup : groupFor site named.2.mapTo with
    | none =>
      rw [hAlone hGroup]
      refine ⟨fun key hSite => (ha.group key hSite).append [f], fun path => ?_⟩
      rw [Field.leafPaths_append, List.mem_append,
        Field.leafPaths_of_leaves (List.forall_mem_singleton.mpr hLeaf), List.map_singleton,
        List.mem_singleton, hKey, inputPath_none]
    | some key =>
      have hSite := groupFor_eq_some hGroup
      obtain ⟨hPlaced, hPaths⟩ :=
        addToGroup_placed (ha.group key hSite) hLeaf (hInGroup key hGroup)
      refine ⟨fun key' hSite' => ?_, fun path => ?_⟩
      · cases Option.some.inj (hSite.symm.trans hSite')
        exact hPlaced
      · rw [hPaths, hKey, inputPath_some (ha.group key hSite).1]
  refine ⟨fun path => ?_, hMerges, hFields.1⟩
  rw [hSlots, hFields.2, ← ha.covered, or_assoc]

/-- The slots of helpers are those of their merges, if these are for the same places. -/
theorem helperSlots_eq {b : BodyPlan} (hFlatten : d.request.body.bind (·.flatten) = b.flatten)
    (hMerges : ∀ m ∈ b.helperMerges, Sited (itemSite? scope d) m) :
    b.helperSlots = mergeSlots (itemSite? scope d) b.helperMerges := by
  unfold BodyPlan.helperSlots mergeSlots
  rw [List.flatMap_def, List.flatMap_def]
  refine congrArg List.flatten (List.map_congr_left fun m hm => ?_)
  obtain ⟨hInItem, hNested⟩ := hMerges m hm
  cases hPlan : b.flatten with
  | none =>
    -- without an item there is no site, and no merge is for the item
    have hSite : itemSite? scope d = none := by
      rw [itemSite?, hFlatten, hPlan, Option.map_none]
    have hNoGroup : groupFor (itemSite? scope d) m.target = none := by
      rw [hSite]
      rfl
    have hBeside : m.inItem = false := by
      rw [hInItem, hSite]
      rfl
    rw [hBeside, hNoGroup]
    dsimp only
    rw [MergePlan.slots, ite_self]
  | some flatten =>
    -- in the plan the group is that of the item; a merge beside the item has none
    cases hItem : m.inItem with
    | false =>
      have hNoGroup : groupFor (itemSite? scope d) m.target = none := by
        rw [groupFor, ← hInItem, hItem]
        rfl
      rw [hNoGroup]
      dsimp only
      rw [MergePlan.slots, ite_self]
    | true =>
      dsimp only
      rw [MergePlan.slots, hNested]
      refine congrArg (fun group => m.helperKeys.map (inputPath group)) ?_
      cases hGroup : groupFor (itemSite? scope d) m.target with
      | none => rfl
      | some key =>
        have hKey := groupFor_eq_some hGroup
        rw [itemSite?, hFlatten, hPlan, Option.map_some, Option.bind_some] at hKey
        rw [Option.isSome_some, if_pos rfl]
        exact (Option.filter_eq_some_iff.mp hKey).1

/-- **Helpers keep inputs and request together.** -/
theorem addHelpers_covered (hd : Shaped d) (h : (d.addHelpers scope).Returns d') : Covered d' := by
  obtain ⟨a, hAttached, rfl⟩ := addHelpers_returns h
  have hStart : Fits (itemSite? scope d) d.request.slots { fields := d.fields } := by
    refine ⟨fun path => ?_, nofun, fun key hKey => ?_⟩
    · rw [← hd.covered path]
      exact or_iff_left List.not_mem_nil
    · -- the site has a group only if the plan has it
      obtain ⟨site, hSite, hKey⟩ := Option.bind_eq_some_iff.mp hKey
      obtain ⟨flatten, hFlatten, rfl⟩ := Option.map_eq_some_iff.mp hSite
      obtain ⟨b, hb, hFlatten⟩ := Option.bind_eq_some_iff.mp hFlatten
      exact hd.group b hb flatten hFlatten key (Option.filter_eq_some_iff.mp hKey).1
  have hFits : Fits (itemSite? scope d) d.request.slots a :=
    returns_foldlM hStart (fun _ _ _ _ ha hStep => attachHelper_fits ha hStep) hAttached
  have hFirst : (d.request.body.getD {}).helperMerges ++ a.merges = a.merges := by
    cases hBody : d.request.body with
    | none => rfl
    | some b => rw [Option.getD_some, hd.unmerged b hBody, List.nil_append]
  have hHelpers : BodyPlan.helperSlots { d.request.body.getD {} with helperMerges := a.merges } =
      mergeSlots (itemSite? scope d) a.merges := by
    refine helperSlots_eq ?_ hFits.merges
    cases d.request.body <;> rfl
  intro path
  rw [hFirst, ← hFits.covered path, RequestPlan.mem_slots, RequestPlan.mem_slots, or_assoc]
  refine or_congr_right ?_
  dsimp only
  simp only [Option.mem_some_iff, exists_eq_left', BodyPlan.mem_slots, hHelpers]
  cases hBody : d.request.body with
  | none =>
    -- the body is there only for the helpers
    simp [BodyPlan.propertyNames]
  | some b =>
    simp only [Option.getD_some, Option.mem_some_iff, exists_eq_left', BodyPlan.propertyNames,
      helperSlots_of_unmerged (hd.unmerged b hBody), List.not_mem_nil, or_false, or_assoc]

/-! ## Dropdowns and defaults -/

theorem covered_of_same (hd : Covered d) (hSlots : d'.request.slots = d.request.slots)
    (hLeaves : Field.leafPaths d'.fields = Field.leafPaths d.fields) : Covered d' := by
  intro path
  rw [hSlots, hLeaves]
  exact hd path

theorem markDynamic_name (p : PropertyPlan) : (markDynamic scope p).name = p.name := by
  unfold markDynamic
  split <;> rfl

/-- Marks of dropdowns do not change where a body looks for its inputs. -/
theorem slots_markBody (b : BodyPlan) : (markBody scope b).slots = b.slots := by
  have hNames : (markBody scope b).propertyNames = b.propertyNames := by
    unfold markBody BodyPlan.propertyNames
    rw [List.map_map]
    exact List.map_congr_left fun p _ => markDynamic_name p
  have hHelpers : (markBody scope b).helperSlots = b.helperSlots := by
    unfold markBody BodyPlan.helperSlots
    rw [List.flatMap_def, List.flatMap_def]
    refine congrArg List.flatten (List.map_congr_left fun m _ => ?_)
    cases m.inItem <;> cases b.flatten <;> rfl
  rw [BodyPlan.slots, BodyPlan.slots, hNames, hHelpers]
  refine congrArg (b.propertyNames.map (inputPath none) ++ · ++ b.helperSlots) ?_
  -- what is left are the properties of the item, which keep their names
  unfold markBody
  cases b.flatten with
  | none => rfl
  | some flatten =>
    rw [Option.map_some, Option.toList_some, Option.toList_some, List.flatMap_singleton,
      List.flatMap_singleton]
    dsimp only
    rw [List.map_map]
    refine List.map_congr_left fun p _ => ?_
    rw [Function.comp_apply, markDynamic_name]

theorem withDropdown_key (bound : List (String × Binding)) (f : Field) :
    (withDropdown bound f).key = f.key := by
  unfold withDropdown
  split <;> rfl

theorem withDropdown_children (bound : List (String × Binding)) (f : Field) :
    (withDropdown bound f).children = f.children := by
  unfold withDropdown
  split <;> rfl

theorem bindDropdowns_covered (hd : Covered d) (h : (d.bindDropdowns scope).Returns d') :
    Covered d' := by
  obtain ⟨bound, -, rfl⟩ := bindDropdowns_returns h
  refine covered_of_same hd ?_
    (Field.leafPaths_mapLeaves (withDropdown_key bound) (withDropdown_children bound) _)
  unfold RequestPlan.slots RequestPlan.parameterNames
  cases hBody : d.request.body with
  | none => rfl
  | some b =>
    rw [Option.map_some, Option.toList_some, Option.toList_some, List.flatMap_singleton,
      List.flatMap_singleton, slots_markBody]

theorem setDefault_covered {key : String} {v : Value} (hd : Covered d)
    (h : (setDefault scope d key v).Returns d') : Covered d' := by
  rcases setDefault_returns h with rfl | ⟨default, rfl⟩ | rfl
  · exact hd
  · refine covered_of_same hd rfl (Field.leafPaths_updateFirst ?_ ?_ _)
    · exact fun _ => rfl
    · exact fun _ => rfl
  · refine covered_of_same hd ?_ rfl
    unfold RequestPlan.slots RequestPlan.parameterNames
    cases d.request.body <;> rfl

/-! ## All stages -/

/-- **The stages keep inputs and request together**, if the group of the item has none of the names
of the endpoint. -/
theorem refine_covered (hd : Straight scope d)
    (hGroup : ∀ config, scope.flatten? = some config → ∀ key, key ≠ "" →
      key = slugify (config.publicName.getD "") →
        key ∉ scope.parameterNames ∧ key ∉ scope.bodyNames)
    (h : (d.refine scope).Returns d') : Covered d' := by
  have hHidden := hide_straight hd
  refine refine_phases (I := Shaped) (J := Covered) (shaped_of_straight hHidden) ?_ ?_ ?_ ?_ ?_ h
  · exact fun config _ _ hConfig hFlat => flatten_shaped hHidden (hGroup config hConfig) hFlat
  · exact fun _ hShaped => hShaped.covered
  · exact fun _ _ hShaped hStage => addHelpers_covered hShaped hStage
  · exact fun _ _ he hStage => bindDropdowns_covered he hStage
  · exact fun _ _ _ _ he hStep => setDefault_covered he hStep

end Draft

end IntegrationCompiler
