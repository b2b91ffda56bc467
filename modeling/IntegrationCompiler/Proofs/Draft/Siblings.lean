import IntegrationCompiler.Proofs.Draft.Shape
import IntegrationCompiler.Proofs.Field.Siblings

/-!
# Keys that stages give

The inputs of an action come from five places: parameters, properties of the body, those of an item,
properties that are kept beside it, and helpers. Each stage looks whether a key is taken before it
uses it; only the group around the inputs of an item takes its key without looking.

* `Draft.Around`, `Draft.Arranged` — the fields after flattening: leaves with different keys, with or
  without the group among them;
* `Draft.attachHelper_arranged` — one helper keeps this, and none gets into the group if its key is
  taken;
* `Draft.Apart` — no key is repeated but that of the group, which is if a parameter has it;
* `Draft.refine_apart` — all stages together.
-/

namespace IntegrationCompiler

open Logged

/-- The key of the group around the inputs of the item, if the plan has one. -/
def RequestPlan.groupKey? (plan : RequestPlan) : Option String :=
  (plan.body.bind (·.flatten)).bind (·.groupKey)

namespace Draft

variable {scope : Scope} {d d' : Draft}

/-! ## Fields after flattening -/

/-- A group among leaves. Those before it are the inputs for parameters; the keys of all leaves
differ, and so do those in the group; behind the group none has its key. -/
structure Around (params : List String) (before : List Field) (g : Field) (after : List Field) :
    Prop where
  leaves : ∀ f ∈ before ++ after, f.children = []
  shapes : ∀ f ∈ before, f.WellShaped
  parameters : ∀ name, name ∈ before.map (·.key) ↔ name ∈ params
  distinct : ((before ++ after).map (·.key)).Nodup
  free : g.key ∉ after.map (·.key)
  item_leaves : ∀ f ∈ g.children, f.children = []
  item_distinct : (g.children.map (·.key)).Nodup

/-- Fields are leaves with different keys, with the group among them if there is one. -/
inductive Arranged (params : List String) : Option String → List Field → Prop where
  | level {fields : List Field} : (∀ f ∈ fields, f.children = []) →
    (fields.map (·.key)).Nodup → Arranged params none fields
  | around {before after : List Field} {g : Field} : Around params before g after →
    Arranged params (some g.key) (before ++ g :: after)

theorem nodup_keys_append {as bs : List Field} (ha : (as.map (·.key)).Nodup)
    (hb : (bs.map (·.key)).Nodup) (hOther : ∀ f ∈ bs, f.key ∉ as.map (·.key)) :
    ((as ++ bs).map (·.key)).Nodup := by
  rw [List.map_append, List.nodup_append']
  refine ⟨ha, hb, ?_⟩
  intro key hThere hHere
  obtain ⟨f, hf, rfl⟩ := List.mem_map.mp hHere
  exact hOther f hf hThere

/-- Flattening looks for every key but that of the group. -/
theorem flatten_arranged {config : FlattenConfig} {additional : List String}
    (hd : Level scope d) (hShapes : ∀ f ∈ d.fields, f.WellShaped)
    (hKeys : (d.fields.map (·.key)).Nodup)
    (hSchema : (Entries.names (Schema.properties scope.itemSchema)).Nodup)
    (h : (d.flatten scope config additional).Returns d') :
    Arranged d'.request.parameterNames d'.request.groupKey? d'.fields := by
  obtain ⟨kept, itemFields, placed, required, fields, -, hItem, hPlaced, hFields, rfl⟩ :=
    flatten_returns h
  obtain ⟨more, rfl, hMore, -⟩ := foldlM_addKept_ok hFields
  obtain ⟨hMoreKeys, hMoreFree⟩ := nodup_foldlM_addKept hFields
  have hItemNamed := Field.ofProperties_ok hItem
  have hItemKeys : (itemFields.map (·.key)).Nodup := by
    rw [hItemNamed.keys_eq]
    exact hSchema.filter _
  have hMoreLeaves : ∀ f ∈ more, f.children = [] := fun f hf => (hMore f hf).1.children_eq
  have hBesideLeaves : ∀ f ∈ fieldsBesideBody scope d, f.children = [] :=
    fun f hf => hd.leaves f (List.mem_of_mem_filter hf)
  have hBesideKeys : ((fieldsBesideBody scope d).map (·.key)).Nodup :=
    hKeys.sublist (List.filter_sublist.map _)
  have hPlan : RequestPlan.groupKey? { d.request with
      body := some (flattenedBody scope config kept itemFields (d.request.body.getD {})) } =
      groupKey? config itemFields := by
    rw [RequestPlan.groupKey?, Option.bind_some, flattenedBody, Option.bind_some]
  dsimp only
  rw [hPlan]
  rcases placeItem_ok hPlaced with ⟨key, g, hGroup, rfl, rfl, rfl, -⟩ | ⟨hNone, rfl⟩
  · -- the group stands between the inputs for parameters and the properties that are kept
    rw [List.append_assoc, List.singleton_append, hGroup]
    have hOthers : ∀ f ∈ more, f.key ∉ (fieldsBesideBody scope d).map (·.key) ∧ f.key ≠ g.key := by
      intro f hf
      have hFree := hMoreFree f hf
      rw [List.map_append, List.mem_append, not_or, List.map_singleton, List.mem_singleton] at hFree
      exact hFree
    refine .around ⟨?_, ?_, ?_, ?_, ?_, hItemNamed.children_eq, hItemKeys⟩
    · exact List.forall_mem_append.mpr ⟨hBesideLeaves, hMoreLeaves⟩
    · exact fun f hf => hShapes f (List.mem_of_mem_filter hf)
    · exact fun name => mem_keys_besideBody hd
    · exact nodup_keys_append hBesideKeys hMoreKeys fun f hf => (hOthers f hf).1
    · intro hTaken
      obtain ⟨f, hf, hSame⟩ := List.mem_map.mp hTaken
      exact (hOthers f hf).2 hSame
  · -- the fields of the item are put in unless their keys are taken
    rw [hNone]
    refine .level ?_ ?_
    · refine List.forall_mem_append.mpr ⟨List.forall_mem_append.mpr ⟨hBesideLeaves, ?_⟩, hMoreLeaves⟩
      exact fun f hf => hItemNamed.children_eq f (List.mem_of_mem_filter hf)
    · refine nodup_keys_append (nodup_keys_append hBesideKeys ?_ ?_) hMoreKeys hMoreFree
      · exact hItemKeys.sublist (List.filter_sublist.map _)
      · intro f hf hTaken
        obtain ⟨f', hf', hSame⟩ := List.mem_map.mp hTaken
        have hThere : (fieldsBesideBody scope d).any (·.key == f.key) = true :=
          List.any_eq_true.mpr ⟨f', hf', beq_iff_eq.mpr hSame⟩
        have hFree := (List.mem_filter.mp hf).2
        rw [hThere] at hFree
        cases hFree

/-! ## Helpers -/

/-- A helper whose key is free among all inputs goes last. -/
theorem Arranged.concat {params : List String} {group : Option String} {fields : List Field}
    (h : Arranged params group fields) {f : Field} (hLeaf : f.children = [])
    (hFree : f.key ∉ fields.map (·.key)) : Arranged params group (fields ++ [f]) := by
  have hOne : ∀ f' ∈ [f], f'.children = [] := List.forall_mem_singleton.mpr hLeaf
  have hOneKey : ([f].map (·.key)).Nodup := List.nodup_singleton f.key
  cases h with
  | level hLeaves hKeys =>
    exact .level (List.forall_mem_append.mpr ⟨hLeaves, hOne⟩)
      (nodup_keys_append hKeys hOneKey (List.forall_mem_singleton.mpr hFree))
  | @around before after g hAround =>
    rw [List.map_append, List.map_cons, List.mem_append, List.mem_cons] at hFree
    push Not at hFree
    obtain ⟨hNotBefore, hNotGroup, hNotAfter⟩ := hFree
    rw [List.append_assoc, List.cons_append]
    refine .around ⟨?_, hAround.shapes, hAround.parameters, ?_, ?_, hAround.item_leaves,
      hAround.item_distinct⟩
    · rw [← List.append_assoc]
      exact List.forall_mem_append.mpr ⟨hAround.leaves, hOne⟩
    · rw [← List.append_assoc]
      refine nodup_keys_append hAround.distinct hOneKey (List.forall_mem_singleton.mpr ?_)
      rw [List.map_append, List.mem_append]
      exact not_or.mpr ⟨hNotBefore, hNotAfter⟩
    · rw [List.map_append, List.mem_append, not_or]
      exact ⟨hAround.free, fun h => hNotGroup (List.mem_singleton.mp h).symm⟩

/-- A helper gets into the group only if the key of the group is not taken: otherwise a parameter is
found in its place, and that cannot have children. -/
theorem Around.nested {params : List String} {before after fields' : List Field} {g f : Field}
    (h : Around params before g after) (hLeaf : f.children = [])
    (hFree : f.key ∉ (((Field.find? (before ++ g :: after) g.key).map Field.children).getD []).map
      (·.key))
    (hAdded : addToGroup (before ++ g :: after) g.key f = .ok fields') :
    Arranged params (some g.key) fields' := by
  have hLeaves := List.forall_mem_append.mp h.leaves
  by_cases hTaken : g.key ∈ before.map (·.key)
  · -- only a field without a type takes children, and a leaf has one
    obtain ⟨p, hp, hFound⟩ := Field.exists_find?_of_leaves hLeaves.1 hTaken (g :: after)
    have hUntyped := addToGroup_untyped hAdded hFound
    have hTyped := (h.shapes p hp).kind
    rw [hUntyped, hLeaves.1 p hp] at hTyped
    cases hTyped
  · have hBefore : ∀ b ∈ before, b.children = [] ∧ b.key ≠ g.key := by
      intro b hb
      refine ⟨hLeaves.1 b hb, ?_⟩
      intro hSame
      exact hTaken (List.mem_map.mpr ⟨b, hb, hSame⟩)
    have hFound : Field.find? (before ++ g :: after) g.key = some g :=
      Field.find?_behind_leaves hBefore rfl
    rw [hFound] at hFree
    have hPlace : fields' = before ++ { g with children := g.children ++ [f] } :: after := by
      rcases addToGroup_ok hAdded with ⟨hMissing, -⟩ | hUpdated
      · rw [hFound] at hMissing
        cases hMissing
      · rw [hUpdated, Field.updateFirst_behind_leaves hBefore rfl]
    rw [hPlace]
    have hAround : Around params before { g with children := g.children ++ [f] } after := by
      refine ⟨h.leaves, h.shapes, h.parameters, h.distinct, h.free, ?_, ?_⟩
      · exact List.forall_mem_append.mpr ⟨h.item_leaves, List.forall_mem_singleton.mpr hLeaf⟩
      · exact nodup_keys_append h.item_distinct (List.nodup_singleton f.key)
          (List.forall_mem_singleton.mpr hFree)
    exact .around hAround

/-- **One helper keeps the arrangement**, wherever it is placed. -/
theorem attachHelper_arranged {params : List String} {group : Option String}
    {site : Option ItemSite} {a a' : Attachment} {named : String × HelperConfig}
    (hSite : ∀ key, site.bind (·.group) = some key → group = some key)
    (ha : Arranged params group a.fields) (h : (attachHelper scope site a named).Returns a') :
    Arranged params group a'.fields := by
  rcases attachHelper_attaches h with rfl | ⟨hFree, f, hBuilt, hInGroup, hAlone, -⟩
  · exact ha
  obtain ⟨hKey, hLeaf, -⟩ := helperField_returns hBuilt
  unfold siblingsFor at hFree
  rw [← hKey] at hFree
  cases hGroup : groupFor site named.2.mapTo with
  | none =>
    rw [hGroup] at hFree
    rw [hAlone hGroup]
    exact ha.concat hLeaf hFree
  | some key =>
    rw [hGroup] at hFree
    have hAdded := hInGroup key hGroup
    cases hSite key (groupFor_eq_some hGroup)
    -- there is a group, so the fields are arranged around it
    obtain ⟨fields, merges⟩ := a
    cases ha with
    | around hAround => exact hAround.nested hLeaf hFree hAdded

/-! ## What is repeated -/

/-- The children of a field have different keys. Of the inputs only the group can have a key that
another one has, and it does exactly if a parameter that the plan asks for has it. -/
structure Apart (d : Draft) : Prop where
  under : ∀ keys ∈ Field.childKeys d.fields, keys.Nodup
  repeated : ∀ name, List.Duplicate name (d.fields.map (·.key)) ↔
    d.request.groupKey? = some name ∧ name ∈ d.request.parameterNames

theorem apart_of_arranged (h : Arranged d.request.parameterNames d.request.groupKey? d.fields) :
    Apart d := by
  obtain ⟨fields, request, sample⟩ := d
  dsimp only at h
  generalize hParams : request.parameterNames = params at h
  generalize hGroup : request.groupKey? = group at h
  cases h with
  | level hLeaves hKeys =>
    refine ⟨?_, ?_⟩
    · intro keys hMem
      rw [Field.eq_nil_of_mem_childKeys hLeaves hMem]
      exact List.nodup_nil
    · intro name
      dsimp only
      rw [hGroup]
      exact ⟨fun hTwice => absurd hKeys hTwice.not_nodup, fun h => nomatch h.1⟩
  | @around before after g hAround =>
    have hLeaves := List.forall_mem_append.mp hAround.leaves
    refine ⟨?_, ?_⟩
    · intro keys hMem
      dsimp only at hMem
      rw [Field.childKeys_append, Field.childKeys_cons, Field.childKeys_singleton,
        List.mem_append, List.mem_append, List.mem_cons] at hMem
      rcases hMem with hBefore | (rfl | hItem) | hAfter
      · rw [Field.eq_nil_of_mem_childKeys hLeaves.1 hBefore]
        exact List.nodup_nil
      · exact hAround.item_distinct
      · rw [Field.eq_nil_of_mem_childKeys hAround.item_leaves hItem]
        exact List.nodup_nil
      · rw [Field.eq_nil_of_mem_childKeys hLeaves.2 hAfter]
        exact List.nodup_nil
    · intro name
      have hDistinct := hAround.distinct
      rw [List.map_append] at hDistinct
      dsimp only
      rw [hGroup, hParams, Option.some.injEq, List.map_append, List.map_cons,
        duplicate_append_cons hDistinct, ← hAround.parameters name]
      refine and_congr_right ?_
      rintro rfl
      rw [List.mem_append]
      exact or_iff_left hAround.free

/-- What stays the same for a change that touches neither keys nor children nor the plan of the
parameters and the group. -/
theorem apart_of_same (hd : Apart d)
    (hKeys : d'.fields.map (·.key) = d.fields.map (·.key))
    (hUnder : Field.childKeys d'.fields = Field.childKeys d.fields)
    (hGroup : d'.request.groupKey? = d.request.groupKey?)
    (hParams : d'.request.parameterNames = d.request.parameterNames) : Apart d' where
  under := hUnder ▸ hd.under
  repeated := by
    rw [hKeys, hGroup, hParams]
    exact hd.repeated

/-! ## All stages -/

theorem addHelpers_arranged
    (hd : Arranged d.request.parameterNames d.request.groupKey? d.fields)
    (h : (d.addHelpers scope).Returns d') :
    Arranged d'.request.parameterNames d'.request.groupKey? d'.fields := by
  obtain ⟨a, hAttached, rfl⟩ := addHelpers_returns h
  -- the site has the key of the group only if the plan has it
  have hSite : ∀ key, (itemSite? scope d).bind (·.group) = some key →
      d.request.groupKey? = some key := by
    intro key hKey
    obtain ⟨site, hSite, hKey⟩ := Option.bind_eq_some_iff.mp hKey
    obtain ⟨flatten, hFlatten, rfl⟩ := Option.map_eq_some_iff.mp hSite
    rw [RequestPlan.groupKey?, hFlatten]
    exact (Option.filter_eq_some_iff.mp hKey).1
  have hAll : Arranged d.request.parameterNames d.request.groupKey? a.fields :=
    returns_foldlM (I := fun a => Arranged d.request.parameterNames d.request.groupKey? a.fields) hd
      (fun _ _ _ _ ha hStep => attachHelper_arranged hSite ha hStep) hAttached
  have hGroup : RequestPlan.groupKey? { d.request with
      body := some { d.request.body.getD {} with
        helperMerges := (d.request.body.getD {}).helperMerges ++ a.merges } } =
      d.request.groupKey? := by
    unfold RequestPlan.groupKey?
    cases d.request.body <;> rfl
  dsimp only
  rw [hGroup]
  exact hAll

theorem bindDropdowns_apart (hd : Apart d) (h : (d.bindDropdowns scope).Returns d') : Apart d' := by
  obtain ⟨bound, -, rfl⟩ := bindDropdowns_returns h
  refine apart_of_same hd ?_ ?_ ?_ rfl
  · exact Field.keys_mapLeaves (withDropdown_key bound) _
  · exact Field.childKeys_mapLeaves (withDropdown_key bound) (withDropdown_children bound) _
  · unfold RequestPlan.groupKey?
    dsimp only
    cases d.request.body with
    | none => rfl
    | some b =>
      rw [Option.map_some, Option.bind_some, Option.bind_some, markBody]
      cases b.flatten <;> rfl

theorem setDefault_apart {key : String} {v : Value} (hd : Apart d)
    (h : (setDefault scope d key v).Returns d') : Apart d' := by
  rcases setDefault_returns h with rfl | ⟨default, rfl⟩ | rfl
  · exact hd
  · refine apart_of_same hd (Field.keys_updateFirst ?_ _) (Field.childKeys_updateFirst ?_ ?_ _) rfl rfl
    all_goals exact fun _ => rfl
  · refine apart_of_same hd rfl rfl ?_ rfl
    unfold RequestPlan.groupKey?
    cases d.request.body <;> rfl

/-- **No stage gives a key that is taken**, apart from the group: after all of them, its key is
repeated exactly if a parameter that is asked for has it, and no other key is. -/
theorem refine_apart (hd : Level scope d) (hShapes : ∀ f ∈ d.fields, f.WellShaped)
    (hKeys : (d.fields.map (·.key)).Nodup)
    (hSchema : (Entries.names (Schema.properties scope.itemSchema)).Nodup)
    (h : (d.refine scope).Returns d') : Apart d' := by
  have hHidden := hide_level hd
  have hSublist : (d.hide scope).fields.Sublist d.fields := hide_fields_sublist hd.leaves
  have hHiddenShapes : ∀ f ∈ (d.hide scope).fields, f.WellShaped :=
    fun f hf => hShapes f (hSublist.subset hf)
  have hHiddenKeys : ((d.hide scope).fields.map (·.key)).Nodup := hKeys.sublist (hSublist.map _)
  refine refine_phases (J := Apart)
    (I := fun e => Arranged e.request.parameterNames e.request.groupKey? e.fields)
    ?_ ?_ ?_ ?_ ?_ ?_ h
  · have hNoGroup : (d.hide scope).request.groupKey? = none := by
      unfold RequestPlan.groupKey?
      cases hBody : (d.hide scope).request.body with
      | none => rfl
      | some b => rw [Option.bind_some, (hHidden.unshaped b hBody).1, Option.bind_none]
    rw [hNoGroup]
    exact .level hHidden.leaves hHiddenKeys
  · exact fun _ _ _ _ hFlat => flatten_arranged hHidden hHiddenShapes hHiddenKeys hSchema hFlat
  · exact fun _ he => apart_of_arranged he
  · exact fun _ _ he hStage => apart_of_arranged (addHelpers_arranged he hStage)
  · exact fun _ _ he hStage => bindDropdowns_apart he hStage
  · exact fun _ _ _ _ he hStep => setDefault_apart he hStep

end Draft

end IntegrationCompiler
