import IntegrationCompiler.Proofs.Request.Placed
import Mathlib.Data.List.Basic

/-!
# The inputs that a request plan asks for

A plan asks for inputs by name: for parameters and for properties of the body beside each other, for
properties of a flattened item and for their helpers in the group of the item, if it has one.

* `inputPath`, `Entries.atPath` — where an input stands, and what is found there;
* `RequestPlan.slots` — where a plan looks for its inputs; `BodyPlan.listSlots` — where it looks for
  lists that helpers are merged into;
* `BodyPlan.build_congr_of_lists` — a body depends on nothing else;
* `RequestPlan.build_congr` — a request depends on nothing else, apart from what is there already of
  the lists that helpers are merged into.
-/

namespace IntegrationCompiler

/-! ## Places of inputs -/

/-- Where an input stands: in the group, if there is one, or else by itself. -/
def inputPath (group : Option String) (name : String) : List String :=
  match group with
  | none => [name]
  | some "" => [name]
  | some g => [g, name]

@[simp] theorem inputPath_none (name : String) : inputPath none name = [name] := rfl

theorem inputPath_some {g : String} (h : g ≠ "") (name : String) :
    inputPath (some g) name = [g, name] := by
  unfold inputPath
  split
  · next hg => cases hg
  · next hg => exact absurd (Option.some.inj hg) h
  · next hg => rw [Option.some.inj hg]

/-- The input found at a place; one that is not in its group may be given in another form. -/
def Entries.atPath (inputs : Entries) : List String → Value
  | [name] => inputAt inputs name none
  | [g, name] => inputAt inputs name (some g)
  | _ => .null

theorem Entries.atPath_inputPath (inputs : Entries) (group : Option String) (name : String) :
    Entries.atPath inputs (inputPath group name) = inputAt inputs name group := by
  unfold inputPath
  split <;> rfl

/-! ## Slots -/

/-- The places of the helpers of a merge. -/
def MergePlan.slots (m : MergePlan) (group : Option String) : List (List String) :=
  m.helperKeys.map (inputPath (if m.nested then group else none))

namespace BodyPlan

/-- The places of the helpers: those for the item count only where there is an item. -/
def helperSlots (b : BodyPlan) : List (List String) :=
  b.helperMerges.flatMap fun m =>
    match m.inItem, b.flatten with
    | false, _ => m.slots none
    | true, some flatten => m.slots flatten.groupKey
    | true, none => []

/-- The places where a body looks for its inputs. -/
def slots (b : BodyPlan) : List (List String) :=
  b.propertyNames.map (inputPath none) ++
    b.flatten.toList.flatMap (fun flatten =>
      flatten.itemProperties.map fun p => inputPath flatten.groupKey p.name) ++
    b.helperSlots

end BodyPlan

namespace RequestPlan

/-- The names of the parameters that a plan asks for. -/
def parameterNames (plan : RequestPlan) : List String :=
  plan.pathParams ++ plan.query.params.map (·.name)

/-- The names of the properties that a plan asks for. -/
def bodyNames (plan : RequestPlan) : List String :=
  plan.body.toList.flatMap BodyPlan.propertyNames

/-- The places where a plan looks for its inputs. -/
def slots (plan : RequestPlan) : List (List String) :=
  plan.parameterNames.map (inputPath none) ++ plan.body.toList.flatMap BodyPlan.slots

end RequestPlan

/-- The places of the lists that helpers are merged into. -/
def BodyPlan.mergedInto (b : BodyPlan) : List (List String) :=
  (b.helperMerges.filter (·.targetIsArray)).map fun m =>
    inputPath (if m.inItem then b.flatten.bind (·.groupKey) else none) m.target

/-- Whether a merge may have to look for its list among the inputs. The list of a flattened body is
there already. -/
def BodyPlan.looksForList (b : BodyPlan) (m : MergePlan) : Bool :=
  m.targetIsArray && (m.inItem || !b.flatten.any (·.arrayField == m.target))

/-- The places of the lists that are looked for among the inputs. -/
def BodyPlan.listSlots (b : BodyPlan) : List (List String) :=
  (b.helperMerges.filter b.looksForList).map fun m =>
    inputPath (if m.inItem then b.flatten.bind (·.groupKey) else none) m.target

theorem BodyPlan.listSlots_subset {b : BodyPlan} {path : List String} (h : path ∈ b.listSlots) :
    path ∈ b.mergedInto := by
  obtain ⟨m, hm, hPath⟩ := List.mem_map.mp h
  obtain ⟨hMem, hLooks⟩ := List.mem_filter.mp hm
  have hArray : m.targetIsArray = true := (Bool.and_eq_true_iff.mp hLooks).1
  exact List.mem_map.mpr ⟨m, List.mem_filter.mpr ⟨hMem, hArray⟩, hPath⟩

theorem BodyPlan.mem_slots {b : BodyPlan} {path : List String} : path ∈ b.slots ↔
    (∃ name ∈ b.propertyNames, path = [name]) ∨
      (∃ flatten ∈ b.flatten, ∃ p ∈ flatten.itemProperties,
        path = inputPath flatten.groupKey p.name) ∨ path ∈ b.helperSlots := by
  simp only [slots, List.mem_append, List.mem_map, List.mem_flatMap, Option.mem_toList,
    Option.mem_def, inputPath_none, eq_comm (a := path), or_assoc]

theorem RequestPlan.mem_slots {plan : RequestPlan} {path : List String} : path ∈ plan.slots ↔
    (∃ name ∈ plan.parameterNames, path = [name]) ∨ ∃ b ∈ plan.body, path ∈ b.slots := by
  simp only [slots, List.mem_append, List.mem_map, List.mem_flatMap, Option.mem_toList,
    Option.mem_def, inputPath_none, eq_comm (a := path)]

/-! ## What a request depends on -/

section

variable {inputs inputs' : Entries}

/-- Two inputs that cannot be told apart at some places. -/
def AgreeAt (inputs inputs' : Entries) (paths : List (List String)) : Prop :=
  ∀ path ∈ paths, inputs.atPath path = inputs'.atPath path

theorem inputAt_eq_of_agreeAt {group : Option String} {name : String} {paths : List (List String)}
    (h : AgreeAt inputs inputs' paths) (hMem : inputPath group name ∈ paths) :
    inputAt inputs name group = inputAt inputs' name group := by
  rw [← Entries.atPath_inputPath, ← Entries.atPath_inputPath]
  exact h _ hMem

/-- A merge looks for its list only where there is none yet. -/
theorem MergePlan.apply_congr (m : MergePlan) (target : Entries) {group : Option String}
    (hSlots : AgreeAt inputs inputs' (m.slots group))
    (hTarget : m.targetIsArray = true → Entries.getOrNull target m.target = .null →
      inputAt inputs m.target (if m.inItem then group else none) =
        inputAt inputs' m.target (if m.inItem then group else none)) :
    m.apply target inputs group = m.apply target inputs' group := by
  have hHelpers :
      m.helperKeys.map (fun key => inputAt inputs key (if m.nested then group else none)) =
        m.helperKeys.map fun key => inputAt inputs' key (if m.nested then group else none) :=
    List.map_congr_left fun key hKey =>
      inputAt_eq_of_agreeAt hSlots (List.mem_map.mpr ⟨key, hKey, rfl⟩)
  unfold apply
  dsimp only
  rw [hHelpers]
  split
  · next hArray =>
    split
    · next hNone => rw [hTarget hArray hNone]
    · rfl
  · rfl

namespace BodyPlan

/-- What the helpers of a merge depend on, given the group in which they are looked for. -/
theorem apply_congr_of_mem (b : BodyPlan) (hSlots : AgreeAt inputs inputs' b.slots)
    (hLists : AgreeAt inputs inputs' b.listSlots) {m : MergePlan} (hMem : m ∈ b.helperMerges)
    {group : Option String} (hHelpers : ∀ path ∈ m.slots group, path ∈ b.helperSlots)
    (hGroup : m.inItem = true → b.flatten.bind (·.groupKey) = group) {target : Entries}
    (hThere : m.inItem = false → ∀ flatten ∈ b.flatten,
      Entries.getOrNull target flatten.arrayField ≠ .null) :
    m.apply target inputs group = m.apply target inputs' group := by
  refine m.apply_congr target (fun path hPath => ?_) fun hArray hNone => ?_
  · exact hSlots path (List.mem_append_right _ (hHelpers path hPath))
  · have hLooks : b.looksForList m = true := by
      rw [looksForList, hArray, Bool.true_and, Bool.or_eq_true_iff]
      refine (Bool.eq_false_or_eq_true m.inItem).imp_right fun hBeside => ?_
      rw [Bool.not_eq_true', Option.any_eq_false]
      intro flatten hFlatten
      refine beq_eq_false_iff_ne.mpr fun hSame => ?_
      rw [← hSame] at hNone
      exact hThere hBeside flatten hFlatten hNone
    -- the list itself is looked for in the group only if the merge is in the item
    refine inputAt_eq_of_agreeAt hLists (List.mem_map.mpr ⟨m, ?_, ?_⟩)
    · exact List.mem_filter.mpr ⟨hMem, hLooks⟩
    · cases hItem : m.inItem with
      | true => rw [if_pos rfl, if_pos rfl, hGroup hItem]
      | false => rfl

theorem item_congr (b : BodyPlan) {flatten : FlattenPlan} (hFlatten : b.flatten = some flatten)
    (hSlots : AgreeAt inputs inputs' b.slots) (hLists : AgreeAt inputs inputs' b.listSlots) :
    b.item flatten inputs = b.item flatten inputs' := by
  have hItem : ∀ p ∈ flatten.itemProperties,
      inputAt inputs p.name flatten.groupKey = inputAt inputs' p.name flatten.groupKey := by
    intro p hp
    refine inputAt_eq_of_agreeAt hSlots (List.mem_append_left _ (List.mem_append_right _ ?_))
    rw [hFlatten]
    exact List.mem_flatMap.mpr ⟨flatten, List.mem_singleton_self _, List.mem_map.mpr ⟨p, hp, rfl⟩⟩
  have hMerges : ∀ acc : Entries, ∀ m ∈ b.helperMerges.filter (·.inItem),
      m.apply acc inputs flatten.groupKey = m.apply acc inputs' flatten.groupKey := by
    intro acc m hm
    obtain ⟨hMem, hInItem⟩ := List.mem_filter.mp hm
    refine b.apply_congr_of_mem hSlots hLists hMem (fun path hPath => ?_)
      (fun _ => by rw [hFlatten, Option.bind_some])
      (fun hBeside => nomatch hInItem.symm.trans hBeside)
    refine List.mem_flatMap.mpr ⟨m, hMem, ?_⟩
    rw [hInItem, hFlatten]
    exact hPath
  unfold item
  dsimp only
  rw [List.foldl_ext _ _ _ hMerges, List.foldl_ext _ _ [] fun acc p hp => by rw [hItem p hp]]

/-- Properties of the body without what helpers add. -/
theorem plain_congr (b : BodyPlan) (hSlots : AgreeAt inputs inputs' b.slots) :
    b.properties.foldl (b.addProperty inputs) [] = b.properties.foldl (b.addProperty inputs') [] := by
  refine List.foldl_ext _ _ [] fun acc p hp => ?_
  have hInput : Entries.getOrNull inputs p.name = Entries.getOrNull inputs' p.name :=
    hSlots [p.name] (List.mem_append_left _ (List.mem_append_left _
      (List.mem_map.mpr ⟨p.name, List.mem_map.mpr ⟨p, hp, rfl⟩, rfl⟩)))
  unfold addProperty
  rw [hInput]

/-- A body depends on the inputs at its slots, and on the lists that it looks for. -/
theorem build_congr_of_lists (b : BodyPlan) (hSlots : AgreeAt inputs inputs' b.slots)
    (hLists : AgreeAt inputs inputs' b.listSlots) : b.build inputs = b.build inputs' := by
  -- the list of a flattened body is there before the helpers beside the item, and stays there
  have hStep : ∀ m ∈ b.helperMerges.filter (!·.inItem), ∀ acc acc' : Entries,
      (acc = acc' ∧ ∀ flatten ∈ b.flatten, Entries.getOrNull acc flatten.arrayField ≠ .null) →
      m.apply acc inputs none = m.apply acc' inputs' none ∧
        ∀ flatten ∈ b.flatten,
          Entries.getOrNull (m.apply acc inputs none) flatten.arrayField ≠ .null := by
    rintro m hm acc _ ⟨rfl, hThere⟩
    obtain ⟨hMem, hBeside⟩ := List.mem_filter.mp hm
    have hInItem : m.inItem = false := by simpa using hBeside
    refine ⟨?_, fun flatten hFlatten => m.apply_ne_null (hThere flatten hFlatten) inputs none⟩
    refine b.apply_congr_of_mem hSlots hLists hMem (fun path hPath => ?_)
      (fun hItem => by rw [hInItem] at hItem; cases hItem) (fun _ => hThere)
    refine List.mem_flatMap.mpr ⟨m, hMem, ?_⟩
    rw [hInItem]
    exact hPath
  unfold build
  dsimp only
  refine (List.foldl_rel (r := fun acc acc' : Entries =>
    acc = acc' ∧ ∀ flatten ∈ b.flatten, Entries.getOrNull acc flatten.arrayField ≠ .null)
    ?_ hStep).1
  rw [b.plain_congr hSlots]
  cases hFlatten : b.flatten with
  | none =>
    refine ⟨rfl, fun flatten hNone => ?_⟩
    cases hNone
  | some flatten =>
    dsimp only
    rw [b.item_congr hFlatten hSlots hLists]
    refine ⟨rfl, ?_⟩
    rintro _ ⟨⟩ hNull
    rw [Entries.getOrNull, Entries.get?_set, if_pos rfl] at hNull
    cases hNull

/-- A body depends on the inputs at its slots, and on the lists that helpers are merged into. -/
theorem build_congr (b : BodyPlan) (hSlots : AgreeAt inputs inputs' b.slots)
    (hTargets : AgreeAt inputs inputs' b.mergedInto) : b.build inputs = b.build inputs' :=
  b.build_congr_of_lists hSlots fun path hPath => hTargets path (listSlots_subset hPath)

end BodyPlan

namespace RequestPlan

/-- **A request depends on the inputs at its slots only**, apart from what is there already of the
lists that helpers are merged into. -/
theorem build_congr (plan : RequestPlan) (auth : Entries)
    (hSlots : AgreeAt inputs inputs' plan.slots)
    (hTargets : AgreeAt inputs inputs' (plan.body.toList.flatMap BodyPlan.mergedInto)) :
    plan.build inputs auth = plan.build inputs' auth := by
  have hAlone : ∀ name ∈ plan.parameterNames,
      Entries.getOrNull inputs name = Entries.getOrNull inputs' name :=
    fun name hName => hSlots [name] (List.mem_append_left _ (List.mem_map.mpr ⟨name, hName, rfl⟩))
  have hPath : ∀ url : List Char, ∀ name ∈ plan.pathParams,
      fillPath inputs url name = fillPath inputs' url name := by
    intro url name hName
    unfold fillPath
    rw [hAlone name (List.mem_append_left _ hName)]
  have hQuery : plan.queryOf inputs = plan.queryOf inputs' := by
    unfold queryOf
    refine List.foldl_ext _ _ _ fun acc p hp => ?_
    rw [hAlone p.name (List.mem_append_right _ (List.mem_map.mpr ⟨p, hp, rfl⟩))]
  have hBody : ∀ body, plan.body = some body → body.build inputs = body.build inputs' := by
    intro body hSome
    have hMem : body ∈ plan.body.toList := Option.mem_toList.mpr hSome
    refine body.build_congr (fun path hPath => ?_) fun path hPath => ?_
    · exact hSlots path (List.mem_append_right _ (List.mem_flatMap.mpr ⟨body, hMem, hPath⟩))
    · exact hTargets path (List.mem_flatMap.mpr ⟨body, hMem, hPath⟩)
  unfold build
  rw [List.foldl_ext _ _ _ hPath, hQuery]
  cases h : plan.body with
  | none => rfl
  | some body =>
    dsimp only
    rw [hBody body h]

end RequestPlan

end

end IntegrationCompiler
