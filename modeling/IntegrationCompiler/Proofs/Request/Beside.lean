import IntegrationCompiler.Proofs.Request.Groups

/-!
# Inputs beside a group

The inputs for a flattened item stand in a group; one that the group lacks is looked for beside it.
So what stands beside the group does not reach the item as long as the group has what it shares a
name with, and it does not reach the body if the body does not look there.

* `BodyPlan.asked` — the places that a body looks at;
* `GivenIn` — an input that a group has;
* `BodyPlan.ShieldedFrom` — a name whose input beside the group does not count;
* `BodyPlan.build_beside` — bodies of inputs that differ under such names only.
-/

namespace IntegrationCompiler

/-! ## Inputs that a group has -/

/-- An input that a group has, in its object or under a joined key. It may be null. -/
def GivenIn (g name : String) (inputs : Entries) : Prop :=
  (∃ group, Entries.get? inputs g = some (.map group) ∧ Entries.has group name = true) ∨
    Entries.has inputs (g ++ "__" ++ name) = true

/-- An input that a group has is not looked for beside it. -/
theorem inputAt_of_givenIn {g name : String} {inputs inputs' : Entries} (hSome : g ≠ "")
    (hGroup : Entries.get? inputs g = Entries.get? inputs' g)
    (hJoined : Entries.get? inputs (g ++ "__" ++ name) = Entries.get? inputs' (g ++ "__" ++ name))
    (hGiven : GivenIn g name inputs) :
    inputAt inputs name (some g) = inputAt inputs' name (some g) := by
  rw [inputAt_some hSome, inputAt_some hSome, ← hGroup, ← hJoined]
  dsimp only
  rcases hGiven with ⟨group, hObject, hHas⟩ | hHas
  · obtain ⟨v, hv⟩ := Option.isSome_iff_exists.mp hHas
    rw [hObject]
    dsimp only
    rw [hv]
    rfl
  · obtain ⟨v, hv⟩ := Option.isSome_iff_exists.mp hHas
    rw [hv]
    rfl

namespace BodyPlan

/-! ## Where a body looks -/

/-- The places that a body looks at: those of its inputs, and those of lists that it may have to
look for. -/
def asked (b : BodyPlan) : List (List String) :=
  b.slots ++ b.listSlots

/-- A place is that of a name by itself, or in the group of the item. -/
theorem path_of_mem_asked {b : BodyPlan} {path : List String} (h : path ∈ b.asked) :
    ∃ name group, path = inputPath group name ∧
      (group = none ∨ group = b.flatten.bind (·.groupKey)) := by
  rcases List.mem_append.mp h with hSlot | hList
  · rcases mem_slots.mp hSlot with ⟨name, -, rfl⟩ | ⟨flatten, hFlatten, p, -, rfl⟩ | hHelper
    · exact ⟨name, none, rfl, Or.inl rfl⟩
    · refine ⟨p.name, flatten.groupKey, rfl, Or.inr ?_⟩
      rw [hFlatten, Option.bind_some]
    · obtain ⟨m, -, hSlot⟩ := List.mem_flatMap.mp hHelper
      -- the helpers of a merge are looked for in its group, or beside it if they are not nested
      have hMerge {group : Option String} (hPlace : path ∈ m.slots group) :
          ∃ name, path = inputPath none name ∨ path = inputPath group name := by
        obtain ⟨key, -, rfl⟩ := List.mem_map.mp hPlace
        cases m.nested with
        | true => exact ⟨key, Or.inr rfl⟩
        | false => exact ⟨key, Or.inl rfl⟩
      split at hSlot
      · obtain ⟨name, hPath | hPath⟩ := hMerge hSlot
        all_goals exact ⟨name, none, hPath, Or.inl rfl⟩
      · next flatten _ hFlatten =>
        obtain ⟨name, hPath | hPath⟩ := hMerge hSlot
        · exact ⟨name, none, hPath, Or.inl rfl⟩
        · refine ⟨name, flatten.groupKey, hPath, Or.inr ?_⟩
          rw [hFlatten, Option.bind_some]
      · cases hSlot
  · obtain ⟨m, -, rfl⟩ := List.mem_map.mp hList
    refine ⟨m.target, _, rfl, ?_⟩
    split
    · exact Or.inr rfl
    · exact Or.inl rfl

/-! ## What does not reach the body -/

/-- What stands beside a group under this name does not count: the name could not be taken for the
group, the body does not look for it by itself, and if it looks for it in the group, the group has
it. -/
structure ShieldedFrom (b : BodyPlan) (g : String) (inputs : Entries) (name : String) : Prop where
  ungrouped : ¬ OfGroup g name
  beside : [name] ∉ b.asked
  given : [g, name] ∈ b.asked → GivenIn g name inputs

/-- **Inputs beside a group do not reach a body** that does not look for them there and whose group
has what shares a name with them. -/
theorem build_beside {b : BodyPlan} {flatten : FlattenPlan} {g : String} {names : List String}
    {inputs inputs' : Entries} (hFlatten : b.flatten = some flatten)
    (hGroup : flatten.groupKey = some g) (hSome : g ≠ "")
    (hNames : ∀ name ∈ names, b.ShieldedFrom g inputs name)
    (hSame : ∀ key, key ∉ names → Entries.get? inputs key = Entries.get? inputs' key) :
    b.build inputs = b.build inputs' := by
  have hOfGroup {key : String} (hOf : OfGroup g key) :
      Entries.get? inputs key = Entries.get? inputs' key :=
    hSame key fun hMem => (hNames key hMem).ungrouped hOf
  have hAgree : AgreeAt inputs inputs' b.asked := by
    intro path hPath
    obtain ⟨name, group, rfl, rfl | rfl⟩ := path_of_mem_asked hPath
    · -- the body looks for the name by itself
      have hKept : name ∉ names := fun hMem => (hNames name hMem).beside hPath
      rw [Entries.atPath_inputPath, Entries.atPath_inputPath]
      exact inputAt_congr (hSame name hKept) nofun
    · rw [hFlatten, Option.bind_some, hGroup] at hPath ⊢
      rw [Entries.atPath_inputPath, Entries.atPath_inputPath]
      by_cases hMem : name ∈ names
      · -- the name stands beside the group as well, but the group answers first
        rw [inputPath_some hSome] at hPath
        exact inputAt_of_givenIn hSome (hOfGroup (Or.inl rfl)) (hOfGroup (ofGroup_joined g name))
          ((hNames name hMem).given hPath)
      · refine inputAt_congr (hSame name hMem) ?_
        rintro _ ⟨⟩
        exact ⟨hOfGroup (Or.inl rfl), hOfGroup (ofGroup_joined g name)⟩
  exact b.build_congr_of_lists (fun path hPath => hAgree path (List.mem_append_left _ hPath))
    fun path hPath => hAgree path (List.mem_append_right _ hPath)

end BodyPlan

end IntegrationCompiler
