import IntegrationCompiler.Proofs.Request.Slots
import IntegrationCompiler.Proofs.Value.Tree

/-!
# Inputs of a group

The inputs for a flattened item may arrive as one object under the key of the group, or each by
itself under a key that joins the two names. A plan cannot tell the two apart, as long as none of
its names could be taken for the group or for one of its joined keys.

Main definitions:

* `OfGroup` — the keys that belong to a group;
* `RequestPlan.inputNames` — the names by which a plan asks for inputs.

Main results:

* `inputAt_group` — an input is the same in either form;
* `RequestPlan.build_group` — and so is the request.
-/

namespace IntegrationCompiler

/-- The keys that belong to a group: its own, and those that join it with another name. -/
def OfGroup (g key : String) : Prop :=
  key = g ∨ (g ++ "__").toList <+: key.toList

instance (g key : String) : Decidable (OfGroup g key) :=
  inferInstanceAs (Decidable (_ ∨ _))

theorem ofGroup_joined (g name : String) : OfGroup g (g ++ "__" ++ name) :=
  Or.inr ⟨name.toList, by rw [String.toList_append (s := g ++ "__")]⟩

theorem joined_ne (g name : String) : g ++ "__" ++ name ≠ g := by
  intro hEq
  have hLength := congrArg String.length hEq
  rw [String.length_append, String.length_append] at hLength
  have hLine : "__".length = 2 := rfl
  omega

/-! ## Two forms of a group -/

/-- The inputs of a group under its own key. -/
def nestedGroup (g : String) (group : List (String × Value)) : Entries :=
  [(.str g, .object group)]

/-- The inputs of a group under joined keys. -/
def joinedGroup (g : String) (group : List (String × Value)) : Entries :=
  group.map fun (name, v) => (.str (g ++ "__" ++ name), v)

section

variable {g : String} (group : List (String × Value))

theorem get?_nestedGroup_of_ne {key : String} (h : ¬ OfGroup g key) :
    Entries.get? (nestedGroup g group) key = none := by
  exact Entries.get?_singleton_of_ne (fun hSame => h (Or.inl hSame)) _

theorem get?_nestedGroup_self : Entries.get? (nestedGroup g group) g = some (.object group) := by
  rw [nestedGroup, Entries.get?_cons, if_pos rfl]

theorem get?_joinedGroup_of_ne {key : String} (h : ∀ name, key ≠ g ++ "__" ++ name) :
    Entries.get? (joinedGroup g group) key = none := by
  refine Entries.get?_eq_none_iff.mpr fun v hMem => ?_
  obtain ⟨⟨name, w⟩, -, hEq⟩ := List.mem_map.mp hMem
  exact h name (Scalar.str.inj (Prod.mk.inj hEq).1).symm

theorem get?_joinedGroup (name : String) :
    Entries.get? (joinedGroup g group) (g ++ "__" ++ name) =
      Entries.get? (group.map fun (k, v) => (.str k, v)) name := by
  induction group with
  | nil => rfl
  | cons e rest ih =>
    obtain ⟨k, v⟩ := e
    have hKey : Scalar.str (g ++ "__" ++ k) = .str (g ++ "__" ++ name) ↔ Scalar.str k = .str name := by
      rw [Scalar.str.injEq, Scalar.str.injEq, String.append_right_inj]
    rw [joinedGroup, List.map_cons, List.map_cons, Entries.get?_cons, Entries.get?_cons, ← ih]
    exact if_congr hKey rfl rfl

/-- An input by itself is the same in either form. -/
theorem get?_append_group {rest : Entries} {name : String} (h : ¬ OfGroup g name) :
    Entries.get? (rest ++ nestedGroup g group) name =
      Entries.get? (rest ++ joinedGroup g group) name := by
  have hOther (k : String) : name ≠ g ++ "__" ++ k := by
    rintro rfl
    exact h (ofGroup_joined g k)
  rw [Entries.get?_append, Entries.get?_append, get?_nestedGroup_of_ne group h,
    get?_joinedGroup_of_ne group hOther]

theorem inputAt_some (hSome : g ≠ "") (inputs : Entries) (name : String) :
    inputAt inputs name (some g) =
      let joined := (Entries.get? inputs (g ++ "__" ++ name)).getD (Entries.getOrNull inputs name)
      match Entries.get? inputs g with
      | some (.map entries) => (Entries.get? entries name).getD joined
      | _ => joined := by
  unfold inputAt
  split
  · next hg => cases hg
  · next hg => exact absurd (Option.some.inj hg) hSome
  · next hg =>
    cases hg
    rfl

/-- An input is found by three keys at most: its name, and in a group the key of the group and the
one that joins the two. -/
theorem inputAt_congr {inputs inputs' : Entries} {name : String} {asked : Option String}
    (hAlone : Entries.get? inputs name = Entries.get? inputs' name)
    (hGroup : ∀ g ∈ asked, Entries.get? inputs g = Entries.get? inputs' g ∧
      Entries.get? inputs (g ++ "__" ++ name) = Entries.get? inputs' (g ++ "__" ++ name)) :
    inputAt inputs name asked = inputAt inputs' name asked := by
  unfold inputAt Entries.getOrNull
  dsimp only
  rw [hAlone]
  split
  · rfl
  · rfl
  · next g _ =>
    obtain ⟨hSame, hJoined⟩ := hGroup g rfl
    rw [hSame, hJoined]

/-- **An input is the same in either form**, whether it is looked for in the group or not. -/
theorem inputAt_group {rest : Entries} (hRest : ∀ key ∈ rest.names, ¬ OfGroup g key)
    {name : String} (hName : ¬ OfGroup g name) {asked : Option String}
    (hAsked : asked = none ∨ asked = some g) :
    inputAt (rest ++ nestedGroup g group) name asked =
      inputAt (rest ++ joinedGroup g group) name asked := by
  have hAlone : Entries.getOrNull (rest ++ nestedGroup g group) name =
      Entries.getOrNull (rest ++ joinedGroup g group) name := by
    rw [Entries.getOrNull, Entries.getOrNull, get?_append_group group hName]
  have hAbsent {key : String} (hKey : OfGroup g key) : Entries.get? rest key = none :=
    Entries.get?_eq_none_iff.mpr fun v hMem =>
      hRest key (List.mem_filterMap.mpr ⟨_, hMem, rfl⟩) hKey
  rcases hAsked with rfl | rfl
  · exact hAlone
  by_cases hEmpty : g = ""
  · subst hEmpty
    exact hAlone
  -- The object answers for the group, the joined key for the name in it.
  have hNested : Entries.get? (rest ++ nestedGroup g group) g = some (.object group) := by
    rw [Entries.get?_append, hAbsent (Or.inl rfl), Option.none_or, get?_nestedGroup_self]
  have hNestedKey : Entries.get? (rest ++ nestedGroup g group) (g ++ "__" ++ name) = none := by
    rw [Entries.get?_append, hAbsent (ofGroup_joined g name), Option.none_or]
    exact Entries.get?_singleton_of_ne (joined_ne g name) _
  have hJoined : Entries.get? (rest ++ joinedGroup g group) g = none := by
    rw [Entries.get?_append, hAbsent (Or.inl rfl), Option.none_or]
    exact get?_joinedGroup_of_ne group fun k => (joined_ne g k).symm
  have hJoinedKey : Entries.get? (rest ++ joinedGroup g group) (g ++ "__" ++ name) =
      Entries.get? (group.map fun (k, v) => (.str k, v)) name := by
    rw [Entries.get?_append, hAbsent (ofGroup_joined g name), Option.none_or, get?_joinedGroup]
  rw [inputAt_some hEmpty, inputAt_some hEmpty, hNested, hNestedKey, hJoined, hJoinedKey, ← hAlone]
  rfl

end

/-! ## Requests -/

/-- The names by which a body asks for inputs. -/
def BodyPlan.inputNames (b : BodyPlan) : List String :=
  b.propertyNames ++ b.flatten.toList.flatMap (fun flatten => flatten.itemProperties.map (·.name)) ++
    b.helperMerges.flatMap fun m => m.target :: m.helperKeys

/-- The names by which a plan asks for inputs. -/
def RequestPlan.inputNames (plan : RequestPlan) : List String :=
  plan.parameterNames ++ plan.body.toList.flatMap BodyPlan.inputNames

section

variable {g : String} {group : List (String × Value)} {rest : Entries}
  (hRest : ∀ key ∈ rest.names, ¬ OfGroup g key)

include hRest

theorem atPath_group {name : String} (hName : ¬ OfGroup g name) {asked : Option String}
    (hAsked : asked = none ∨ asked = some g) :
    Entries.atPath (rest ++ nestedGroup g group) (inputPath asked name) =
      Entries.atPath (rest ++ joinedGroup g group) (inputPath asked name) := by
  rw [Entries.atPath_inputPath, Entries.atPath_inputPath]
  exact inputAt_group group hRest hName hAsked

namespace BodyPlan

variable {b : BodyPlan} {flatten : FlattenPlan} (hFlatten : b.flatten = some flatten)
  (hGroup : flatten.groupKey = some g) (hNames : ∀ name ∈ b.inputNames, ¬ OfGroup g name)

include hNames

/-- The helpers of a merge are the same in either form. -/
theorem agreeAt_slots_merge {m : MergePlan} (hm : m ∈ b.helperMerges) {asked : Option String}
    (hAsked : asked = none ∨ asked = some g) :
    AgreeAt (rest ++ nestedGroup g group) (rest ++ joinedGroup g group) (m.slots asked) := by
  refine List.forall_mem_map.mpr fun key hKey => atPath_group hRest (hNames key ?_) ?_
  · exact List.mem_append_right _ (List.mem_flatMap.mpr ⟨m, hm, List.mem_cons_of_mem _ hKey⟩)
  · split
    · exact hAsked
    · exact Or.inl rfl

include hFlatten hGroup

/-- What a body asks for is the same in either form. -/
theorem agreeAt_slots_group :
    AgreeAt (rest ++ nestedGroup g group) (rest ++ joinedGroup g group) b.slots := by
  intro path hPath
  -- a property of the body, one of its flattened item, or a helper of either
  rcases mem_slots.mp hPath with ⟨name, hName, rfl⟩ | ⟨flatten', hFlatten', p, hp, rfl⟩ | hHelper
  · exact atPath_group hRest
      (hNames name (List.mem_append_left _ (List.mem_append_left _ hName))) (Or.inl rfl)
  · obtain rfl : flatten = flatten' := Option.some.inj (hFlatten.symm.trans hFlatten')
    refine atPath_group hRest (hNames p.name ?_) (Or.inr hGroup)
    refine List.mem_append_left _ (List.mem_append_right _ ?_)
    rw [hFlatten]
    exact List.mem_flatMap.mpr ⟨flatten, List.mem_singleton_self _, List.mem_map_of_mem hp⟩
  · obtain ⟨m, hm, hSlot⟩ := List.mem_flatMap.mp hHelper
    rw [hFlatten] at hSlot
    split at hSlot
    next => exact agreeAt_slots_merge hRest hNames hm (Or.inl rfl) path hSlot
    next hEq =>
      cases hEq
      exact agreeAt_slots_merge hRest hNames hm (Or.inr hGroup) path hSlot
    next hEq => cases hEq

/-- So are the lists that helpers are merged into. -/
theorem agreeAt_mergedInto_group :
    AgreeAt (rest ++ nestedGroup g group) (rest ++ joinedGroup g group) b.mergedInto := by
  refine List.forall_mem_map.mpr fun m hm => atPath_group hRest (hNames m.target ?_) ?_
  · refine List.mem_append_right _ (List.mem_flatMap.mpr ⟨m, ?_, List.mem_cons_self⟩)
    exact (List.mem_filter.mp hm).1
  · rw [hFlatten, Option.bind_some, hGroup]
    split
    · exact Or.inr rfl
    · exact Or.inl rfl

end BodyPlan

end

namespace RequestPlan

/-- **The inputs of a group make the same request in either form**, as long as no name of the plan
belongs to the group. Nothing else is asked of the group: it may lack names, and hold blanks. -/
theorem build_group {plan : RequestPlan} {b : BodyPlan} {flatten : FlattenPlan} {g : String}
    (hBody : plan.body = some b) (hFlatten : b.flatten = some flatten)
    (hGroup : flatten.groupKey = some g) (hNames : ∀ name ∈ plan.inputNames, ¬ OfGroup g name)
    {rest : Entries} (hRest : ∀ key ∈ rest.names, ¬ OfGroup g key)
    (group : List (String × Value)) (auth : Entries) :
    plan.build (rest ++ nestedGroup g group) auth =
      plan.build (rest ++ joinedGroup g group) auth := by
  have hBodyNames : ∀ name ∈ b.inputNames, ¬ OfGroup g name := by
    intro name hName
    refine hNames name (List.mem_append_right _ ?_)
    rw [hBody]
    exact List.mem_flatMap.mpr ⟨b, List.mem_singleton_self _, hName⟩
  -- a request depends on the inputs only where the plan looks at them
  refine plan.build_congr auth (fun path hPath => ?_) fun path hPath => ?_
  · rcases mem_slots.mp hPath with ⟨name, hName, rfl⟩ | ⟨b', hb', hSlot⟩
    · exact atPath_group hRest (hNames name (List.mem_append_left _ hName)) (Or.inl rfl)
    · obtain rfl : b = b' := Option.some.inj (hBody.symm.trans hb')
      exact b.agreeAt_slots_group hRest hFlatten hGroup hBodyNames path hSlot
  · rw [hBody] at hPath
    obtain ⟨b', hb', hTarget⟩ := List.mem_flatMap.mp hPath
    obtain rfl : b = b' := (List.mem_singleton.mp hb').symm
    exact b.agreeAt_mergedInto_group hRest hFlatten hGroup hBodyNames path hTarget

/-- A transaction is put back into a list; its tags gain those chosen one by one. -/
def transactionPlan : RequestPlan where
  method := .post
  urlTemplate := "https://api.example.com/budgets/{budget_id}/transactions"
  pathParams := ["budget_id"]
  body := some {
    flatten := some {
      arrayField := "transactions"
      groupKey := some "transaction"
      itemProperties := [{ name := "amount", kind := .number }, { name := "memo" },
        { name := "date", kind := .date }] }
    helperMerges := [{
      target := "tag_ids", helperKeys := ["tag_1", "tag_2"], targetIsArray := true, inItem := true,
      nested := true }] }

/-- A transaction without a memo and with a blank date, which the date beside it does not replace. -/
theorem build_group_transaction :
    (∀ name ∈ transactionPlan.inputNames, ¬ OfGroup "transaction" name) ∧
    transactionPlan.build ([(.str "budget_id", .int 7), (.str "date", .str "2025-01-31")] ++
        nestedGroup "transaction" [("amount", .int 5), ("date", .str ""), ("tag_2", .int 3)]) [] =
      transactionPlan.build ([(.str "budget_id", .int 7), (.str "date", .str "2025-01-31")] ++
        joinedGroup "transaction" [("amount", .int 5), ("date", .str ""), ("tag_2", .int 3)]) [] ∧
    (transactionPlan.build ([(.str "budget_id", .int 7), (.str "date", .str "2025-01-31")] ++
        nestedGroup "transaction" [("amount", .int 5), ("date", .str ""), ("tag_2", .int 3)])
      []).jsonBody = .object [("transactions", .list [.object [
        ("amount", .int 5), ("tag_ids", .list [.int 3])]])] := by
  have hNames : ∀ name ∈ transactionPlan.inputNames, ¬ OfGroup "transaction" name := by decide
  exact ⟨hNames, build_group rfl rfl rfl hNames (by decide) _ [], by rfl⟩

end RequestPlan

end IntegrationCompiler
