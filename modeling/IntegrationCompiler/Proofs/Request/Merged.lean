import IntegrationCompiler.Proofs.Request.Placed

/-!
# What merges leave at their targets

Helpers are merged into a property of the body, or of the flattened item. A list takes the union of
what is there and of the helper values, if that holds anything; another property takes the first
helper value that is provided. Where a merge has nothing to give, the property keeps what its own
input has put there.

Main definitions:

* `MergePlan.union` — the numbers that a list would get; `MergePlan.given?` — what a merge has to
  give;
* `BodyPlan.container?` — where in a body a merge writes to;
* `BodyPlan.MergesOnce` — a merge that is the only one for its target.

Main results:

* `MergePlan.get?_apply_target` — what a merge leaves at its target;
* `BodyPlan.merged_target` — what stands there in the body that is sent;
* `BodyPlan.emptied_union_kept` — where the union is empty, the list need not be left out.
-/

namespace IntegrationCompiler

/-! ## One merge -/

namespace MergePlan

variable (m : MergePlan) (container inputs : Entries) (group : Option String)

/-- The values of the helpers. -/
def helperValues : List Value :=
  m.helperKeys.map fun key => inputAt inputs key (if m.nested then group else none)

/-- What a list has before helpers are merged into it: what its own input has put there, or else the
input as it is. -/
def existing : Value :=
  match Entries.getOrNull container m.target with
  | .null => inputAt inputs m.target (if m.inItem then group else none)
  | v => v

/-- The numbers that a list would get. -/
def union : List Number :=
  mergeHelperValues (asListInput (m.existing container inputs group)) (m.helperValues inputs group)

/-- The first value that is provided, a number where it spells one. -/
def firstValue? : Option Value :=
  ((m.helperValues inputs group).find? fun v => !isUnprovided v).map fun v =>
    ((toNumber? v).map Value.ofNumber).getD v

/-- What a merge has to give to its target: nothing if the union is empty, or if no helper is
provided. -/
def given? : Option Value :=
  if m.targetIsArray then
    if (m.union container inputs group).isEmpty then none
    else some (.list ((m.union container inputs group).map .ofNumber))
  else m.firstValue? inputs group

variable {m container inputs group}

/-- A merge stores what it has to give. -/
theorem apply_eq : m.apply container inputs group =
    match m.given? container inputs group with
    | some v => container.set m.target v
    | none => container := by
  unfold given?
  cases hArray : m.targetIsArray with
  | true =>
    have hApply : m.apply container inputs group =
        if (m.union container inputs group).isEmpty then container
        else container.set m.target (.list ((m.union container inputs group).map .ofNumber)) := by
      unfold apply
      rw [hArray]
      rfl
    rw [hApply, if_pos rfl]
    cases (m.union container inputs group).isEmpty <;> rfl
  | false =>
    have hApply : m.apply container inputs group =
        match (m.helperValues inputs group).find? fun v => !isUnprovided v with
        | some v => container.set m.target (((toNumber? v).map Value.ofNumber).getD v)
        | none => container := by
      unfold apply
      rw [hArray]
      rfl
    rw [hApply, if_neg Bool.false_ne_true, firstValue?]
    cases (m.helperValues inputs group).find? fun v => !isUnprovided v <;> rfl

/-- **After a merge its target has what the merge has to give**, or else what was there. -/
theorem get?_apply_target : Entries.get? (m.apply container inputs group) m.target =
    (m.given? container inputs group).or (Entries.get? container m.target) := by
  rw [apply_eq]
  cases m.given? container inputs group with
  | none => rfl
  | some v => exact (Entries.get?_set container m.target m.target v).trans (if_pos rfl)

/-- What a merge has to give depends on nothing in the container but its target. -/
theorem given?_congr {container' : Entries}
    (h : Entries.get? container m.target = Entries.get? container' m.target) :
    m.given? container inputs group = m.given? container' inputs group := by
  have hExisting : m.existing container inputs group = m.existing container' inputs group := by
    rw [existing, existing, Entries.getOrNull, Entries.getOrNull, h]
  rw [given?, given?, union, union, hExisting]

/-- Of several merges only the one for a target counts for it. -/
theorem get?_foldl_apply {before after : List MergePlan}
    (hOthers : ∀ m' ∈ before ++ after, m'.target ≠ m.target) (container : Entries) :
    Entries.get? ((before ++ m :: after).foldl (fun acc m' => m'.apply acc inputs group) container)
        m.target =
      (m.given? container inputs group).or (Entries.get? container m.target) := by
  rw [List.forall_mem_append] at hOthers
  -- what is at the target is also all that the merge reads of the container
  have hFirst : Entries.get? (before.foldl (fun acc m' => m'.apply acc inputs group) container)
      m.target = Entries.get? container m.target :=
    Entries.get?_foldl_of_keeps
      (fun m' hm' acc => get?_apply_of_ne (hOthers.1 m' hm') acc inputs group) container
  rw [List.foldl_append, List.foldl_cons, Entries.get?_foldl_of_keeps fun m' hm' acc =>
    get?_apply_of_ne (hOthers.2 m' hm') acc inputs group]
  rw [get?_apply_target, given?_congr hFirst, hFirst]

end MergePlan

/-! ## Merges in a body -/

namespace BodyPlan

/-- The plan without its merges: what the properties of the body make of their inputs. -/
def unmerged (b : BodyPlan) : BodyPlan :=
  { b with helperMerges := [] }

/-- Where a merge writes to in a body: the item of the flattened list, or the body itself. -/
def container? (b : BodyPlan) (inItem : Bool) (body : Entries) : Option Entries :=
  if inItem then
    match b.flatten.bind fun flatten => Entries.get? body flatten.arrayField with
    | some (.list [.map item]) => some item
    | _ => none
  else some body

/-- The group in which a merge looks for its inputs; only the item has one. -/
def groupOf (b : BodyPlan) (m : MergePlan) : Option String :=
  if m.inItem then b.flatten.bind (·.groupKey) else none

/-- A merge is the only one for its target. If it is for the item, there is one, which no other merge
replaces; if it is for the body, it does not replace the item itself. -/
structure MergesOnce (b : BodyPlan) (m : MergePlan) : Prop where
  only : ∃ before after, b.helperMerges = before ++ m :: after ∧
    ∀ m' ∈ before ++ after, m'.inItem = m.inItem → m'.target ≠ m.target
  item : m.inItem = true → ∃ flatten ∈ b.flatten,
    ∀ m' ∈ b.helperMerges, m'.inItem = false → m'.target ≠ flatten.arrayField
  beside : m.inItem = false → ∀ flatten ∈ b.flatten, m.target ≠ flatten.arrayField

variable {b : BodyPlan} {m : MergePlan} {flatten : FlattenPlan} {inputs : Entries}

/-- The merges for the place of a merge, with that one in between. -/
theorem MergesOnce.split (h : b.MergesOnce m) : ∃ before after,
    b.helperMerges.filter (fun m' => m'.inItem == m.inItem) = before ++ m :: after ∧
    ∀ m' ∈ before ++ after, m'.target ≠ m.target := by
  obtain ⟨before, after, hSplit, hOthers⟩ := h.only
  refine ⟨before.filter fun m' => m'.inItem == m.inItem,
    after.filter fun m' => m'.inItem == m.inItem, ?_, ?_⟩
  · have hHere : (m.inItem == m.inItem) = true := beq_self_eq_true m.inItem
    rw [hSplit, List.filter_append, List.filter_cons, if_pos hHere]
  · rw [← List.filter_append]
    intro m' hm'
    obtain ⟨hMem, hSame⟩ := List.mem_filter.mp hm'
    exact hOthers m' hMem (eq_of_beq hSame)

/-- A merge for the item leaves there what it has to give. -/
theorem get?_item_target (hInItem : m.inItem = true) (h : b.MergesOnce m) :
    Entries.get? (b.item flatten inputs) m.target =
      (m.given? (b.unmerged.item flatten inputs) inputs flatten.groupKey).or
        (Entries.get? (b.unmerged.item flatten inputs) m.target) := by
  obtain ⟨before, after, hSplit, hOthers⟩ := h.split
  have hFilter : b.helperMerges.filter (·.inItem) = before ++ m :: after := by
    rw [← hSplit, hInItem]
    exact List.filter_congr fun m' _ => (beq_true m'.inItem).symm
  have hItem : b.item flatten inputs =
      (b.helperMerges.filter (·.inItem)).foldl
        (fun acc m' => m'.apply acc inputs flatten.groupKey) (b.unmerged.item flatten inputs) := rfl
  rw [hItem, hFilter, MergePlan.get?_foldl_apply hOthers]

/-- The body with its item, before anything is merged into it. -/
def assembled (b : BodyPlan) (inputs : Entries) : Entries :=
  let plain := b.properties.foldl (b.addProperty inputs) []
  match b.flatten with
  | some flatten => Entries.set plain flatten.arrayField (.list [.map (b.item flatten inputs)])
  | none => plain

theorem build_eq (b : BodyPlan) (inputs : Entries) : b.build inputs =
    (b.helperMerges.filter (!·.inItem)).foldl (fun acc m => m.apply acc inputs none)
      (b.assembled inputs) := rfl

/-- Apart from the item nothing depends on the merges yet. -/
theorem get?_assembled {name : String} (h : ∀ flatten ∈ b.flatten, flatten.arrayField ≠ name) :
    Entries.get? (b.assembled inputs) name = Entries.get? (b.unmerged.build inputs) name := by
  have hUnmerged : b.unmerged.build inputs = b.unmerged.assembled inputs := rfl
  rw [hUnmerged, assembled, assembled]
  unfold unmerged
  dsimp only
  cases hFlatten : b.flatten with
  | none => rfl
  | some flatten =>
    dsimp only
    rw [Entries.get?_set, Entries.get?_set, if_neg (h flatten hFlatten),
      if_neg (h flatten hFlatten)]
    rfl

/-- A merge for the body leaves there what it has to give. -/
theorem get?_build_target (hBeside : m.inItem = false) (h : b.MergesOnce m) :
    Entries.get? (b.build inputs) m.target =
      (m.given? (b.unmerged.build inputs) inputs none).or
        (Entries.get? (b.unmerged.build inputs) m.target) := by
  obtain ⟨before, after, hSplit, hOthers⟩ := h.split
  have hFilter : b.helperMerges.filter (!·.inItem) = before ++ m :: after := by
    rw [← hSplit, hBeside]
    exact List.filter_congr fun m' _ => (beq_false m'.inItem).symm
  -- merges into the item do not count here: the target is not the list that holds it
  have hPlain : Entries.get? (b.assembled inputs) m.target =
      Entries.get? (b.unmerged.build inputs) m.target :=
    get?_assembled fun flatten hFlatten => (h.beside hBeside flatten hFlatten).symm
  rw [build_eq, hFilter, MergePlan.get?_foldl_apply hOthers, MergePlan.given?_congr hPlain, hPlain]

/-- The item stands in the body where merges look for it. -/
theorem container?_item {flatten : FlattenPlan} (hFlatten : b.flatten = some flatten)
    (hKept : ∀ m' ∈ b.helperMerges, m'.inItem = false → m'.target ≠ flatten.arrayField) :
    b.container? true (b.build inputs) = some (b.item flatten inputs) := by
  rw [container?, if_pos rfl, hFlatten, Option.bind_some, get?_build_arrayField hFlatten hKept]

/-- **A merge leaves at its target what it has to give**, or else what was there without merges. -/
theorem exists_merged (h : b.MergesOnce m) (inputs : Entries) : ∃ before after,
    b.container? m.inItem (b.unmerged.build inputs) = some before ∧
    b.container? m.inItem (b.build inputs) = some after ∧
    Entries.get? after m.target =
      (m.given? before inputs (b.groupOf m)).or (Entries.get? before m.target) := by
  unfold groupOf
  cases hPlace : m.inItem with
  | true =>
    obtain ⟨flatten, hFlatten, hKept⟩ := h.item hPlace
    refine ⟨_, _, container?_item (b := b.unmerged) hFlatten nofun,
      container?_item hFlatten hKept, ?_⟩
    rw [if_pos rfl, hFlatten, Option.bind_some, get?_item_target hPlace h]
  | false => exact ⟨_, _, rfl, rfl, get?_build_target hPlace h⟩

/-- **What merges leave at their targets.** Take a merge that is the only one for its target, and the
body, or the item, without merges and with them. A list takes the union, if that holds anything; if
it is empty, the list is as it would be without merges. So the list is there exactly if the union
holds anything, unless its own input has put it there and the union is empty. Another property takes
the first helper value that is provided, as a number where it spells one, and if there is none it is
as it would be without merges. -/
theorem merged_target (h : b.MergesOnce m) (inputs : Entries) : ∃ before after,
    b.container? m.inItem (b.unmerged.build inputs) = some before ∧
    b.container? m.inItem (b.build inputs) = some after ∧
    (m.targetIsArray = true →
      (m.union before inputs (b.groupOf m) ≠ [] → Entries.get? after m.target =
        some (.list ((m.union before inputs (b.groupOf m)).map .ofNumber))) ∧
      (m.union before inputs (b.groupOf m) = [] →
        Entries.get? after m.target = Entries.get? before m.target) ∧
      ((Entries.has after m.target = true ↔ m.union before inputs (b.groupOf m) ≠ []) ↔
        ¬ (Entries.has before m.target = true ∧ m.union before inputs (b.groupOf m) = []))) ∧
    (m.targetIsArray = false →
      (∀ v, (m.helperValues inputs (b.groupOf m)).find? (fun v => !isUnprovided v) = some v →
        Entries.get? after m.target = some (((toNumber? v).map Value.ofNumber).getD v)) ∧
      ((∀ v ∈ m.helperValues inputs (b.groupOf m), isUnprovided v = true) →
        Entries.get? after m.target = Entries.get? before m.target)) := by
  obtain ⟨before, after, hBefore, hAfter, hTarget⟩ := exists_merged h inputs
  refine ⟨before, after, hBefore, hAfter, fun hArray => ?_, fun hScalar => ?_⟩
  · rw [MergePlan.given?, if_pos hArray] at hTarget
    cases hUnion : m.union before inputs (b.groupOf m) with
    | nil =>
      rw [hUnion] at hTarget
      -- nothing is stored, so the list is there exactly if its own input has put it there
      have hSame : Entries.get? after m.target = Entries.get? before m.target := hTarget
      refine ⟨fun hSome => absurd rfl hSome, fun _ => hSame, ?_⟩
      rw [Entries.has, Entries.has, hSame]
      simp
    | cons n rest =>
      rw [hUnion] at hTarget
      have hList : Entries.get? after m.target = some (.list ((n :: rest).map .ofNumber)) := hTarget
      refine ⟨fun _ => hList, fun hNone => absurd hNone (List.cons_ne_nil n rest), ?_⟩
      rw [Entries.has, hList]
      simp
  · rw [MergePlan.given?, hScalar, if_neg Bool.false_ne_true, MergePlan.firstValue?] at hTarget
    refine ⟨fun v hFirst => ?_, fun hNone => ?_⟩
    · rw [hFirst] at hTarget
      exact hTarget
    · have hMissing :
          (m.helperValues inputs (b.groupOf m)).find? (fun v => !isUnprovided v) = none :=
        List.find?_eq_none.mpr fun v hv => by rw [hNone v hv]; exact Bool.false_ne_true
      rw [hMissing] at hTarget
      exact hTarget

/-- The tags of an expense gain those chosen one by one. -/
def expenseTags : MergePlan where
  target := "tag_ids"
  helperKeys := ["tag", "other_tag"]
  targetIsArray := true
  inItem := true
  nested := true

/-- An expense is put back into a list. Beside it there are tags of another kind, and who paid. -/
def expensePlan : BodyPlan where
  flatten := some {
    arrayField := "expenses"
    groupKey := some "expense"
    itemProperties := [{ name := "amount", kind := .number }, { name := "tag_ids", kind := .array }] }
  helperMerges := [
    { target := "tag_ids", helperKeys := ["tag"], targetIsArray := true },
    expenseTags,
    { target := "payer_id", helperKeys := ["payer", "other_payer"] }]

/-- Of the tags that are given, and of those that are chosen, the numbers above zero are sent, each
once. -/
theorem merged_target_expense :
    let inputs : Entries := [(.str "expense", .object [
      ("tag_ids", .str "8, paid, 3"), ("tag", .str "3"), ("other_tag", .int 0)])]
    expensePlan.MergesOnce expenseTags ∧ expenseTags.targetIsArray = true ∧
    ∃ after, expensePlan.container? true (expensePlan.build inputs) = some after ∧
      Entries.get? after "tag_ids" = some (.list [.int 8, .int 3]) := by
  intro inputs
  have hOnce : expensePlan.MergesOnce expenseTags :=
    ⟨⟨[_], [_], rfl, by decide⟩, fun _ => ⟨_, rfl, by decide⟩, nofun⟩
  obtain ⟨before, after, hBefore, hAfter, hList, -⟩ := merged_target hOnce inputs
  have hUnion : expenseTags.union before inputs (expensePlan.groupOf expenseTags) =
      [.int 8, .int 3] := by
    have hItem : before = [(.str "tag_ids", .list [.int 8, .str "paid", .int 3])] :=
      Option.some.inj (hBefore.symm.trans (by with_unfolding_all rfl))
    rw [hItem]
    with_unfolding_all rfl
  have hTags := (hList rfl).1 (by rw [hUnion]; nofun)
  rw [hUnion] at hTags
  exact ⟨hOnce, rfl, after, hAfter, hTags⟩

/-- Tags are a list of their own, and one can be added. -/
def taggedPlan : BodyPlan where
  properties := [{ name := "tag_ids", kind := .array }]
  helperMerges := [{ target := "tag_ids", helperKeys := ["add_tag"], targetIsArray := true }]

/-- **An empty union does not always leave the list out.** A tag that is no number is no part of the
union, yet it is sent as long as no other tag is added. -/
theorem emptied_union_kept :
    ¬ ∀ (b : BodyPlan) (m : MergePlan) (inputs before after : Entries),
      b.MergesOnce m → m.targetIsArray = true →
      b.container? m.inItem (b.unmerged.build inputs) = some before →
      b.container? m.inItem (b.build inputs) = some after →
      (Entries.has after m.target = true ↔ m.union before inputs (b.groupOf m) ≠ []) := by
  intro hAlways
  have hOnce : taggedPlan.MergesOnce
      { target := "tag_ids", helperKeys := ["add_tag"], targetIsArray := true } :=
    ⟨⟨[], [], rfl, nofun⟩, nofun, fun _ _ h => nomatch h⟩
  have hSame := hAlways taggedPlan _ [(.str "tag_ids", .str "urgent")]
    [(.str "tag_ids", .list [.str "urgent"])] [(.str "tag_ids", .list [.str "urgent"])] hOnce rfl
    (by with_unfolding_all rfl) (by with_unfolding_all rfl)
  exact hSame.mp rfl (by with_unfolding_all rfl)

end BodyPlan

end IntegrationCompiler
