import IntegrationCompiler.Proofs.Number.Exact
import IntegrationCompiler.Response.Shaping

/-!
# Newest items first

Items are put in order by their ids, the greatest first. What counts is the exact value of an id, so
that integers of any size, doubles and infinities stand in one order; an item that has no number as
its id counts as zero. Items that count the same keep the order in which they came, which leaves
nothing open: there is only one such list.

* `Value.HasId`, `Value.CountsAs` — the number that an item has as its id, and what it counts as;
* `NewestFirst` — what an ordered list of given items is;
* `not_mayPrecede_iff` — the test that puts an item behind another one;
* `insertById_falling`, `countingAs_insertById` — what putting one item in its place keeps;
* `falling_sortByIdDesc`, `countingAs_sortByIdDesc` — the same for all items;
* `Falling.eq_of_countingAs` — an ordered list is fixed by the items of each value;
* `newest_come_first` puts this together.
-/

namespace IntegrationCompiler

/-! ## What an item counts as -/

namespace Value

/-- The item is an object that has a number as its id. A truth value is no number. -/
def HasId (item : Value) (n : Number) : Prop :=
  ∃ es, item = .map es ∧ Entries.get? es "id" = some (.ofNumber n)

/-- What an item counts as in the order: the exact value of its id, or zero if it has no number as
its id. With a NaN as its id it counts as nothing. -/
inductive CountsAs (item : Value) : ExactValue → Prop
  | number {n : Number} {v : ExactValue} (hId : item.HasId n) (hValue : n.value? = some v) :
    CountsAs item v
  | zero (hNone : ∀ n, ¬ item.HasId n) : CountsAs item 0

variable {item : Value} {v w : ExactValue}

theorem orderNumber_of_hasId {n : Number} (h : item.HasId n) : orderNumber item = n := by
  obtain ⟨es, rfl, hId⟩ := h
  have hEntry : Entries.getOrNull es "id" = .ofNumber n := by
    rw [Entries.getOrNull, hId, Option.getD_some]
  unfold orderNumber
  dsimp only
  rw [hEntry]
  cases n <;> rfl

/-- An id that is read as a number is there, since what is absent is read as null. -/
theorem hasId_of_getOrNull {es : Entries} {n : Number}
    (h : Entries.getOrNull es "id" = .ofNumber n) : HasId (.map es) n := by
  refine ⟨es, rfl, ?_⟩
  unfold Entries.getOrNull at h
  cases hId : Entries.get? es "id" with
  | none =>
    rw [hId] at h
    cases n <;> cases h
  | some id =>
    rw [hId, Option.getD_some] at h
    rw [h]

theorem orderNumber_of_not_hasId (h : ∀ n, ¬ item.HasId n) : orderNumber item = .int 0 := by
  unfold orderNumber
  split
  · split
    · next n hId => exact absurd (hasId_of_getOrNull (n := .int n) hId) (h _)
    · next x hId => exact absurd (hasId_of_getOrNull (n := .float x) hId) (h _)
    · rfl
  · rfl

/-- The number by which an item is ordered has the value that the item counts as. -/
theorem countsAs_iff : item.CountsAs v ↔ (orderNumber item).value? = some v := by
  constructor
  · intro h
    cases h with
    | number hId hValue =>
      rw [orderNumber_of_hasId hId]
      exact hValue
    | zero hNone =>
      rw [orderNumber_of_not_hasId hNone]
      rfl
  · intro hValue
    by_cases hSome : ∃ n, item.HasId n
    · obtain ⟨n, hId⟩ := hSome
      rw [orderNumber_of_hasId hId] at hValue
      exact .number hId hValue
    · have hNone : ∀ n, ¬ item.HasId n := not_exists.mp hSome
      rw [orderNumber_of_not_hasId hNone] at hValue
      obtain rfl : 0 = v := Option.some.inj hValue
      exact .zero hNone

instance (item : Value) (v : ExactValue) : Decidable (item.CountsAs v) :=
  decidable_of_iff _ countsAs_iff.symm

theorem CountsAs.unique (hv : item.CountsAs v) (hw : item.CountsAs w) : v = w :=
  Option.some.inj ((countsAs_iff.mp hv).symm.trans (countsAs_iff.mp hw))

theorem exists_countsAs (h : ¬ item.HasId (.float .nan)) : ∃ v, item.CountsAs v := by
  cases hValue : (orderNumber item).value? with
  | some v => exact ⟨v, countsAs_iff.mpr hValue⟩
  | none =>
    have hNan : orderNumber item = .float .nan := Number.value?_eq_none_iff.mp hValue
    refine ⟨0, .zero fun n hId => h ?_⟩
    rw [← hNan, orderNumber_of_hasId hId]
    exact hId

end Value

section

variable {a b item : Value} {v w : ExactValue} {items xs ys : List Value}

/-! ## Two items -/

/-- An item is put behind another one only if it counts as less. -/
theorem not_mayPrecede_iff : mayPrecede a b = false ↔
    ∃ v w, a.CountsAs v ∧ b.CountsAs w ∧ v < w := by
  unfold mayPrecede
  rw [bne_eq_false_iff_eq, Number.cmp_eq_some_iff]
  simp only [Value.countsAs_iff, compare_lt_iff_lt]

theorem mayPrecede_iff (ha : a.CountsAs v) (hb : b.CountsAs w) :
    mayPrecede a b = true ↔ w ≤ v := by
  rw [← Bool.not_eq_false, not_mayPrecede_iff, ← not_lt]
  refine not_congr ⟨?_, fun hLess => ⟨v, w, ha, hb, hLess⟩⟩
  rintro ⟨v', w', ha', hb', hLess⟩
  rw [ha.unique ha', hb.unique hb']
  exact hLess

/-! ## Ordered lists -/

/-- No item counts as more than one that stands before it. -/
def Falling (items : List Value) : Prop :=
  items.Pairwise fun a b => ∀ v w, a.CountsAs v → b.CountsAs w → w ≤ v

/-- The items that count as a value, in the order in which they stand. -/
def countingAs (v : ExactValue) (items : List Value) : List Value :=
  items.filter fun item => item.CountsAs v

/-- A list of the given items with the greatest ids first, in which items that count the same stand
as they were given. -/
structure NewestFirst (items sorted : List Value) : Prop where
  perm : sorted.Perm items
  falling : Falling sorted
  stable : ∀ v, countingAs v sorted = countingAs v items

theorem countingAs_cons (v : ExactValue) (item : Value) (items : List Value) :
    countingAs v (item :: items) = countingAs v [item] ++ countingAs v items :=
  List.filter_append [item] items

theorem countingAs_cons_of_countsAs (h : item.CountsAs v) (items : List Value) :
    countingAs v (item :: items) = item :: countingAs v items :=
  List.filter_cons_of_pos (decide_eq_true h)

theorem countingAs_cons_of_not (h : ¬ item.CountsAs v) (items : List Value) :
    countingAs v (item :: items) = countingAs v items :=
  List.filter_cons_of_neg (by simpa using h)

/-- Where two items count differently, nothing shows which of them comes first. -/
theorem countingAs_swap (ha : a.CountsAs v) (hb : b.CountsAs w) (hNe : v ≠ w) (u : ExactValue)
    (items : List Value) : countingAs u (a :: b :: items) = countingAs u (b :: a :: items) := by
  by_cases hu : a.CountsAs u
  · have hOther : ¬ b.CountsAs u := fun hbu => hNe ((ha.unique hu).trans (hbu.unique hb))
    rw [countingAs_cons_of_countsAs hu, countingAs_cons_of_not hOther,
      countingAs_cons_of_not hOther, countingAs_cons_of_countsAs hu]
  · rw [countingAs_cons_of_not hu, countingAs_cons u b (a :: items), countingAs_cons_of_not hu,
      ← countingAs_cons]

/-- The first item of an ordered list counts as no less than any other. -/
theorem Falling.le_first (h : Falling (a :: items)) (hMem : b ∈ a :: items) (ha : a.CountsAs v)
    (hb : b.CountsAs w) : w ≤ v := by
  rcases List.mem_cons.mp hMem with rfl | hRest
  · exact (hb.unique ha).le
  · exact (List.pairwise_cons.mp h).1 b hRest v w ha hb

/-! ## One item in its place -/

theorem insertById_perm (item : Value) (items : List Value) :
    (insertById item items).Perm (item :: items) := by
  induction items with
  | nil => exact List.Perm.refl _
  | cons b rest ih =>
    rw [insertById]
    split
    · exact List.Perm.refl _
    · exact (ih.cons b).trans (List.Perm.swap item b rest)

/-- An item put in its place leaves the order intact. The others have to count as something: behind
a NaN there could be a greater id, with which the item would not be compared. -/
theorem insertById_falling (hItems : ∀ b ∈ items, ∃ w, b.CountsAs w) (h : Falling items)
    (item : Value) : Falling (insertById item items) := by
  induction items with
  | nil => exact List.pairwise_singleton _ _
  | cons b rest ih =>
    obtain ⟨w, hb⟩ := hItems b List.mem_cons_self
    obtain ⟨hFirst, hRest⟩ := List.pairwise_cons.mp h
    rw [insertById]
    split
    · next hBefore =>
      -- what follows counts as no more than `b`, and `b` as no more than the item
      refine List.pairwise_cons.mpr ⟨fun c hc v u hv hu => ?_, h⟩
      have hFollows : u ≤ w := h.le_first hc hb hu
      exact hFollows.trans ((mayPrecede_iff hv hb).mp hBefore)
    · next hBehind =>
      have hItems : ∀ c ∈ rest, ∃ w, c.CountsAs w := fun c hc =>
        hItems c (List.mem_cons_of_mem _ hc)
      refine List.pairwise_cons.mpr ⟨fun c hc => ?_, ih hItems hRest⟩
      rcases List.mem_cons.mp ((insertById_perm item rest).subset hc) with rfl | hc
      · intro u v hu hv
        have hLess : ¬ u ≤ v := mt (mayPrecede_iff hv hu).mpr hBehind
        exact (not_le.mp hLess).le
      · exact hFirst c hc

/-- An item passes only such items as count as more, so that among those that count the same it
stays the first one. This holds of any list, ordered or not. -/
theorem countingAs_insertById (u : ExactValue) (item : Value) (items : List Value) :
    countingAs u (insertById item items) = countingAs u (item :: items) := by
  induction items with
  | nil => rfl
  | cons b rest ih =>
    rw [insertById]
    split
    · rfl
    · next hBehind =>
      obtain ⟨v, w, hItem, hb, hLess⟩ := not_mayPrecede_iff.mp (Bool.eq_false_iff.mpr hBehind)
      calc countingAs u (b :: insertById item rest)
        _ = countingAs u (b :: item :: rest) := by rw [countingAs_cons, ih, ← countingAs_cons]
        _ = countingAs u (item :: b :: rest) := countingAs_swap hb hItem hLess.ne' u rest

/-! ## All items -/

theorem sortByIdDesc_cons (item : Value) (items : List Value) :
    sortByIdDesc (item :: items) = insertById item (sortByIdDesc items) := rfl

theorem sortByIdDesc_perm (items : List Value) : (sortByIdDesc items).Perm items := by
  induction items with
  | nil => exact List.Perm.refl _
  | cons item rest ih => exact (insertById_perm item _).trans (ih.cons item)

theorem falling_sortByIdDesc (h : ∀ item ∈ items, ∃ v, item.CountsAs v) :
    Falling (sortByIdDesc items) := by
  induction items with
  | nil => exact List.Pairwise.nil
  | cons item rest ih =>
    have hRest : ∀ b ∈ rest, ∃ w, b.CountsAs w := fun b hb => h b (List.mem_cons_of_mem _ hb)
    rw [sortByIdDesc_cons]
    refine insertById_falling (fun b hb => ?_) (ih hRest) item
    exact hRest b ((sortByIdDesc_perm rest).subset hb)

theorem countingAs_sortByIdDesc (v : ExactValue) (items : List Value) :
    countingAs v (sortByIdDesc items) = countingAs v items := by
  induction items with
  | nil => rfl
  | cons item rest ih =>
    rw [sortByIdDesc_cons, countingAs_insertById, countingAs_cons, ih, ← countingAs_cons]

/-! ## Nothing left open -/

theorem mem_of_countingAs_eq (h : countingAs v xs = countingAs v ys) (hMem : item ∈ xs)
    (hv : item.CountsAs v) : item ∈ ys := by
  have hSame : item ∈ countingAs v xs := List.mem_filter.mpr ⟨hMem, decide_eq_true hv⟩
  rw [h] at hSame
  exact (List.mem_filter.mp hSame).1

/-- Ordered lists that agree on the items of every value are one list. -/
theorem Falling.eq_of_countingAs (hxs : Falling xs) (hys : Falling ys)
    (hx : ∀ a ∈ xs, ∃ v, a.CountsAs v) (hy : ∀ b ∈ ys, ∃ w, b.CountsAs w)
    (h : ∀ v, countingAs v xs = countingAs v ys) : xs = ys := by
  induction xs generalizing ys with
  | nil =>
    cases ys with
    | nil => rfl
    | cons b rest =>
      obtain ⟨w, hb⟩ := hy b List.mem_cons_self
      exact absurd (mem_of_countingAs_eq (h w).symm List.mem_cons_self hb) List.not_mem_nil
  | cons a as ih =>
    obtain ⟨v, ha⟩ := hx a List.mem_cons_self
    have hThere : a ∈ ys := mem_of_countingAs_eq (h v) List.mem_cons_self ha
    cases ys with
    | nil => exact absurd hThere List.not_mem_nil
    | cons b bs =>
      obtain ⟨w, hb⟩ := hy b List.mem_cons_self
      have hBack : b ∈ a :: as := mem_of_countingAs_eq (h w).symm List.mem_cons_self hb
      -- each of the two first items counts as no less than the other
      obtain rfl : v = w := le_antisymm (hys.le_first hThere hb ha) (hxs.le_first hBack ha hb)
      have hFirst := h v
      rw [countingAs_cons_of_countsAs ha, countingAs_cons_of_countsAs hb, List.cons.injEq] at hFirst
      obtain ⟨rfl, -⟩ := hFirst
      have hRest : ∀ u, countingAs u as = countingAs u bs := by
        intro u
        have hu := h u
        rw [countingAs_cons u a as, countingAs_cons u a bs] at hu
        exact List.append_cancel_left hu
      have hEq : as = bs := ih (List.pairwise_cons.mp hxs).2 (List.pairwise_cons.mp hys).2
        (fun c hc => hx c (List.mem_cons_of_mem _ hc))
        (fun c hc => hy c (List.mem_cons_of_mem _ hc)) hRest
      rw [hEq]

/-- **The newest items come first.** Where no id is a NaN, every item counts as exactly one value:
that of its id, or zero if it is no object or has no number as its id. Ordering the items gives the
same items with none before one that counts as more, and those that count the same in the order that
they had; and it is the only list of which this can be said. -/
theorem newest_come_first (h : ∀ item ∈ items, ¬ item.HasId (.float .nan)) :
    (∀ item ∈ items, ∃! v, item.CountsAs v) ∧
    NewestFirst items (sortByIdDesc items) ∧
    ∀ sorted, NewestFirst items sorted → sorted = sortByIdDesc items := by
  have hCounts : ∀ item ∈ items, ∃ v, item.CountsAs v := fun item hItem =>
    Value.exists_countsAs (h item hItem)
  have hFalling : Falling (sortByIdDesc items) := falling_sortByIdDesc hCounts
  refine ⟨fun item hItem => ?_, ?_, fun sorted hSorted => ?_⟩
  · obtain ⟨v, hv⟩ := hCounts item hItem
    exact ⟨v, hv, fun w hw => hw.unique hv⟩
  · exact ⟨sortByIdDesc_perm items, hFalling, fun v => countingAs_sortByIdDesc v items⟩
  · refine hSorted.falling.eq_of_countingAs hFalling (fun a ha => ?_) (fun b hb => ?_) fun v => ?_
    · exact hCounts a (hSorted.perm.subset ha)
    · exact hCounts b ((sortByIdDesc_perm items).subset hb)
    · rw [hSorted.stable, countingAs_sortByIdDesc]

end

/-- Ids of all kinds. One integer is by one above a double, which no double is; another one has the
value of a double; and four of the items count as zero. -/
def mixedIds : List Value := [
  .object [("id", .int 2)],
  .object [("id", .float (.infinite true))],
  .object [("title", .str "without id")],
  .object [("id", .float (.finite false 1 53))],
  .object [("id", .bool true)],
  .object [("id", .int (2 ^ 53 + 1))],
  .object [("id", .float (.finite false 1 1))],
  .str "no object",
  .object [("id", .float (.finite true 0 0))]]

theorem newest_come_first_mixedIds :
    (∀ item ∈ mixedIds, ¬ item.HasId (.float .nan)) ∧
    NewestFirst mixedIds [
      .object [("id", .int (2 ^ 53 + 1))],
      .object [("id", .float (.finite false 1 53))],
      .object [("id", .int 2)],
      .object [("id", .float (.finite false 1 1))],
      .object [("title", .str "without id")],
      .object [("id", .bool true)],
      .str "no object",
      .object [("id", .float (.finite true 0 0))],
      .object [("id", .float (.infinite true))]] := by
  have hNumbers : ∀ item ∈ mixedIds, orderNumber item ≠ .float .nan := by decide
  have hIds : ∀ item ∈ mixedIds, ¬ item.HasId (.float .nan) := fun item hItem hNan =>
    hNumbers item hItem (Value.orderNumber_of_hasId hNan)
  exact ⟨hIds, (newest_come_first hIds).2.1⟩

end IntegrationCompiler
