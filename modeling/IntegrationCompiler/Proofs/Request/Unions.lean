import IntegrationCompiler.Proofs.Number.Exact
import IntegrationCompiler.Proofs.Request.RoundTrip

/-!
# Unions of numbers

Adding helper values to a list gives the positive numbers of both, each value where it stands first.
What is in the union already adds nothing, so a union can be made in one go or bit by bit, and made
again without a change.

Main definitions:

* `Number.firsts` — the numbers of a list, each value at its first place only;
* `positiveNumbers` — the positive numbers that some values are read as.

Main results:

* `addPositive_eq` — what one value adds; `foldl_addPositive` — what a list of values adds;
* `merge_unites_positives` — the union and its laws.
-/

namespace IntegrationCompiler

/-! ## Numbers at their first places -/

namespace Number

/-- The number has a value above zero. -/
def IsPositive (n : Number) : Prop := ∃ v ∈ n.value?, 0 < v

instance : DecidablePred IsPositive := fun n =>
  inferInstanceAs (Decidable (∃ v ∈ n.value?, 0 < v))

/-- The numbers of a list with values that were not seen before, neither in the list nor earlier. -/
def firstsAfter (seen : List (Option ExactValue)) : List Number → List Number
  | [] => []
  | n :: rest =>
    if n.value? ∈ seen then firstsAfter (n.value? :: seen) rest
    else n :: firstsAfter (n.value? :: seen) rest

/-- The numbers of a list, each value at its first place only. -/
def firsts (ns : List Number) : List Number := firstsAfter [] ns

variable {n : Number} {ns : List Number} {seen : List (Option ExactValue)}

theorem IsPositive.ne_nan (h : n.IsPositive) : n ≠ .float .nan := by
  rintro rfl
  obtain ⟨v, hv, -⟩ := h
  cases hv

theorem IsPositive.not_atMostZero (h : n.IsPositive) : n.atMostZero = false := by
  obtain ⟨v, hv, hAbove⟩ := h
  rw [Bool.eq_false_iff, ne_eq, atMostZero_iff hv]
  exact hAbove.not_ge

/-- A number that is not positive is a NaN or not above zero. -/
theorem atMostZero_of_not_isPositive (h : ¬ n.IsPositive) (hNumber : n ≠ .float .nan) :
    n.atMostZero = true := by
  cases hValue : n.value? with
  | none => exact absurd (value?_eq_none_iff.mp hValue) hNumber
  | some v =>
    rw [atMostZero_iff hValue]
    exact not_lt.mp fun hAbove => h ⟨v, hValue, hAbove⟩

/-- The test whether a number is there compares exact values. -/
theorem any_same_iff (h : n ≠ .float .nan) :
    ns.any (·.same n) = true ↔ n.value? ∈ ns.map value? := by
  cases hValue : n.value? with
  | none => exact absurd (value?_eq_none_iff.mp hValue) h
  | some v => simp only [List.any_eq_true, same_iff hValue, List.mem_map]

/-- It does not matter in what order, and how often, values were seen. -/
theorem firstsAfter_congr {seen' : List (Option ExactValue)} (h : ∀ v, v ∈ seen ↔ v ∈ seen') :
    firstsAfter seen ns = firstsAfter seen' ns := by
  induction ns generalizing seen seen' with
  | nil => rfl
  | cons n rest ih =>
    have hRest : firstsAfter (n.value? :: seen) rest = firstsAfter (n.value? :: seen') rest :=
      ih fun v => by rw [List.mem_cons, List.mem_cons, h v]
    simp only [firstsAfter, h n.value?, hRest]

/-- Of two lists in a row the second one gives what is new after the first. -/
theorem firstsAfter_append (ms : List Number) : firstsAfter seen (ns ++ ms) =
    firstsAfter seen ns ++ firstsAfter (seen ++ (firstsAfter seen ns).map value?) ms := by
  induction ns generalizing seen with
  | nil => simp [firstsAfter]
  | cons n rest ih =>
    rw [List.cons_append, firstsAfter, firstsAfter]
    split
    · next hSeen =>
      rw [ih]
      congr 1
      refine firstsAfter_congr fun v => ?_
      have hThere : v = n.value? → v ∈ seen := fun hSame => hSame ▸ hSeen
      simp only [List.mem_append, List.mem_cons]
      tauto
    · rw [ih, List.cons_append]
      congr 2
      refine firstsAfter_congr fun v => ?_
      simp only [List.map_cons, List.mem_append, List.mem_cons]
      tauto

theorem firstsAfter_sublist : (firstsAfter seen ns).Sublist ns := by
  induction ns generalizing seen with
  | nil => exact .slnil
  | cons n rest ih =>
    rw [firstsAfter]
    split
    · exact ih.cons n
    · exact ih.cons_cons n

/-- Nothing is kept that was seen before. -/
theorem not_mem_of_mem_firstsAfter (h : n ∈ firstsAfter seen ns) : n.value? ∉ seen := by
  induction ns generalizing seen with
  | nil => cases h
  | cons first rest ih =>
    rw [firstsAfter] at h
    split at h
    · exact fun hSeen => ih h (List.mem_cons_of_mem _ hSeen)
    · next hNew =>
      rcases List.mem_cons.mp h with rfl | hRest
      · exact hNew
      · exact fun hSeen => ih hRest (List.mem_cons_of_mem _ hSeen)

/-- No value is kept twice. -/
theorem firstsAfter_distinct :
    (firstsAfter seen ns).Pairwise fun m n => m.value? ≠ n.value? := by
  induction ns generalizing seen with
  | nil => exact .nil
  | cons n rest ih =>
    rw [firstsAfter]
    split
    · exact ih
    · refine .cons (fun m hm hSame => ?_) ih
      exact not_mem_of_mem_firstsAfter hm (hSame ▸ List.mem_cons_self)

/-- No value is lost. -/
theorem mem_or_mem_firstsAfter (h : n ∈ ns) :
    n.value? ∈ seen ∨ n.value? ∈ (firstsAfter seen ns).map value? := by
  obtain ⟨before, after, rfl⟩ := List.append_of_mem h
  rw [firstsAfter_append, List.map_append, List.mem_append, firstsAfter]
  split
  · next hSeen => exact (List.mem_append.mp hSeen).imp_right .inl
  · exact .inr (.inr List.mem_cons_self)

/-- Numbers with new values, each with another one, are kept as they are. -/
theorem firstsAfter_eq_self (hNew : ∀ n ∈ ns, n.value? ∉ seen)
    (hDistinct : ns.Pairwise fun m n => m.value? ≠ n.value?) : firstsAfter seen ns = ns := by
  induction ns generalizing seen with
  | nil => rfl
  | cons n rest ih =>
    obtain ⟨hOthers, hDistinct⟩ := List.pairwise_cons.mp hDistinct
    obtain ⟨hFirst, hNew⟩ := List.forall_mem_cons.mp hNew
    rw [firstsAfter, if_neg hFirst, ih (fun m hm => ?_) hDistinct]
    rw [List.mem_cons, not_or]
    exact ⟨(hOthers m hm).symm, hNew m hm⟩

/-- Numbers with values that were all seen before leave nothing. -/
theorem firstsAfter_eq_nil (h : ∀ n ∈ ns, n.value? ∈ seen) : firstsAfter seen ns = [] := by
  refine List.eq_nil_iff_forall_not_mem.mpr fun n hn => ?_
  exact not_mem_of_mem_firstsAfter hn (h n (firstsAfter_sublist.subset hn))

end Number

/-! ## The union -/

open Number

/-- The positive numbers that some values are read as. -/
def positiveNumbers (values : List Value) : List Number :=
  (values.filterMap toNumber?).filter fun n => n.IsPositive

variable {n : Number} {v : Value} {values : List Value} {merged ns : List Number}

theorem toNumber?_ne_nan (h : toNumber? v = some n) : n ≠ .float .nan := by
  have hKept := (Option.filter_eq_some_iff.mp h).2
  exact bne_iff_ne.mp hKept

theorem positiveNumbers_append (values more : List Value) :
    positiveNumbers (values ++ more) = positiveNumbers values ++ positiveNumbers more := by
  rw [positiveNumbers, List.filterMap_append, List.filter_append]
  rfl

/-- Positive numbers are read as they are. -/
theorem positiveNumbers_ofNumber (h : ∀ n ∈ ns, n.IsPositive) :
    positiveNumbers (ns.map .ofNumber) = ns := by
  have hRead : (ns.map Value.ofNumber).filterMap toNumber? = ns := by
    rw [List.filterMap_map]
    refine (List.filterMap_congr fun n hn => ?_).trans List.filterMap_some
    exact toNumber?_ofNumber (h n hn).ne_nan
  rw [positiveNumbers, hRead, List.filter_eq_self]
  exact fun n hn => decide_eq_true (h n hn)

/-- **What one value adds to a union**: a positive number, unless its value is there. -/
theorem addPositive_eq (merged : List Number) (v : Value) :
    addPositive merged v = merged ++ firstsAfter (merged.map value?) (positiveNumbers [v]) := by
  cases hNumber : toNumber? v with
  | none => simp [addPositive, positiveNumbers, hNumber, firstsAfter]
  | some n =>
    have hNan := toNumber?_ne_nan hNumber
    by_cases hPositive : n.IsPositive
    · have hAdds : positiveNumbers [v] = [n] := by simp [positiveNumbers, hNumber, hPositive]
      rw [addPositive, hNumber, hAdds, firstsAfter, firstsAfter]
      dsimp only
      simp only [hPositive.not_atMostZero, Bool.false_or, any_same_iff hNan]
      split
      · exact (List.append_nil merged).symm
      · rfl
    · have hAdds : positiveNumbers [v] = [] := by simp [positiveNumbers, hNumber, hPositive]
      rw [addPositive, hNumber, hAdds, firstsAfter, List.append_nil]
      dsimp only
      rw [atMostZero_of_not_isPositive hPositive hNan, Bool.true_or, if_pos rfl]

/-- What a list of values adds to a union. -/
theorem foldl_addPositive (values : List Value) (merged : List Number) :
    values.foldl addPositive merged =
      merged ++ firstsAfter (merged.map value?) (positiveNumbers values) := by
  induction values generalizing merged with
  | nil => exact (List.append_nil merged).symm
  | cons v rest ih =>
    have hSplit : positiveNumbers (v :: rest) = positiveNumbers [v] ++ positiveNumbers rest :=
      positiveNumbers_append [v] rest
    rw [List.foldl_cons, ih, addPositive_eq, hSplit, firstsAfter_append, List.map_append,
      List.append_assoc]

theorem mergeHelperValues_eq (existing helpers : List Value) :
    mergeHelperValues existing helpers = firsts (positiveNumbers (existing ++ helpers)) :=
  foldl_addPositive (existing ++ helpers) []

/-- A union holds positive numbers only. -/
theorem isPositive_of_mem_merge {existing helpers : List Value}
    (h : n ∈ mergeHelperValues existing helpers) : n.IsPositive := by
  rw [mergeHelperValues_eq] at h
  exact of_decide_eq_true (List.mem_filter.mp (firstsAfter_sublist.subset h)).2

/-- A union that more is added to is the union with that added to the helpers. -/
theorem merge_merge (existing helpers more : List Value) :
    mergeHelperValues ((mergeHelperValues existing helpers).map .ofNumber) more =
      mergeHelperValues existing (helpers ++ more) := by
  -- read again, the first union comes out as it was put in
  have hAgain : ((mergeHelperValues existing helpers).map Value.ofNumber).foldl addPositive [] =
      mergeHelperValues existing helpers := by
    rw [foldl_addPositive, positiveNumbers_ofNumber fun n hn => isPositive_of_mem_merge hn,
      List.map_nil, List.nil_append]
    refine firstsAfter_eq_self (fun n _ => List.not_mem_nil) ?_
    rw [mergeHelperValues_eq]
    exact firstsAfter_distinct
  rw [mergeHelperValues, List.foldl_append, hAgain, mergeHelperValues, mergeHelperValues,
    ← List.foldl_append, List.append_assoc]

/-- **Merging unites.** The union of a list and some helper values holds positive numbers, no two of
them with the same value. It is what the values are read as, one after another, as far as that is
positive, each value at its first place. To add the helpers again changes nothing, and to add some
more afterwards is to add them all at once. -/
theorem merge_unites_positives (existing helpers more : List Value) :
    (∀ n ∈ mergeHelperValues existing helpers, n.IsPositive) ∧
    (mergeHelperValues existing helpers).Pairwise (fun m n => m.value? ≠ n.value?) ∧
    mergeHelperValues existing helpers = firsts (positiveNumbers (existing ++ helpers)) ∧
    mergeHelperValues ((mergeHelperValues existing helpers).map .ofNumber) helpers =
      mergeHelperValues existing helpers ∧
    mergeHelperValues ((mergeHelperValues existing helpers).map .ofNumber) more =
      mergeHelperValues existing (helpers ++ more) := by
  have hUnion := mergeHelperValues_eq existing helpers
  refine ⟨fun n hn => isPositive_of_mem_merge hn, hUnion ▸ firstsAfter_distinct, hUnion, ?_,
    merge_merge existing helpers more⟩
  -- of the helpers that are added again every value is there
  have hThere : ∀ n ∈ positiveNumbers helpers,
      n.value? ∈ (mergeHelperValues existing helpers).map value? := by
    intro n hn
    have hMem : n ∈ positiveNumbers (existing ++ helpers) := by
      rw [positiveNumbers_append]
      exact List.mem_append_right _ hn
    rw [hUnion]
    exact (mem_or_mem_firstsAfter hMem).resolve_left List.not_mem_nil
  calc mergeHelperValues ((mergeHelperValues existing helpers).map .ofNumber) helpers
      = mergeHelperValues existing (helpers ++ helpers) := merge_merge existing helpers helpers
    _ = helpers.foldl addPositive (mergeHelperValues existing helpers) := by
        rw [mergeHelperValues, mergeHelperValues, ← List.append_assoc, List.foldl_append]
    _ = mergeHelperValues existing helpers := by
        rw [foldl_addPositive, firstsAfter_eq_nil hThere, List.append_nil]

/-- Numbers and numerals go together, integers and doubles too. -/
example : mergeHelperValues [.int 5, .str " 7.0 ", .float (.infinite false)]
    [.int 3, .str "5e0", .int 7, .str "inf", .int 0, .str "-2", .str "paid", .null] =
    [.int 5, .float (.finite false 7 0), .float (.infinite false), .int 3] := by
  decide +kernel

end IntegrationCompiler
