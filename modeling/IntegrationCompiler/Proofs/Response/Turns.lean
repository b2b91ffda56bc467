import IntegrationCompiler.Proofs.Request.Placed
import IntegrationCompiler.Proofs.Response.Paging
import Mathlib.Data.Nat.Find

/-!
# Turns of a paging loop

The loop as it goes on, one fetch after another, for answers of any shape. It asks for one page
after the other, each of them once, and takes in what every answer holds. The first answer that ends
the loop is the last one that is looked at, and where no answer does, the loop never returns.

Main definitions:

* `PaginationPlan.Progress` — a loop between two fetches; `turn` — one fetch;
* `PaginationPlan.after` — a loop after some answers;
* `PaginationPlan.Ends` — the answers that end a loop.

Main results:

* `foldl_turn_asking`, `foldl_turn_returned` — answers that do not end the loop, and those after its
  end;
* `after_null` — what is collected is what the turns bring;
* `collects_until_end` — what the loop asks for, how far it reads and what it returns.
-/

namespace IntegrationCompiler.PaginationPlan

/-- A loop between two fetches: the offset that it will ask for, or none once it has returned, the
queries that it has made, and the items that they have brought. -/
structure Progress where
  next : Option Int := some 0
  queries : List Entries := []
  items : List Value := []

/-- One fetch and its answer. A loop that has returned makes no more of them. -/
def turn (plan : PaginationPlan) (size : Int) (p : Progress) (answer : Value) : Progress :=
  match p.next with
  | none => p
  | some offset => {
    next := if plan.isLast size answer then none else some (offset + size)
    queries := p.queries ++ [plan.query size offset]
    items := p.items ++ plan.extraction.items answer }

/-- A loop after some answers. -/
def after (plan : PaginationPlan) (size : Int) (answers : List Value) : Progress :=
  answers.foldl (plan.turn size) {}

/-- An answer ends the loop unless it is an object that says, by a truth value and nothing else,
that there is more, and holds as many items as were asked for. -/
def Ends (plan : PaginationPlan) (size : Nat) (answer : Value) : Prop :=
  (¬ ∃ es, answer = .map es ∧ Entries.get? es plan.hasMoreProperty = some (.bool true)) ∨
    (plan.extraction.items answer).length ≠ size

variable {plan : PaginationPlan} {size : Nat} {answer : Value} {answers : List Value}
  {offset : Nat} {queries : List Entries} {items : List Value}

/-! ## One turn -/

theorem hasMore_iff : plan.hasMore answer = true ↔
    ∃ es, answer = .map es ∧ Entries.get? es plan.hasMoreProperty = some (.bool true) := by
  constructor
  · intro h
    unfold hasMore at h
    split at h
    · next es =>
      refine ⟨es, rfl, ?_⟩
      unfold Entries.getOrNull at h
      cases hSays : Entries.get? es plan.hasMoreProperty with
      | none => simp [hSays] at h
      | some v =>
        rw [hSays, Option.getD_some] at h
        split at h
        · rw [h]
        · cases h
    · cases h
  · rintro ⟨es, rfl, hSays⟩
    simp only [hasMore, Entries.getOrNull, hSays, Option.getD_some]

/-- The test that the loop makes. -/
theorem isLast_iff : plan.isLast size answer = true ↔ plan.Ends size answer := by
  rw [isLast, Bool.or_eq_true, Bool.not_eq_true', ← Bool.not_eq_true, hasMore_iff, bne_iff_ne,
    ne_eq, Int.natCast_inj]
  rfl

theorem turn_of_ends (h : plan.Ends size answer) :
    plan.turn size ⟨some offset, queries, items⟩ answer =
      ⟨none, queries ++ [plan.query size offset], items ++ plan.extraction.items answer⟩ := by
  simp only [turn, isLast_iff.mpr h, if_true]

theorem turn_of_not_ends (h : ¬ plan.Ends size answer) :
    plan.turn size ⟨some offset, queries, items⟩ answer =
      ⟨some (offset + size : Nat), queries ++ [plan.query size offset],
        items ++ plan.extraction.items answer⟩ := by
  have hGoesOn : plan.isLast size answer = false := Bool.eq_false_iff.mpr (mt isLast_iff.mp h)
  simp only [turn, hGoesOn, Bool.false_eq_true, if_false, Int.natCast_add]

/-! ## All turns -/

/-- Answers that come after the end are not looked at. -/
theorem foldl_turn_returned {size : Int} :
    answers.foldl (plan.turn size) ⟨none, queries, items⟩ = ⟨none, queries, items⟩ := by
  induction answers with
  | nil => rfl
  | cons answer rest ih => exact ih

/-- As long as no answer ends the loop, it goes on by the size of a page each time. -/
theorem foldl_turn_asking (h : ∀ answer ∈ answers, ¬ plan.Ends size answer) :
    answers.foldl (plan.turn size) ⟨some offset, queries, items⟩ =
      ⟨some (offset + answers.length * size : Nat),
        queries ++ plan.queries size offset answers.length,
        items ++ answers.flatMap plan.extraction.items⟩ := by
  induction answers generalizing offset queries items with
  | nil => simp [queries_zero]
  | cons answer rest ih =>
    obtain ⟨hFirst, hRest⟩ := List.forall_mem_cons.mp h
    have hPlace : offset + (rest.length + 1) * size = offset + size + rest.length * size := by
      rw [Nat.add_one_mul]
      omega
    rw [List.foldl_cons, turn_of_not_ends hFirst, ih hRest, List.length_cons, hPlace, queries_succ,
      List.flatMap_cons, List.append_assoc, List.append_assoc, List.singleton_append]

theorem queries_concat (fetches : Nat) : plan.queries size 0 (fetches + 1) =
    plan.queries size 0 fetches ++ [plan.query size (fetches * size : Nat)] := by
  rw [PaginationPlan.queries, PaginationPlan.queries, List.range_succ, List.map_append,
    List.map_singleton, Nat.zero_add]

theorem after_of_not_ends (h : ∀ answer ∈ answers, ¬ plan.Ends size answer) :
    plan.after size answers = ⟨some (answers.length * size : Nat),
      plan.queries size 0 answers.length, answers.flatMap plan.extraction.items⟩ := by
  have hTurns : answers.foldl (plan.turn size) ⟨some (0 : Nat), [], []⟩ = _ := foldl_turn_asking h
  rwa [Nat.zero_add] at hTurns

/-- The first answer that ends the loop is the last one that is looked at. -/
theorem after_of_ends {last : Value} {rest : List Value}
    (h : ∀ answer ∈ answers, ¬ plan.Ends size answer) (hLast : plan.Ends size last) :
    plan.after size (answers ++ last :: rest) = ⟨none, plan.queries size 0 (answers.length + 1),
      (answers ++ [last]).flatMap plan.extraction.items⟩ := by
  -- the turns before the last one, the last one, and those that change nothing
  have hBefore : answers.foldl (plan.turn size) {} = _ := after_of_not_ends h
  rw [after, List.foldl_append, hBefore, List.foldl_cons, turn_of_ends hLast, foldl_turn_returned,
    queries_concat, List.flatMap_append, List.flatMap_singleton]

/-! ## What is collected -/

/-- Where no answer is left there is null, which ends the loop. -/
theorem foldl_turn_null (plan : PaginationPlan) (size : Int) (answers : List Value)
    (offset : Int) (queries : List Entries) (items : List Value) :
    (answers ++ [Value.null]).foldl (plan.turn size) ⟨some offset, queries, items⟩ =
      ⟨none, queries ++ (plan.collectFrom size offset answers).1,
        items ++ (plan.collectFrom size offset answers).2⟩ := by
  induction answers generalizing offset queries items with
  | nil => rfl
  | cons answer rest ih =>
    rw [List.cons_append, List.foldl_cons, collectFrom]
    cases hLast : plan.isLast size answer with
    | true =>
      simp only [turn, hLast, if_true]
      exact foldl_turn_returned
    | false =>
      simp only [turn, hLast, Bool.false_eq_true, if_false]
      rw [ih, List.append_assoc, List.append_assoc, List.singleton_append]

/-- What is collected is what the turns of the loop bring. -/
theorem after_null (plan : PaginationPlan) (limit : Option Int) (answers : List Value) :
    plan.after (plan.sizeFor limit) (answers ++ [Value.null]) =
      ⟨none, (plan.collect answers limit).1, (plan.collect answers limit).2⟩ :=
  foldl_turn_null plan (plan.sizeFor limit) answers 0 [] []

/-- The offset that a query asks for. -/
theorem offset_query (plan : PaginationPlan) (size offset : Int) :
    Entries.getOrNull (plan.query size offset) plan.offsetParam = .int offset := by
  have hSet : plan.query size offset =
      Entries.set (Entries.set [] plan.limitParam (.int size)) plan.offsetParam (.int offset) := rfl
  rw [Entries.getOrNull, hSet, Entries.get?_set, if_pos rfl, Option.getD_some]

/-- Queries in a row ask for one page after another, each of them once. -/
theorem offsets_queries (plan : PaginationPlan) (size fetches : Nat) :
    (plan.queries size 0 fetches).map (fun q => Entries.getOrNull q plan.offsetParam) =
      (List.range fetches).map fun i => .int (i * size : Nat) := by
  rw [PaginationPlan.queries, List.map_map]
  refine List.map_congr_left fun i _ => ?_
  rw [Function.comp_apply, offset_query, Nat.zero_add]

theorem nodup_queries (plan : PaginationPlan) (hSize : 0 < size) (fetches : Nat) :
    (plan.queries size 0 fetches).Nodup := by
  refine List.Nodup.of_map (fun q => Entries.getOrNull q plan.offsetParam) ?_
  rw [offsets_queries]
  refine List.Nodup.map (fun i j hSame => ?_) List.nodup_range
  -- the offsets tell the queries apart, since a page is not empty
  have hOffsets : ((i * size : Nat) : Int) = (j * size : Nat) := by
    injection hSame with hScalar
    injection hScalar
  exact Nat.eq_of_mul_eq_mul_right hSize (Int.natCast_inj.mp hOffsets)

/-- **A paging loop reads up to the first answer that ends it**, whatever the answers are. Its
queries ask for one page after another, each of them once. As long as no answer has ended it, it
goes on: it has asked for as many pages as it has got answers and has taken in all their items. With
the first answer that ends it, it returns the items of all answers up to that one, and what comes
later is not looked at. If no answer ends the loop, it never returns. -/
theorem collects_until_end {limit : Option Int} (hSize : 0 < size)
    (hLimit : plan.sizeFor limit = size) :
    (∀ fetches, (plan.queries size 0 fetches).Nodup ∧
      (plan.queries size 0 fetches).map (fun q => Entries.getOrNull q plan.offsetParam) =
        (List.range fetches).map fun i => .int (i * size : Nat)) ∧
    (∀ answers, (∀ answer ∈ answers, ¬ plan.Ends size answer) →
      plan.after (plan.sizeFor limit) answers = ⟨some (answers.length * size : Nat),
        plan.queries size 0 answers.length, answers.flatMap plan.extraction.items⟩) ∧
    (∀ answers last rest, (∀ answer ∈ answers, ¬ plan.Ends size answer) → plan.Ends size last →
      plan.after (plan.sizeFor limit) (answers ++ last :: rest) = ⟨none,
        plan.queries size 0 (answers.length + 1),
        (answers ++ [last]).flatMap plan.extraction.items⟩ ∧
      plan.collect (answers ++ last :: rest) limit =
        (plan.queries size 0 (answers.length + 1),
          (answers ++ [last]).flatMap plan.extraction.items)) ∧
    ∀ answers : Nat → Value,
      (∃ n, (plan.after (plan.sizeFor limit) ((List.range n).map answers)).next = none) ↔
        ∃ k, plan.Ends size (answers k) := by
  have hReturns (answers : List Value) (last : Value) (rest : List Value)
      (hOn : ∀ answer ∈ answers, ¬ plan.Ends size answer) (hLast : plan.Ends size last) :
      plan.collect (answers ++ last :: rest) limit =
        (plan.queries size 0 (answers.length + 1),
          (answers ++ [last]).flatMap plan.extraction.items) := by
    have hCollect := after_null plan limit (answers ++ last :: rest)
    rw [hLimit, List.append_assoc, List.cons_append, after_of_ends hOn hLast] at hCollect
    injection hCollect with _ hQueries hItems
    exact Prod.ext hQueries.symm hItems.symm
  rw [hLimit]
  refine ⟨fun fetches => ⟨nodup_queries plan hSize fetches, offsets_queries plan size fetches⟩,
    fun answers hOn => after_of_not_ends hOn,
    fun answers last rest hOn hLast =>
      ⟨after_of_ends hOn hLast, hReturns answers last rest hOn hLast⟩,
    fun answers => ⟨?_, ?_⟩⟩
  · rintro ⟨n, hReturned⟩
    -- answers that do not end the loop leave an offset to ask for
    by_contra hNone
    rw [not_exists] at hNone
    rw [after_of_not_ends] at hReturned
    · cases hReturned
    · intro answer hMem
      obtain ⟨k, -, rfl⟩ := List.mem_map.mp hMem
      exact hNone k
  · intro hSome
    -- the loop returns at the first of the answers that end it
    classical
    obtain ⟨k, hLast, hOn⟩ : ∃ k, plan.Ends size (answers k) ∧
        ∀ j < k, ¬ plan.Ends size (answers j) :=
      ⟨Nat.find hSome, Nat.find_spec hSome, fun j hj => Nat.find_min hSome hj⟩
    refine ⟨k + 1, ?_⟩
    rw [List.range_succ, List.map_append, List.map_singleton, after_of_ends _ hLast]
    intro answer hMem
    obtain ⟨j, hj, rfl⟩ := List.mem_map.mp hMem
    exact hOn j (List.mem_range.mp hj)

/-- A full page that says that there is more, and one that says so by a text only. What comes after
them is not looked at. -/
theorem collects_until_end_tasks :
    let plan : PaginationPlan := { extraction := ⟨.property, some "tasks"⟩ }
    let page (flag : Value) : Value :=
      .object [("tasks", .list [.int 1, .int 2]), ("has_more", flag)]
    0 < 2 ∧ plan.sizeFor (some 2) = (2 : Nat) ∧
    ¬ plan.Ends 2 (page (.bool true)) ∧ plan.Ends 2 (page (.str "true")) ∧
    plan.collect [page (.bool true), page (.str "true"), page (.bool true)] (some 2) =
      (plan.queries 2 0 2, [.int 1, .int 2, .int 1, .int 2]) := by
  intro plan page
  have hOn : ¬ plan.Ends 2 (page (.bool true)) := fun h => nomatch isLast_iff.mpr h
  have hLast : plan.Ends 2 (page (.str "true")) := isLast_iff.mp rfl
  have hSize : plan.sizeFor (some 2) = (2 : Nat) := rfl
  have hRuns := collects_until_end (by decide) hSize
  refine ⟨by decide, rfl, hOn, hLast, ?_⟩
  exact (hRuns.2.2.1 [page (.bool true)] _ [page (.bool true)]
    (List.forall_mem_singleton.mpr hOn) hLast).2

end IntegrationCompiler.PaginationPlan
