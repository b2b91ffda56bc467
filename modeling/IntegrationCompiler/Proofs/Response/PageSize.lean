import IntegrationCompiler.Proofs.Diagnostics.Fails
import IntegrationCompiler.Proofs.Request.Unions
import IntegrationCompiler.Proofs.Response.Turns
import IntegrationCompiler.Response.OfEndpoint

/-!
# The size of a page

The limit that is fixed in a configuration may be any value. What counts is the number that it is or
that its text spells, and of a positive number the whole part. So a loop over pages advances with
every turn, except that a limit between zero and one leaves pages without items, and an infinite one
leaves no page at all.

Main definitions:

* `limitValue?` — what a configured limit stands for;
* `PageSizeFor` — the size of a page for a limit;
* `PaginationPlan.Applies` — where a trigger pages.

Main results:

* `pageSizeOf_ok_iff`, `pageSizeOf_error_iff` — the size that is taken from a configured value;
* `PageSizeFor.pos_iff` — where a page has room for an item;
* `PaginationPlan.offset_lt_of_turn` — a loop over such pages advances;
* `PaginationPlan.paging_advances` — what becomes of an endpoint, for every configured limit.
-/

namespace IntegrationCompiler

open Logged Number

/-! ## Limits -/

/-- The exact value of a configured limit that is a number or a text that spells one. -/
def limitValue? (configured : Value) : Option ExactValue :=
  (toNumber? configured).bind value?

/-- The size of a page for a limit: the whole part of a positive number, and the usual size where
there is none. -/
inductive PageSizeFor : Option ExactValue → Int → Prop where
  | usual {limit : Option ExactValue} : (∀ v, limit = some v → v ≤ 0) →
    PageSizeFor limit usualPageSize
  | whole {r : ℚ} : 0 < r → PageSizeFor (some (.ofRat r)) ⌊r⌋

variable {configured : Value} {limit : Option ExactValue} {size : Int} {r : ℚ}

theorem ExactValue.ofRat_pos_iff : 0 < ofRat r ↔ 0 < r :=
  ofRat_strictMono.lt_iff_lt (a := 0)

/-- A limit that is not positive, a positive fraction, or infinity. -/
theorem limit_cases (limit : Option ExactValue) :
    (∀ v, limit = some v → v ≤ 0) ∨ (∃ r, 0 < r ∧ limit = some (.ofRat r)) ∨ limit = some ⊤ := by
  cases limit with
  | none => exact Or.inl fun v h => nomatch h
  | some v =>
    rcases le_or_gt v 0 with hNot | hPos
    · refine Or.inl fun w hw => ?_
      rwa [← Option.some.inj hw]
    · refine Or.inr ?_
      induction v using WithBot.recBotCoe with
      | bot => exact absurd hPos not_lt_bot
      | coe v =>
        induction v using WithTop.recTopCoe with
        | top => exact Or.inr rfl
        | coe r => exact Or.inl ⟨r, ExactValue.ofRat_pos_iff.mp hPos, rfl⟩

theorem pageSizeOf_usual (h : ∀ v, limitValue? configured = some v → v ≤ 0) :
    pageSizeOf configured = .ok usualPageSize := by
  rw [pageSizeOf]
  cases hNumber : toNumber? configured with
  | none => rfl
  | some n =>
    rw [limitValue?, hNumber, Option.bind_some] at h
    cases hValue : n.value? with
    | none =>
      -- a NaN is turned away at reading
      exact absurd (value?_eq_none_iff.mp hValue) (toNumber?_ne_nan hNumber)
    | some v => exact if_pos ((atMostZero_iff hValue).mpr (h v hValue))

/-- A positive limit is the value of a number. -/
theorem exists_number_of_limit {v : ExactValue} (hLimit : limitValue? configured = some v)
    (hPos : 0 < v) :
    ∃ n, toNumber? configured = some n ∧ n.value? = some v ∧ n.atMostZero = false := by
  obtain ⟨n, hNumber, hValue⟩ := Option.bind_eq_some_iff.mp hLimit
  refine ⟨n, hNumber, hValue, Bool.eq_false_iff.mpr fun hNot => ?_⟩
  exact not_le_of_gt hPos ((atMostZero_iff hValue).mp hNot)

theorem pageSizeOf_whole (hPos : 0 < r) (hLimit : limitValue? configured = some (.ofRat r)) :
    pageSizeOf configured = .ok ⌊r⌋ := by
  obtain ⟨n, hNumber, hValue, hAbove⟩ :=
    exists_number_of_limit hLimit (ExactValue.ofRat_pos_iff.mpr hPos)
  rw [pageSizeOf, hNumber]
  dsimp only
  rw [hAbove, if_neg Bool.false_ne_true]
  -- the fraction is cut off after the test of the sign, so nothing sees to it that an item is left
  cases n with
  | int n =>
    have hr : (n : ℚ) = r := ExactValue.ofRat_strictMono.injective (Option.some.inj hValue)
    rw [← hr, Int.floor_intCast]
  | float x =>
    dsimp only
    rw [Binary64.truncate?_of_pos hValue hPos]
    rfl

theorem pageSizeOf_infinite (hLimit : limitValue? configured = some ⊤) :
    pageSizeOf configured = .error .malformed := by
  obtain ⟨n, hNumber, hValue, hAbove⟩ := exists_number_of_limit hLimit (ExactValue.ofRat_lt_top 0)
  rw [pageSizeOf, hNumber]
  dsimp only
  rw [hAbove, if_neg Bool.false_ne_true]
  cases n with
  | int n => cases hValue
  | float x =>
    cases x with
    | nan => cases hValue
    | infinite negative => rfl
    | finite negative m q => cases hValue

/-- **The size of a page**, from any configured value. -/
theorem pageSizeOf_ok_iff :
    pageSizeOf configured = .ok size ↔ PageSizeFor (limitValue? configured) size := by
  constructor
  · intro h
    rcases limit_cases (limitValue? configured) with hNot | ⟨r, hPos, hLimit⟩ | hLimit
    · rw [pageSizeOf_usual hNot] at h
      cases h
      exact .usual hNot
    · rw [pageSizeOf_whole hPos hLimit] at h
      cases h
      rw [hLimit]
      exact .whole hPos
    · rw [pageSizeOf_infinite hLimit] at h
      cases h
  · intro h
    generalize hLimit : limitValue? configured = limit at h
    cases h with
    | usual hNot => exact pageSizeOf_usual (hLimit ▸ hNot)
    | whole hPos => exact pageSizeOf_whole hPos hLimit

/-- Every limit but infinity has a size of page. -/
theorem exists_pageSizeFor_iff : (∃ size, PageSizeFor limit size) ↔ limit ≠ some ⊤ := by
  constructor
  · rintro ⟨size, h⟩ rfl
    cases h with
    | usual hNot => exact absurd (hNot ⊤ rfl) (not_le_of_gt (ExactValue.ofRat_lt_top 0))
  · intro hFinite
    rcases limit_cases limit with hNot | ⟨r, hPos, rfl⟩ | hTop
    · exact ⟨_, .usual hNot⟩
    · exact ⟨_, .whole hPos⟩
    · exact absurd hTop hFinite

theorem pageSizeOf_error_iff :
    (∃ failure, pageSizeOf configured = .error failure) ↔ limitValue? configured = some ⊤ := by
  constructor
  · rintro ⟨failure, hError⟩
    by_contra hFinite
    obtain ⟨size, hSize⟩ := exists_pageSizeFor_iff.mpr hFinite
    cases hError.symm.trans (pageSizeOf_ok_iff.mpr hSize)
  · exact fun hLimit => ⟨.malformed, pageSizeOf_infinite hLimit⟩

/-- A page has room for an item, unless the limit lies between zero and one. -/
theorem PageSizeFor.pos_iff (h : PageSizeFor limit size) :
    1 ≤ size ↔ ¬ ∃ r, 0 < r ∧ r < 1 ∧ limit = some (.ofRat r) := by
  cases h with
  | usual hNot =>
    refine iff_of_true (by decide) ?_
    rintro ⟨r, hPos, -, hLimit⟩
    exact not_le_of_gt (ExactValue.ofRat_pos_iff.mpr hPos) (hNot _ hLimit)
  | @whole r hPos =>
    -- a whole part is at least one exactly if the number is
    rw [Int.le_floor, Int.cast_one]
    constructor
    · rintro hOne ⟨s, -, hSmall, hLimit⟩
      rw [ExactValue.ofRat_strictMono.injective (Option.some.inj hLimit)] at hOne
      exact not_lt_of_ge hOne hSmall
    · intro h
      exact le_of_not_gt fun hSmall => h ⟨r, hPos, hSmall, rfl⟩

/-! ## Paging -/

namespace PaginationPlan

/-- Where a trigger pages: it is shown, its endpoint takes limit and offset, and the answer is a
list in a property or says whether there is more. -/
structure Applies (e : Endpoint) (extraction : ArrayExtraction) (hidden : Bool) : Prop where
  shown : hidden = false
  takesLimit : ∃ p ∈ e.queryParameters, p.name = "limit"
  takesOffset : ∃ p ∈ e.queryParameters, p.name = "offset"
  ends : Entries.has (Schema.properties (.optionalEntries e.successSchema?)) "has_more" ∨
    extraction.kind = .property

variable {e : Endpoint} {extraction : ArrayExtraction} {hidden : Bool} {fixed : Entries}

theorem applies_iff : Applies e extraction hidden ↔
    (hidden || !(e.queryParameters.any (·.name == "limit")) ||
      !(e.queryParameters.any (·.name == "offset")) ||
      !(Entries.has (Schema.properties (.optionalEntries e.successSchema?)) "has_more" ||
        extraction.kind == .property)) = false := by
  simp only [Bool.or_eq_false_iff, Bool.not_eq_false', List.any_eq_true, Bool.or_eq_true,
    beq_iff_eq]
  constructor
  · rintro ⟨hShown, hLimit, hOffset, hEnds⟩
    exact ⟨⟨⟨hShown, hLimit⟩, hOffset⟩, hEnds⟩
  · rintro ⟨⟨⟨hShown, hLimit⟩, hOffset⟩, hEnds⟩
    exact ⟨hShown, hLimit, hOffset, hEnds⟩

/-- A trigger that pages has a plan, if its pages have a size. -/
theorem on_ofEndpoint?_of_applies (h : Applies e extraction hidden) (log : Log) :
    ((ofEndpoint? e extraction hidden fixed).on log).1 =
      (pageSizeOf (Entries.getOrNull fixed "limit")).map fun size =>
        some { pageSize := size, extraction := extraction } := by
  have hPages := applies_iff.mp h
  unfold ofEndpoint?
  dsimp only
  rw [hPages, if_neg Bool.false_ne_true, on_bind]
  cases pageSizeOf (Entries.getOrNull fixed "limit") with
  | ok size => rfl
  | error failure => rfl

theorem on_ofEndpoint?_of_not_applies (h : ¬ Applies e extraction hidden) (log : Log) :
    ((ofEndpoint? e extraction hidden fixed).on log).1 = .ok none := by
  have hPages := eq_true_of_ne_false (mt applies_iff.mpr h)
  unfold ofEndpoint?
  dsimp only
  rw [hPages, if_pos rfl]
  rfl

variable {made : Option PaginationPlan}

/-- The plans that are made. -/
theorem returns_ofEndpoint?_iff : (ofEndpoint? e extraction hidden fixed).Returns made ↔
    (¬ Applies e extraction hidden ∧ made = none) ∨
    (Applies e extraction hidden ∧
      ∃ size, PageSizeFor (limitValue? (Entries.getOrNull fixed "limit")) size ∧
        made = some { pageSize := size, extraction := extraction }) := by
  by_cases hApplies : Applies e extraction hidden
  -- the outcome does not depend on the log
  · simp only [Returns, on_ofEndpoint?_of_applies hApplies, exists_const, hApplies, not_true,
      false_and, true_and, false_or, ← pageSizeOf_ok_iff]
    cases pageSizeOf (Entries.getOrNull fixed "limit") with
    | error failure => simp [Except.map]
    | ok size => simp [Except.map, eq_comm]
  · simp only [Returns, on_ofEndpoint?_of_not_applies hApplies, exists_const, hApplies,
      not_false_eq_true, false_and, true_and, or_false, Except.ok.injEq, eq_comm]

/-- No plan can be made for an infinite limit. -/
theorem fails_ofEndpoint?_iff : (∃ failure, (ofEndpoint? e extraction hidden fixed).Fails failure) ↔
    Applies e extraction hidden ∧ limitValue? (Entries.getOrNull fixed "limit") = some ⊤ := by
  by_cases hApplies : Applies e extraction hidden
  · simp only [Fails, on_ofEndpoint?_of_applies hApplies, exists_const, hApplies, true_and,
      ← pageSizeOf_error_iff]
    cases pageSizeOf (Entries.getOrNull fixed "limit") with
    | error failure => simp [Except.map]
    | ok size => simp [Except.map]
  · simp only [Fails, on_ofEndpoint?_of_not_applies hApplies, hApplies, false_and, reduceCtorEq,
      exists_const, exists_false]

/-- A turn that is not the last one advances, if a page has room for an item. -/
theorem offset_lt_of_turn {plan : PaginationPlan} {p : Progress} {answer : Value}
    {offset next : Int} (hSize : 1 ≤ size) (hFrom : p.next = some offset)
    (hTo : (plan.turn size p answer).next = some next) : offset < next := by
  rw [turn, hFrom] at hTo
  dsimp only at hTo
  split at hTo
  · cases hTo
  · rw [← Option.some.inj hTo]
    omega

/-- **Paging advances**, whatever limit is configured. A trigger that does not page has no plan. One
that pages fails exactly if the limit is infinite; otherwise it has a plan, with pages of the size
for that limit. These have room for an item unless the limit lies between zero and one, and where
they have, each turn of the loop that is not the last one moves the offset forward. -/
theorem paging_advances (e : Endpoint) (extraction : ArrayExtraction) (hidden : Bool)
    (fixed : Entries) :
    let planning := ofEndpoint? e extraction hidden fixed
    let limit := limitValue? (Entries.getOrNull fixed "limit")
    (planning.Returns none ↔ ¬ Applies e extraction hidden) ∧
    ((∃ failure, planning.Fails failure) ↔ Applies e extraction hidden ∧ limit = some ⊤) ∧
    ((∃ plan, planning.Returns (some plan)) ↔ Applies e extraction hidden ∧ limit ≠ some ⊤) ∧
    ∀ plan, planning.Returns (some plan) →
      PageSizeFor limit plan.pageSize ∧
      (1 ≤ plan.pageSize ↔ ¬ ∃ r, 0 < r ∧ r < 1 ∧ limit = some (.ofRat r)) ∧
      (1 ≤ plan.pageSize → ∀ p answer offset next, p.next = some offset →
        (plan.turn (plan.sizeFor none) p answer).next = some next → offset < next) := by
  intro planning limit
  have hPlan {plan : PaginationPlan} (h : planning.Returns (some plan)) :
      Applies e extraction hidden ∧ PageSizeFor limit plan.pageSize := by
    rcases returns_ofEndpoint?_iff.mp h with ⟨-, hNone⟩ | ⟨hApplies, size, hSize, hMade⟩
    · cases hNone
    · cases hMade
      exact ⟨hApplies, hSize⟩
  refine ⟨⟨fun h => ?_, fun h => returns_ofEndpoint?_iff.mpr (Or.inl ⟨h, rfl⟩)⟩,
    fails_ofEndpoint?_iff, ⟨?_, ?_⟩, fun plan h => ?_⟩
  · rcases returns_ofEndpoint?_iff.mp h with ⟨hNot, -⟩ | ⟨-, size, -, hMade⟩
    · exact hNot
    · cases hMade
  · rintro ⟨plan, h⟩
    obtain ⟨hApplies, hSize⟩ := hPlan h
    exact ⟨hApplies, exists_pageSizeFor_iff.mp ⟨_, hSize⟩⟩
  · rintro ⟨hApplies, hFinite⟩
    obtain ⟨size, hSize⟩ := exists_pageSizeFor_iff.mpr hFinite
    exact ⟨_, returns_ofEndpoint?_iff.mpr (Or.inr ⟨hApplies, size, hSize, rfl⟩)⟩
  · have hSize := (hPlan h).2
    exact ⟨hSize, hSize.pos_iff, fun hRoom _ _ _ _ hFrom hTo => offset_lt_of_turn hRoom hFrom hTo⟩

/-- Tasks, a page of them at a time. -/
def pagedTasks : Endpoint where
  path := "/tasks"
  method := .get
  parameters := [{ name := "limit", location := .query }, { name := "offset", location := .query }]
  responses := [("200", { statusCode := "200", schema := some [
    (.str "type", .str "object"),
    (.str "properties", .object [("tasks", .object [("type", .str "array")])])] })]

/-- A limit that is a text. -/
theorem paging_advances_pagedTasks :
    let tasks : ArrayExtraction := ⟨.property, some "tasks"⟩
    let plan : PaginationPlan := { pageSize := 2, extraction := tasks }
    let answer : Value := .object [("tasks", .list [.int 1, .int 2]), ("has_more", .bool true)]
    (ofEndpoint? pagedTasks tasks false [(.str "limit", .str " 2 ")]).Returns (some plan) ∧
      1 ≤ plan.pageSize ∧ (plan.turn (plan.sizeFor none) {} answer).next = some 2 ∧
      (0 : Int) < 2 := by
  intro tasks plan answer
  have hPlan : (ofEndpoint? pagedTasks tasks false [(.str "limit", .str " 2 ")]).Returns
      (some plan) := ⟨[], rfl⟩
  obtain ⟨-, -, -, hPages⟩ := paging_advances pagedTasks tasks false [(.str "limit", .str " 2 ")]
  obtain ⟨-, -, hAdvances⟩ := hPages plan hPlan
  exact ⟨hPlan, by decide, rfl, hAdvances (by decide) {} answer 0 2 rfl rfl⟩

/-- A limit of a half leaves pages of no items. An empty page that says that there is more is then
asked for again, at the same offset. And no plan can be made for an infinite limit. -/
theorem paging_stands_still :
    let tasks : ArrayExtraction := ⟨.property, some "tasks"⟩
    let plan : PaginationPlan := { pageSize := 0, extraction := tasks }
    let answer : Value := .object [("tasks", .list []), ("has_more", .bool true)]
    (ofEndpoint? pagedTasks tasks false [(.str "limit", .float (.finite false 1 (-1)))]).Returns
      (some plan) ∧
    (plan.turn (plan.sizeFor none) {} answer).next = some 0 ∧
    (ofEndpoint? pagedTasks tasks false [(.str "limit", .float (.infinite false))]).Fails
      .malformed :=
  ⟨⟨[], rfl⟩, rfl, [], rfl⟩

end PaginationPlan

end IntegrationCompiler
