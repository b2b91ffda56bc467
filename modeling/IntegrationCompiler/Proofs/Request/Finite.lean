import IntegrationCompiler.Proofs.Request.Merged
import IntegrationCompiler.Proofs.Request.Sent
import IntegrationCompiler.Proofs.Request.Unions

/-!
# Numbers that JSON does not have

A request is sent as JSON, which has no infinities and no NaN. A plan and inputs without them need
not make a request without them: where a number, a list or an object is wanted, a text is read, and
it may spell what JSON does not have. Helpers that are merged are read as numbers once more.

Main definitions:

* `Value.IsFinite` — no number in a value, however deep, is an infinity or a NaN;
* `SpellsNonfinite` — the texts that are read as something with such a number;
* `MergePlan.AddsNoInfinity` — a merge all of whose numbers are finite.

Main results:

* `readInput?_isFinite_iff` — what reading one input makes of it;
* `MergePlan.isFinite_apply_iff`, `MergePlan.isFinite_foldl_apply` — one merge, and several;
* `RequestPlan.build_isFinite` — when a whole request is finite;
* `RequestPlan.build_infinities` — texts for a number, a list, an object and a helper that are not.
-/

namespace IntegrationCompiler

/-! ## Finite values -/

/-- Not an infinity and not a NaN. -/
def Scalar.IsFinite : Scalar → Prop
  | .float x => ∃ negative m q, x = .finite negative m q
  | _ => True

namespace Value

/-- No number in a value, however deep, is an infinity or a NaN. -/
inductive IsFinite : Value → Prop where
  | scalar {s : Scalar} (h : s.IsFinite) : IsFinite (.scalar s)
  | list {items : List Value} (hItems : ∀ v ∈ items, IsFinite v) : IsFinite (.list items)
  | map {es : Entries} (hKeys : ∀ e ∈ es, e.1.IsFinite) (hValues : ∀ e ∈ es, IsFinite e.2) :
    IsFinite (.map es)
  | set {members : List Scalar} (h : ∀ s ∈ members, s.IsFinite) : IsFinite (.set members)

variable {items : List Value} {es : Entries} {v : Value}

@[simp] theorem isFinite_scalar_iff {s : Scalar} : IsFinite (.scalar s) ↔ s.IsFinite := by
  constructor
  · rintro (h | _ | _ | _)
    exact h
  · exact .scalar

@[simp] theorem isFinite_list_iff : IsFinite (.list items) ↔ ∀ v ∈ items, v.IsFinite := by
  constructor
  · intro h
    cases h with
    | list hItems => exact hItems
  · exact .list

@[simp] theorem isFinite_map_iff :
    IsFinite (.map es) ↔ ∀ e ∈ es, e.1.IsFinite ∧ e.2.IsFinite := by
  constructor
  · intro h
    cases h with
    | map hKeys hValues => exact fun e he => ⟨hKeys e he, hValues e he⟩
  · exact fun h => .map (fun e he => (h e he).1) fun e he => (h e he).2

theorem isFinite_str (s : String) : IsFinite (.str s) := .scalar trivial

theorem IsFinite.get? (h : IsFinite (.map es)) {key : String} (hv : Entries.get? es key = some v) :
    v.IsFinite :=
  (isFinite_map_iff.mp h _ (Entries.get?_eq_some_mem hv)).2

theorem IsFinite.getOrNull (h : IsFinite (.map es)) (key : String) :
    (Entries.getOrNull es key).IsFinite := by
  rw [Entries.getOrNull]
  cases hFound : Entries.get? es key with
  | none => exact .scalar trivial
  | some v => exact h.get? hFound

theorem isFinite_set (h : IsFinite (.map es)) (hv : v.IsFinite) (key : String) :
    IsFinite (.map (Entries.set es key v)) := by
  rw [isFinite_map_iff] at h ⊢
  rintro ⟨k, w⟩ hMem
  rcases Entries.mem_put hMem with ⟨rfl, rfl | hSame⟩ | hOld
  · exact ⟨trivial, hv⟩
  · rw [Scalar.same_str.mp hSame]
    exact ⟨trivial, hv⟩
  · exact h _ hOld

/-- An input is as finite as the inputs, wherever it is found. -/
theorem IsFinite.inputAt (h : IsFinite (.map es)) (key : String) (group : Option String) :
    (inputAt es key group).IsFinite := by
  have hAlone := h.getOrNull key
  have hJoined (g : String) : ((Entries.get? es (g ++ "__" ++ key)).getD
      (Entries.getOrNull es key)).IsFinite := by
    cases hFound : Entries.get? es (g ++ "__" ++ key) with
    | none => exact hAlone
    | some v => exact h.get? hFound
  unfold IntegrationCompiler.inputAt
  dsimp only
  split
  · exact hAlone
  · exact hAlone
  · next g _ =>
    split
    · next entries hGroup =>
      cases hFound : Entries.get? entries key with
      | none => exact hJoined g
      | some v => exact (h.get? hGroup).get? hFound
    · exact hJoined g

end Value

/-! ## Numbers -/

/-- A text that is read as an infinity, by name or as a numeral that is too large. -/
def SpellsInfinity (cs : List Char) : Prop :=
  ∃ negative, Number.ofNumeral? cs = some (.float (.infinite negative))

variable {v w : Value}

theorem isFinite_ofNumber_iff {n : Number} (hNumber : n ≠ .float .nan) :
    (Value.ofNumber n).IsFinite ↔ ∀ negative, n ≠ .float (.infinite negative) := by
  cases n with
  | int => exact iff_of_true (.scalar trivial) nofun
  | float x =>
    cases x with
    | nan => exact absurd rfl hNumber
    | infinite negative =>
      refine iff_of_false (fun h => ?_) fun h => h negative rfl
      obtain ⟨_, _, _, hSame⟩ := Value.isFinite_scalar_iff.mp h
      cases hSame
    | finite negative m q => exact iff_of_true (.scalar ⟨_, _, _, rfl⟩) nofun

/-- Of finite values only texts are read as infinities. -/
theorem toNumber?_infinite_iff (hv : v.IsFinite) :
    (∃ negative, toNumber? v = some (.float (.infinite negative))) ↔
      ∃ s, v = .str s ∧ SpellsInfinity (Text.trim s.toList) := by
  constructor
  · rintro ⟨negative, h⟩
    have hNumber := (Option.filter_eq_some_iff.mp h).1
    cases v with
    | scalar s =>
      cases s with
      | str s => exact ⟨s, rfl, negative, hNumber⟩
      | float x =>
        cases hNumber
        obtain ⟨_, _, _, hSame⟩ := Value.isFinite_scalar_iff.mp hv
        cases hSame
      | _ => cases hNumber
    | _ => cases hNumber
  · rintro ⟨s, rfl, negative, hSpells⟩
    exact ⟨negative, Option.filter_eq_some_iff.mpr ⟨hSpells, rfl⟩⟩

/-- A finite value that is replaced by the number it stands for stays finite, unless it spells an
infinity. -/
theorem isFinite_numberOr_iff (hv : v.IsFinite) :
    (((toNumber? v).map Value.ofNumber).getD v).IsFinite ↔
      ∀ negative, toNumber? v ≠ some (.float (.infinite negative)) := by
  cases hNumber : toNumber? v with
  | none => exact iff_of_true hv nofun
  | some n =>
    rw [Option.map_some, Option.getD_some, isFinite_ofNumber_iff (toNumber?_ne_nan hNumber)]
    exact forall_congr' fun negative => not_congr (Option.some_inj).symm

/-! ## Lists -/

/-- A text without outer blanks that is read as a JSON list. -/
def IsJsonList (cs : List Char) (items : List Value) : Prop :=
  cs.head? = some '[' ∧ Json.parse (String.ofList cs) = .ok (.list items)

theorem isFinite_listPiece_iff {piece : List Char} :
    (listPiece piece).IsFinite ↔ ¬ SpellsInfinity piece := by
  unfold listPiece SpellsInfinity
  split
  · next hNan =>
    rw [hNan]
    exact iff_of_true (.scalar trivial) nofun
  · next n hNotNan hNumber =>
    rw [isFinite_ofNumber_iff hNotNan, hNumber, not_exists]
    exact forall_congr' fun negative => not_congr (Option.some_inj).symm
  · next hNone =>
    rw [hNone]
    exact iff_of_true (.scalar trivial) nofun

/-- The empty piece is no number. -/
theorem not_spellsInfinity_nil : ¬ SpellsInfinity [] := nofun

theorem isFinite_commaPieces_iff {cs : List Char} : (∀ v ∈ commaPieces cs, v.IsFinite) ↔
    ∀ piece ∈ Text.splitAt ',' cs, ¬ SpellsInfinity (Text.trim piece) := by
  rw [commaPieces, List.forall_mem_map]
  constructor
  · intro h piece hPiece hSpells
    have hSome : (!(Text.trim piece).isEmpty) = true := by
      cases hTrim : Text.trim piece with
      | nil => exact absurd (hTrim ▸ hSpells) not_spellsInfinity_nil
      | cons => rfl
    have hKept : Text.trim piece ∈ ((Text.splitAt ',' cs).map Text.trim).filter (!·.isEmpty) :=
      List.mem_filter.mpr ⟨List.mem_map_of_mem hPiece, hSome⟩
    exact isFinite_listPiece_iff.mp (h _ hKept) hSpells
  · intro h piece hPiece
    obtain ⟨original, hOriginal, rfl⟩ := List.mem_map.mp (List.mem_filter.mp hPiece).1
    exact isFinite_listPiece_iff.mpr (h original hOriginal)

/-- A text is a JSON list, or is taken apart at its commas. -/
theorem listOfText_cases (s : String) :
    (∃ items, IsJsonList (Text.trim s.toList) items ∧ listOfText s = items) ∨
      (∀ items, ¬ IsJsonList (Text.trim s.toList) items) ∧
        listOfText s = commaPieces (Text.trim s.toList) := by
  unfold listOfText IsJsonList
  dsimp only
  by_cases hBracket : (Text.trim s.toList).head? = some '['
  · rw [if_pos (beq_iff_eq.mpr hBracket)]
    split
    · next items hParse => exact Or.inl ⟨items, ⟨hBracket, hParse⟩, rfl⟩
    · next hNoList => exact Or.inr ⟨fun items hList => hNoList items hList.2, rfl⟩
  · rw [if_neg (mt beq_iff_eq.mp hBracket)]
    exact Or.inr ⟨fun _ hList => hBracket hList.1, rfl⟩

/-! ## One input -/

/-- The texts that are read as something with a number that JSON does not have. -/
inductive SpellsNonfinite : ValueKind → Value → Prop where
  | number {s : String} : SpellsInfinity (Text.trim s.toList) → SpellsNonfinite .number (.str s)
  | items {s : String} {items : List Value} {item : Value} :
    IsJsonList (Text.trim s.toList) items → item ∈ items → ¬ item.IsFinite →
    SpellsNonfinite .array (.str s)
  | piece {s : String} {piece : List Char} :
    (∀ items, ¬ IsJsonList (Text.trim s.toList) items) →
    piece ∈ Text.splitAt ',' (Text.trim s.toList) → SpellsInfinity (Text.trim piece) →
    SpellsNonfinite .array (.str s)
  | object {s : String} {w : Value} : Json.parse s = .ok w → ¬ w.IsFinite →
    SpellsNonfinite .object (.str s)

theorem isFinite_listOfText_iff {s : String} :
    (∀ item ∈ listOfText s, item.IsFinite) ↔ ¬ SpellsNonfinite .array (.str s) := by
  rcases listOfText_cases s with ⟨items, hList, hRead⟩ | ⟨hNoList, hRead⟩
  · rw [hRead]
    constructor
    · intro h hSpells
      cases hSpells with
      | items hOther hItem hBad =>
        cases Except.ok.inj (hList.2.symm.trans hOther.2)
        exact hBad (h _ hItem)
      | piece hNone _ _ => exact hNone items hList
    · intro h item hItem
      by_contra hBad
      exact h (.items hList hItem hBad)
  · rw [hRead, isFinite_commaPieces_iff]
    constructor
    · intro h hSpells
      cases hSpells with
      | items hList _ _ => exact hNoList _ hList
      | piece _ hPiece hInfinity => exact h _ hPiece hInfinity
    · exact fun h piece hPiece hInfinity => h (.piece hNoList hPiece hInfinity)

/-- **A finite input is read as something finite**, unless it is a text that spells what is not. -/
theorem readInput?_isFinite_iff {kind : ValueKind} {dynamic : Bool} (hv : v.IsFinite)
    (h : readInput? kind v dynamic = some w) : w.IsFinite ↔ ¬ SpellsNonfinite kind v := by
  obtain ⟨-, hReads⟩ := readsAs_of_readInput? h
  cases hReads with
  | string => exact iff_of_true hv nofun
  | date => exact iff_of_true (.scalar trivial) nofun
  | boolean => exact iff_of_true (.scalar trivial) nofun
  | number =>
    rw [isFinite_numberOr_iff hv, ← not_exists, toNumber?_infinite_iff hv]
    refine not_congr ⟨?_, fun hSpells => ?_⟩
    · rintro ⟨s, rfl, hSpells⟩
      exact .number hSpells
    · cases hSpells with
      | @number s hSpells => exact ⟨s, rfl, hSpells⟩
  | array =>
    rw [Value.isFinite_list_iff]
    unfold asListInput
    -- only a text is taken apart
    split
    · exact iff_of_true nofun nofun
    · exact iff_of_true (Value.isFinite_list_iff.mp hv) nofun
    · exact isFinite_listOfText_iff
    · next hNoText =>
      refine iff_of_true (List.forall_mem_singleton.mpr hv) fun hSpells => ?_
      cases hSpells with
      | items => exact hNoText _ rfl
      | piece => exact hNoText _ rfl
  | json hParse =>
    refine ⟨fun hFinite hSpells => ?_, fun hNot => ?_⟩
    · cases hSpells with
      | object hOther hBad =>
        cases hParse.symm.trans hOther
        exact hBad hFinite
    · by_contra hBad
      exact hNot (.object hParse hBad)
  | text hParse =>
    refine iff_of_true hv fun hSpells => ?_
    cases hSpells with
    | object hOther _ => cases hParse.symm.trans hOther
  | other hNoText =>
    refine iff_of_true hv fun hSpells => ?_
    cases hSpells with
    | object => exact hNoText _ rfl

/-- A text that spells such a number is not empty, and so it is read. -/
theorem SpellsNonfinite.read {kind : ValueKind} (h : SpellsNonfinite kind v) (dynamic : Bool) :
    ∃ w, readInput? kind v dynamic = some w ∧ ¬ w.IsFinite := by
  have hText : ∃ s, v = .str s := by
    cases h <;> exact ⟨_, rfl⟩
  obtain ⟨s, rfl⟩ := hText
  have hProvided : isUnprovided (.str s) = false := by
    refine Bool.eq_false_iff.mpr fun hEmpty => ?_
    rw [String.isEmpty_iff.mp hEmpty] at h
    cases h with
    | number hSpells => exact not_spellsInfinity_nil hSpells
    | items hList _ _ => cases hList.1
    | piece _ hPiece hSpells =>
      cases List.mem_singleton.mp hPiece
      exact not_spellsInfinity_nil hSpells
    | object hParse _ => cases hParse
  have hChosen : kind = .number → ∃ n, toNumber? (.str s) = some n ∧ n.isZero = false := by
    rintro rfl
    cases h with
    | number hSpells =>
      obtain ⟨negative, hNumber⟩ :=
        (toNumber?_infinite_iff (Value.isFinite_str s)).mpr ⟨s, rfl, hSpells⟩
      exact ⟨_, hNumber, rfl⟩
  obtain ⟨w, hRead⟩ := exists_readInput? hProvided hChosen
  exact ⟨w, hRead, fun hFinite =>
    (readInput?_isFinite_iff (Value.isFinite_str s) hRead).mp hFinite h⟩

/-! ## Merges -/

/-- Only one double lies above everything. -/
theorem Number.value?_eq_top_iff {n : Number} :
    n.value? = some ⊤ ↔ n = .float (.infinite false) := by
  constructor
  · intro h
    cases n with
    | int n => exact absurd (Option.some.inj h) (ExactValue.ofRat_lt_top _).ne
    | float x =>
      cases x with
      | nan => cases h
      | infinite negative =>
        cases negative with
        | false => rfl
        | true => exact absurd (Option.some.inj h) bot_ne_top
      | finite negative m q => exact absurd (Option.some.inj h) (ExactValue.ofRat_lt_top _).ne
  · rintro rfl
    rfl

theorem Number.isPositive_infinite_iff {negative : Bool} :
    IsPositive (.float (.infinite negative)) ↔ negative = false := by
  constructor
  · rintro ⟨v, hv, hAbove⟩
    cases negative with
    | false => rfl
    | true =>
      cases hv
      exact absurd hAbove not_lt_bot
  · rintro rfl
    exact ⟨⊤, rfl, ExactValue.ofRat_lt_top 0⟩

/-- A union holds an infinity exactly if some value is read as the positive one. -/
theorem infinite_mem_merge_iff {existing helpers : List Value} :
    (∃ negative, .float (.infinite negative) ∈ mergeHelperValues existing helpers) ↔
      ∃ v ∈ existing ++ helpers, toNumber? v = some (.float (.infinite false)) := by
  constructor
  · rintro ⟨negative, hMem⟩
    have hPositive := isPositive_of_mem_merge hMem
    cases Number.isPositive_infinite_iff.mp hPositive
    rw [mergeHelperValues_eq] at hMem
    have hRead := (List.mem_filter.mp (Number.firstsAfter_sublist.subset hMem)).1
    exact List.mem_filterMap.mp hRead
  · rintro ⟨v, hv, hNumber⟩
    have hPositive : Number.IsPositive (.float (.infinite false)) :=
      Number.isPositive_infinite_iff.mpr rfl
    have hRead : Number.float (.infinite false) ∈ positiveNumbers (existing ++ helpers) :=
      List.mem_filter.mpr ⟨List.mem_filterMap.mpr ⟨v, hv, hNumber⟩, decide_eq_true hPositive⟩
    -- its value is in the union, and no other number has that
    have hThere := (Number.mem_or_mem_firstsAfter hRead).resolve_left List.not_mem_nil
    obtain ⟨n, hn, hValue⟩ := List.mem_map.mp hThere
    cases Number.value?_eq_top_iff.mp hValue
    rw [mergeHelperValues_eq]
    exact ⟨false, hn⟩

namespace MergePlan

variable {m : MergePlan} {container inputs : Entries} {group : Option String}

/-- What a merge would add to a container has no infinities. A list gets all numbers above zero, and
another property the first helper value that is provided. -/
def AddsNoInfinity (m : MergePlan) (container inputs : Entries) (group : Option String) : Prop :=
  if m.targetIsArray then
    ∀ v ∈ asListInput (m.existing container inputs group) ++ m.helperValues inputs group,
      toNumber? v ≠ some (.float (.infinite false))
  else
    ∀ v ∈ (m.helperValues inputs group).find? fun v => !isUnprovided v, ∀ negative,
      toNumber? v ≠ some (.float (.infinite negative))

/-- A union is finite exactly if no value is read as the positive infinity. -/
theorem isFinite_union_iff : (∀ n ∈ m.union container inputs group, (Value.ofNumber n).IsFinite) ↔
    ∀ v ∈ asListInput (m.existing container inputs group) ++ m.helperValues inputs group,
      toNumber? v ≠ some (.float (.infinite false)) := by
  have hNone := not_congr (@infinite_mem_merge_iff
    (asListInput (m.existing container inputs group)) (m.helperValues inputs group))
  simp only [not_exists, not_and] at hNone
  rw [← hNone]
  constructor
  · intro h negative hMem
    have hNumber : Number.float (.infinite negative) ≠ .float .nan := by simp
    exact (isFinite_ofNumber_iff hNumber).mp (h _ hMem) negative rfl
  · intro h n hn
    refine (isFinite_ofNumber_iff (isPositive_of_mem_merge hn).ne_nan).mpr fun negative => ?_
    rintro rfl
    exact h negative hn

theorem isFinite_given?_iff (hInputs : (Value.map inputs).IsFinite) :
    (∀ v ∈ m.given? container inputs group, v.IsFinite) ↔
      m.AddsNoInfinity container inputs group := by
  unfold given? AddsNoInfinity
  split
  · rw [← isFinite_union_iff]
    split
    · next hEmpty =>
      -- an empty union is not given, but then it has no infinity either
      rw [List.isEmpty_iff.mp hEmpty]
      simp
    · simp
  · rw [firstValue?]
    cases hFirst : (m.helperValues inputs group).find? fun v => !isUnprovided v with
    | none => simp
    | some v =>
      obtain ⟨key, -, rfl⟩ := List.mem_map.mp (List.mem_of_find?_eq_some hFirst)
      simpa using isFinite_numberOr_iff (hInputs.inputAt key _)

/-- **A merge leaves a finite container finite** exactly if it adds no infinity. -/
theorem isFinite_apply_iff (hContainer : (Value.map container).IsFinite)
    (hInputs : (Value.map inputs).IsFinite) :
    (Value.map (m.apply container inputs group)).IsFinite ↔
      m.AddsNoInfinity container inputs group := by
  rw [apply_eq, ← isFinite_given?_iff hInputs]
  cases m.given? container inputs group with
  | none => exact iff_of_true hContainer nofun
  | some v =>
    constructor
    · rintro hSet w ⟨⟩
      exact hSet.get? ((Entries.get?_set container m.target m.target v).trans (if_pos rfl))
    · exact fun h => Value.isFinite_set hContainer (h v rfl) m.target

/-- None of several merges adds an infinity to what those before it have left. -/
def AllAddNoInfinity (merges : List MergePlan) (container inputs : Entries)
    (group : Option String) : Prop :=
  ∀ before m after, merges = before ++ m :: after →
    m.AddsNoInfinity (before.foldl (fun acc m => m.apply acc inputs group) container) inputs group

/-- **Merges that add no infinity leave a finite container finite.** -/
theorem isFinite_foldl_apply {merges : List MergePlan} (hInputs : (Value.map inputs).IsFinite)
    (hContainer : (Value.map container).IsFinite)
    (hAll : AllAddNoInfinity merges container inputs group) :
    (Value.map (merges.foldl (fun acc m => m.apply acc inputs group) container)).IsFinite := by
  -- on the merges in their order, for every container that those before have left finite
  induction merges generalizing container with
  | nil => exact hContainer
  | cons m rest ih =>
    have hFirst : m.AddsNoInfinity container inputs group := hAll [] m rest rfl
    refine ih ((isFinite_apply_iff hContainer hInputs).mpr hFirst) ?_
    rintro before m' after rfl
    exact hAll (m :: before) m' after rfl

end MergePlan

/-! ## Whole requests -/

theorem Entries.isFinite_setEach {α : Type} {name : α → String} {value? : α → Option Value}
    {as : List α} {es : Entries} (hStart : (Value.map es).IsFinite)
    (h : ∀ a ∈ as, ∀ v, value? a = some v → v.IsFinite) :
    (Value.map (setEach name value? as es)).IsFinite := by
  rw [Value.isFinite_map_iff]
  rintro ⟨k, v⟩ hMem
  rcases mem_setEach hMem with hOld | ⟨a, ha, rfl, hGiven⟩
  · exact Value.isFinite_map_iff.mp hStart _ hOld
  · exact ⟨trivial, h a ha v hGiven⟩

/-- None of the merges of a plan adds an infinity, to the item or to the body. -/
structure BodyPlan.AddsNoInfinity (b : BodyPlan) (inputs : Entries) : Prop where
  item : ∀ flatten ∈ b.flatten, MergePlan.AllAddNoInfinity (b.helperMerges.filter (·.inItem))
    (b.unmerged.item flatten inputs) inputs flatten.groupKey
  beside : MergePlan.AllAddNoInfinity (b.helperMerges.filter (!·.inItem)) (b.assembled inputs)
    inputs none

/-- What a plan has of itself is finite. -/
structure RequestPlan.IsFinite (plan : RequestPlan) : Prop where
  fixed : (Value.map plan.query.fixed).IsFinite
  defaults : ∀ b ∈ plan.body, (Value.map b.defaults).IsFinite

/-- A request has no infinities and no NaN in its query and in its body. -/
structure PreparedRequest.IsFinite (r : PreparedRequest) : Prop where
  query : (Value.map r.params).IsFinite
  body : r.jsonBody.IsFinite

namespace RequestPlan

variable {plan : RequestPlan} {inputs auth : Entries}

theorem Takes.isFinite {kind : ValueKind} {v : Value} {dynamic : Bool}
    (h : plan.Takes inputs kind v dynamic) (hInputs : (Value.map inputs).IsFinite) :
    v.IsFinite := by
  cases h with
  | query _ => exact hInputs.getOrNull _
  | body _ _ => exact hInputs.getOrNull _
  | item _ _ _ => exact hInputs.inputAt _ _

/-- If no text spells something else and no merge adds an infinity, a body is finite. -/
theorem isFinite_body {b : BodyPlan} (hb : plan.body = some b) (hPlan : plan.IsFinite)
    (hInputs : (Value.map inputs).IsFinite) (hReads : ∀ w, plan.Reads inputs w → w.IsFinite)
    (hMerges : b.AddsNoInfinity inputs) : (Value.map (b.build inputs)).IsFinite := by
  have hPlain : (Value.map (b.properties.foldl (b.addProperty inputs) [])).IsFinite := by
    rw [BodyPlan.foldl_addProperty_eq_setEach]
    refine Entries.isFinite_setEach (by simp) fun p hp v hStored => ?_
    rcases Option.or_eq_some_iff.mp hStored with hRead | ⟨-, hDefault⟩
    · exact hReads v ⟨_, _, _, .body hb hp, hRead⟩
    · exact (hPlan.defaults b hb).get? hDefault
  have hAssembled : (Value.map (b.assembled inputs)).IsFinite := by
    unfold BodyPlan.assembled
    dsimp only
    split
    · next flatten hFlatten =>
      have hUnmerged : (Value.map (b.unmerged.item flatten inputs)).IsFinite := by
        rw [BodyPlan.item_eq_setEach (b := b.unmerged) rfl]
        exact Entries.isFinite_setEach (by simp) fun p hp v hRead =>
          hReads v ⟨_, _, _, .item hb hFlatten hp, hRead⟩
      have hItem : (Value.map (b.item flatten inputs)).IsFinite :=
        MergePlan.isFinite_foldl_apply hInputs hUnmerged (hMerges.item flatten hFlatten)
      exact Value.isFinite_set hPlain (.list (List.forall_mem_singleton.mpr hItem)) _
    · exact hPlain
  rw [BodyPlan.build_eq]
  exact MergePlan.isFinite_foldl_apply hInputs hAssembled hMerges.beside

/-- What a finite request has of its inputs is finite. -/
theorem sends_of_isFinite (hMerges : ∀ b ∈ plan.body, b.helperMerges = [])
    (h : (plan.build inputs auth).IsFinite) :
    plan.Sends inputs Value.IsFinite (plan.build inputs auth) where
  query := fun _ _ _ _ hv => h.query.get? hv
  body := by
    intro b hb
    have hBody : (Value.map (b.build inputs)).IsFinite := by
      rw [← build_jsonBody hb]
      exact h.body
    exact ⟨_, build_jsonBody hb, fun _ _ _ hv => hBody.get? hv⟩
  item := by
    intro b hb flatten hFlatten
    have hBody : (Value.map (b.build inputs)).IsFinite := by
      rw [← build_jsonBody hb]
      exact h.body
    have hList : Entries.get? (b.build inputs) flatten.arrayField =
        some (.list [.map (b.item flatten inputs)]) :=
      BodyPlan.get?_build_arrayField hFlatten (by simp [hMerges b hb])
    have hItem := List.forall_mem_singleton.mp (Value.isFinite_list_iff.mp (hBody.get? hList))
    exact ⟨_, _, build_jsonBody hb, hList, fun _ _ _ hv => hItem.get? hv⟩

/-- **When a request is finite.** Take a plan and inputs without infinities and NaNs. If no text that
the plan takes spells one, as a number, in a list or in an object, and no merge adds one, then the
request has none, in its query and at any depth of its body. If there are no merges and no two places
of the plan write to the same entry, this is the only case in which it has none. -/
theorem build_isFinite (hPlan : plan.IsFinite) (hInputs : (Value.map inputs).IsFinite)
    (auth : Entries) :
    ((∀ kind v dynamic, plan.Takes inputs kind v dynamic → ¬ SpellsNonfinite kind v) →
      (∀ b ∈ plan.body, b.AddsNoInfinity inputs) → (plan.build inputs auth).IsFinite) ∧
    (plan.Apart → (∀ b ∈ plan.body, b.helperMerges = []) →
      ((plan.build inputs auth).IsFinite ↔
        ∀ kind v dynamic, plan.Takes inputs kind v dynamic → ¬ SpellsNonfinite kind v)) := by
  have hAll : (∀ kind v dynamic, plan.Takes inputs kind v dynamic → ¬ SpellsNonfinite kind v) →
      (∀ b ∈ plan.body, b.AddsNoInfinity inputs) → (plan.build inputs auth).IsFinite := by
    intro hTaken hMerges
    have hReads : ∀ w, plan.Reads inputs w → w.IsFinite := by
      rintro w ⟨kind, v, dynamic, hTakes, hRead⟩
      exact (readInput?_isFinite_iff (hTakes.isFinite hInputs) hRead).mpr
        (hTaken kind v dynamic hTakes)
    refine ⟨?_, ?_⟩
    · show (Value.map (plan.queryOf inputs)).IsFinite
      rw [queryOf_eq_setEach]
      exact Entries.isFinite_setEach hPlan.fixed fun p hp v hRead =>
        hReads v ⟨_, _, _, .query hp, hRead⟩
    · cases hBody : plan.body with
      | none =>
        rw [build]
        simp only [hBody]
        exact .scalar trivial
      | some b =>
        rw [build_jsonBody hBody]
        exact isFinite_body hBody hPlan hInputs hReads (hMerges b hBody)
  refine ⟨hAll, fun hApart hMerges => ⟨fun hFinite kind v dynamic hTakes hSpells => ?_, ?_⟩⟩
  · obtain ⟨w, hRead, hBad⟩ := hSpells.read dynamic
    have hSends := sends_of_isFinite hMerges hFinite
    exact hBad (reads_of_sends hMerges hApart hSends w ⟨kind, v, dynamic, hTakes, hRead⟩)
  · intro hTaken
    refine hAll hTaken fun b hb => ?_
    -- without merges nothing is added
    have hNone : ∀ before (m : MergePlan) after, [] ≠ before ++ m :: after := by simp
    refine ⟨fun flatten _ before m after hSplit => ?_, fun before m after hSplit => ?_⟩
    all_goals
      rw [hMerges b hb] at hSplit
      exact absurd hSplit (hNone before m after)

/-- Amounts are entered into a ledger, and more of them one by one. -/
def ledgerPlan : RequestPlan where
  method := .post
  urlTemplate := "/ledger"
  query := { params := [{ name := "above", kind := .number }] }
  body := some {
    properties := [{ name := "amounts", kind := .array }, { name := "note", kind := .object }]
    helperMerges := [{ target := "amounts", helperKeys := ["more"], targetIsArray := true }] }

theorem ledgerPlan_isFinite : ledgerPlan.IsFinite :=
  ⟨.map nofun nofun, by rintro b ⟨⟩; exact .map nofun nofun⟩

/-- What is no number stays a text, and a negative infinity is not merged. -/
theorem build_isFinite_ledger :
    let inputs : Entries := [(.str "above", .str "nan"), (.str "amounts", .str "5, nan"),
      (.str "note", .str "NaN and so on"), (.str "more", .str "-inf")]
    (Value.map inputs).IsFinite ∧ (ledgerPlan.build inputs []).IsFinite := by
  intro inputs
  have hInputs : (Value.map inputs).IsFinite := by
    simp [inputs, Scalar.IsFinite]
  refine ⟨hInputs, (build_isFinite ledgerPlan_isFinite hInputs []).1 ?_ ?_⟩
  · intro kind v dynamic hTakes
    have hv := hTakes.isFinite hInputs
    cases hTakes with
    | query hp =>
      cases List.mem_singleton.mp hp
      have hAbove : readInput? .number (.str "nan") false = some (.str "nan") := by
        with_unfolding_all rfl
      exact (readInput?_isFinite_iff hv hAbove).mp (Value.isFinite_str _)
    | body hb hp =>
      cases hb
      rcases List.mem_pair.mp hp with rfl | rfl
      · have hAmounts : readInput? .array (.str "5, nan") false =
            some (.list [.int 5, .str "nan"]) := by with_unfolding_all rfl
        exact (readInput?_isFinite_iff hv hAmounts).mp (by simp [Scalar.IsFinite])
      · have hNote : readInput? .object (.str "NaN and so on") false =
            some (.str "NaN and so on") := by with_unfolding_all rfl
        exact (readInput?_isFinite_iff hv hNote).mp (Value.isFinite_str _)
    | item hb hFlatten _ =>
      cases hb
      cases hFlatten
  · rintro b ⟨⟩
    refine ⟨nofun, ?_⟩
    intro before m after hSplit
    cases before with
    | nil =>
      cases hSplit
      have hNumbers : ∀ v ∈ [.int 5, .str "nan", .str "-inf"],
          toNumber? v ≠ some (.float (.infinite false)) := by decide +kernel
      exact hNumbers
    | cons first rest =>
      -- there is only one merge
      obtain ⟨-, hNone⟩ := List.cons.inj hSplit
      exact absurd hNone.symm (List.append_ne_nil_of_right_ne_nil rest (List.cons_ne_nil m after))

/-- **Texts can bring infinities and NaNs into a request**, in all places where numbers are read: a
number itself, a list, an object and a helper. -/
theorem build_infinities : ledgerPlan.IsFinite ∧
    ∀ inputs ∈ ([[(.str "above", .str "inf")], [(.str "amounts", .str "1, 1e400")],
        [(.str "note", .str "[NaN]")], [(.str "more", .str "Infinity")]] : List Entries),
      (Value.map inputs).IsFinite ∧ ¬ (ledgerPlan.build inputs []).IsFinite := by
  refine ⟨ledgerPlan_isFinite, ?_⟩
  -- in a request that is finite, whatever stands under a name is
  have hQuery {inputs : Entries} {name : String} {v : Value}
      (hGet : Entries.get? (ledgerPlan.build inputs []).params name = some v)
      (hBad : ¬ v.IsFinite) : ¬ (ledgerPlan.build inputs []).IsFinite :=
    fun h => hBad (h.query.get? hGet)
  have hBody {inputs es : Entries} (hSent : (ledgerPlan.build inputs []).jsonBody = .map es)
      (hBad : ¬ (Value.map es).IsFinite) : ¬ (ledgerPlan.build inputs []).IsFinite :=
    fun h => hBad (hSent ▸ h.body)
  simp only [List.forall_mem_cons]
  refine ⟨⟨by simp [Scalar.IsFinite], ?_⟩, ⟨by simp [Scalar.IsFinite], ?_⟩,
    ⟨by simp [Scalar.IsFinite], ?_⟩, ⟨by simp [Scalar.IsFinite], ?_⟩, nofun⟩
  · have hAbove : Entries.get? (ledgerPlan.build [(.str "above", .str "inf")] []).params "above" =
        some (.float (.infinite false)) := by with_unfolding_all rfl
    exact hQuery hAbove (by simp [Scalar.IsFinite])
  · have hAmounts : (ledgerPlan.build [(.str "amounts", .str "1, 1e400")] []).jsonBody =
        .map [(.str "amounts", .list [.int 1, .float (.infinite false)])] := by
      with_unfolding_all rfl
    exact hBody hAmounts (by simp [Scalar.IsFinite])
  · have hNote : (ledgerPlan.build [(.str "note", .str "[NaN]")] []).jsonBody =
        .map [(.str "note", .list [.float .nan])] := by with_unfolding_all rfl
    exact hBody hNote (by simp [Scalar.IsFinite])
  · have hMore : (ledgerPlan.build [(.str "more", .str "Infinity")] []).jsonBody =
        .map [(.str "amounts", .list [.float (.infinite false)])] := by with_unfolding_all rfl
    exact hBody hMore (by simp [Scalar.IsFinite])

end RequestPlan

end IntegrationCompiler
