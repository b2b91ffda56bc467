import IntegrationCompiler.Proofs.Json.Numbers
import IntegrationCompiler.Proofs.Request.Sent

/-!
# Inputs that are not provided

Null and the empty text mean that an input was not provided, and then nothing is sent for it. That
is looked at before an input is read. Dates and texts of JSON may be read as something empty though
they are not, and it is sent.

Main definition: `ReadsBlank` — the inputs of which nothing is left.

Main results:

* `datePart_eq_empty_iff` — the dates of which nothing is left;
* `readInput?_isUnprovided_iff` — for every other kind a provided input stays one;
* `RequestPlan.sends_provided` — when all that a request has of its inputs is provided;
* `RequestPlan.sends_blanks` — a date and an object of which nothing is left.
-/

namespace IntegrationCompiler

/-! ## Dates -/

/-- There is something before the first `T` or space. -/
def HasDatePart (cs : List Char) : Prop :=
  ∃ c ∈ cs.head?, c ≠ 'T' ∧ c ≠ ' '

namespace HasDatePart

theorem cons {c : Char} (hT : c ≠ 'T') (hBlank : c ≠ ' ') (cs : List Char) : HasDatePart (c :: cs) :=
  ⟨c, rfl, hT, hBlank⟩

theorem append {cs : List Char} (h : HasDatePart cs) (rest : List Char) :
    HasDatePart (cs ++ rest) := by
  obtain ⟨c, hHead, hOther⟩ := h
  exact ⟨c, List.mem_head?_append_of_mem_head? hHead, hOther⟩

theorem of_numberChars {cs : List Char} (hSome : cs ≠ [])
    (h : ∀ c ∈ cs, Json.isNumberChar c = true) : HasDatePart cs := by
  obtain ⟨c, rest, rfl⟩ := List.exists_cons_of_ne_nil hSome
  have hFirst := h c List.mem_cons_self
  exact cons (Json.isNumberChar_ne hFirst (by decide)) (Json.isNumberChar_ne hFirst (by decide)) rest

theorem decimal (width n : Nat) : HasDatePart (Text.decimal width n) := by
  refine of_numberChars ?_ ?_
  · exact List.append_ne_nil_of_right_ne_nil _ Nat.toDigits_ne_nil
  · intro c hc
    rcases List.mem_append.mp hc with hZero | hDigit
    · rw [List.eq_of_mem_replicate hZero]
      decide
    · exact Json.isNumberChar_of_mem_toDigits hDigit

theorem day (d : Day) : HasDatePart d.text.toList := by
  rw [Day.text, String.toList_ofList]
  exact ((((decimal 4 d.year).append _).append _).append _).append _

theorem int (n : Int) : HasDatePart (intText n).toList := by
  refine of_numberChars ?_ fun c hc => Json.isNumberChar_of_mem_intText c hc
  rw [intText_toList]
  split
  · exact List.cons_ne_nil _ _
  · exact Nat.toDigits_ne_nil

theorem float (x : Binary64) : HasDatePart (x.render plainSpelling).toList := by
  cases x with
  | nan => exact cons (by decide) (by decide) _
  | infinite negative => cases negative <;> exact cons (by decide) (by decide) _
  | finite negative m q =>
    refine of_numberChars ?_ Json.isNumberChar_of_mem_render
    -- whatever the digits are, there is a point or an exponent
    rw [Binary64.render, String.toList_ofList]
    split
    · exact List.cons_ne_nil _ _
    · split
      · exact List.cons_ne_nil _ _
      · unfold Binary64.layout
        dsimp only
        split
        · split
          · simp
          · split <;> simp
        · simp

end HasDatePart

/-- The inputs of which reading leaves nothing: dates that begin with the mark or the space at which
they end, the truth value that is written so, and texts that are JSON for null or for no text. -/
inductive ReadsBlank : ValueKind → Value → Prop where
  | date {s : String} {c : Char} {rest : List Char} : s.toList = c :: rest → c = 'T' ∨ c = ' ' →
    ReadsBlank .date (.str s)
  | truth : ReadsBlank .date (.bool true)
  | json {s : String} {w : Value} : Json.parse s = .ok w → isUnprovided w = true →
    ReadsBlank .object (.str s)

variable {kind : ValueKind} {v w : Value} {dynamic : Bool}

theorem datePart_eq_empty_iff_not_hasDatePart : datePart v = "" ↔ ¬ HasDatePart v.text.toList := by
  rw [datePart]
  cases v.text.toList with
  | nil => simp [HasDatePart]
  | cons c rest =>
    by_cases hEnd : c = 'T' ∨ c = ' '
    · have hNone : (c :: rest).takeWhile (fun c => c != 'T' && c != ' ') = [] := by
        rw [List.takeWhile_cons_of_neg]
        rcases hEnd with rfl | rfl <;> decide
      rw [hNone]
      refine iff_of_true rfl ?_
      rintro ⟨d, hHead, hT, hBlank⟩
      cases hHead
      exact hEnd.elim hT hBlank
    · obtain ⟨hT, hBlank⟩ := not_or.mp hEnd
      refine iff_of_false ?_ (not_not.mpr (.cons hT hBlank rest))
      rw [List.takeWhile_cons_of_pos (by simp [hT, hBlank])]
      intro hEmpty
      have hList := congrArg String.toList hEmpty
      simp at hList

/-- **The dates of which nothing is left**, among all inputs. -/
theorem datePart_eq_empty_iff (hProvided : isUnprovided v = false) :
    datePart v = "" ↔ ReadsBlank .date v := by
  rw [datePart_eq_empty_iff_not_hasDatePart]
  -- most values are written with some other character in front
  have hOther (hPart : HasDatePart v.text.toList) (hNot : ¬ ReadsBlank .date v) :
      ¬ HasDatePart v.text.toList ↔ ReadsBlank .date v :=
    iff_of_false (not_not.mpr hPart) hNot
  cases v with
  | scalar s =>
    cases s with
    | null => cases hProvided
    | bool b =>
      cases b with
      | true => exact iff_of_true (by rintro ⟨c, ⟨⟩, hT, -⟩; exact hT rfl) .truth
      | false => exact hOther (.cons (by decide) (by decide) _) nofun
    | int n => exact hOther (.int n) nofun
    | float x => exact hOther (.float x) nofun
    | str s =>
      constructor
      · intro hNone
        cases hText : s.toList with
        | nil =>
          have hEmpty : s = "" := String.toList_eq_nil_iff.mp hText
          rw [hEmpty] at hProvided
          cases hProvided
        | cons c rest =>
          refine .date hText ?_
          by_contra hEnd
          obtain ⟨hT, hBlank⟩ := not_or.mp hEnd
          refine hNone ?_
          show HasDatePart s.toList
          rw [hText]
          exact .cons hT hBlank rest
      · intro hNone hPart
        cases hNone with
        | date hText hEnd =>
          have hHere : HasDatePart s.toList := hPart
          rw [hText] at hHere
          obtain ⟨c, hHead, hT, hBlank⟩ := hHere
          cases hHead
          exact hEnd.elim hT hBlank
    | date d => exact hOther (.day d) nofun
    | moment m =>
      refine hOther ?_ nofun
      show HasDatePart (m.textWith ' ').toList
      rw [Moment.textWith, String.toList_append]
      exact (HasDatePart.day m.date).append _
    | bytes octets =>
      refine hOther ?_ nofun
      show HasDatePart (bytesLiteral octets).toList
      rw [bytesLiteral, String.toList_ofList]
      exact .cons (by decide) (by decide) _
  | list items =>
    refine hOther ?_ nofun
    show HasDatePart ("[" ++ commaSeparated (Value.literals items) ++ "]").toList
    rw [String.toList_append, String.toList_append]
    exact .cons (by decide) (by decide) _
  | map entries =>
    refine hOther ?_ nofun
    show HasDatePart ("\x7b" ++ commaSeparated (Value.entryLiterals entries) ++ "\x7d").toList
    rw [String.toList_append, String.toList_append]
    exact .cons (by decide) (by decide) _
  | set members =>
    refine hOther ?_ nofun
    cases members with
    | nil => exact .cons (by decide) (by decide) _
    | cons s rest =>
      show HasDatePart ("\x7b" ++ commaSeparated ((s :: rest).map Scalar.literal) ++ "\x7d").toList
      rw [String.toList_append, String.toList_append]
      exact .cons (by decide) (by decide) _

/-! ## All kinds -/

/-- **A provided input is read as one**, unless it is a date or JSON of which nothing is left. -/
theorem readInput?_isUnprovided_iff (h : readInput? kind v dynamic = some w) :
    isUnprovided w = true ↔ ReadsBlank kind v := by
  obtain ⟨hProvided, hReads⟩ := readsAs_of_readInput? h
  have hNot (hSome : isUnprovided w = false) (hNone : ¬ ReadsBlank kind v) :
      isUnprovided w = true ↔ ReadsBlank kind v :=
    iff_of_false (by rw [hSome]; exact Bool.false_ne_true) hNone
  cases hReads with
  | string => exact hNot hProvided nofun
  | boolean => exact hNot rfl nofun
  | array => exact hNot rfl nofun
  | date =>
    rw [← datePart_eq_empty_iff hProvided]
    show (datePart v).isEmpty = true ↔ _
    exact String.isEmpty_iff
  | number =>
    -- a number, or the input itself
    refine hNot ?_ nofun
    cases toNumber? v with
    | none => exact hProvided
    | some n => cases n <;> rfl
  | json hParse =>
    refine ⟨.json hParse, fun hBlank => ?_⟩
    cases hBlank with
    | json hOther hNone =>
      cases hParse.symm.trans hOther
      exact hNone
  | text hParse =>
    refine hNot hProvided fun hBlank => ?_
    cases hBlank with
    | json hOther _ => cases hParse.symm.trans hOther
  | other hNoText =>
    refine hNot hProvided fun hBlank => ?_
    cases hBlank with
    | json _ _ => exact hNoText _ rfl

/-- An input of which nothing is left is no empty text, and so it is read. -/
theorem ReadsBlank.read (h : ReadsBlank kind v) (dynamic : Bool) :
    ∃ w, readInput? kind v dynamic = some w ∧ isUnprovided w = true := by
  have hProvided : isUnprovided v = false := by
    cases h with
    | truth => rfl
    | @date s c rest hText _ =>
      refine Bool.eq_false_iff.mpr fun hEmpty => ?_
      rw [String.isEmpty_iff.mp hEmpty] at hText
      cases hText
    | @json s w hParse _ =>
      refine Bool.eq_false_iff.mpr fun hEmpty => ?_
      rw [String.isEmpty_iff.mp hEmpty] at hParse
      cases hParse
  have hKind : kind ≠ .number := by
    rintro rfl
    cases h
  obtain ⟨w, hRead⟩ := exists_readInput? hProvided fun hNumber => absurd hNumber hKind
  exact ⟨w, hRead, (readInput?_isUnprovided_iff hRead).mpr h⟩

/-! ## Whole requests -/

namespace RequestPlan

variable {plan : RequestPlan} {inputs : Entries}

/-- A plan reads something empty exactly if it takes an input of which nothing is left. -/
theorem reads_provided_iff : (∀ w, plan.Reads inputs w → isUnprovided w = false) ↔
    ∀ kind v dynamic, plan.Takes inputs kind v dynamic → ¬ ReadsBlank kind v := by
  constructor
  · intro hReads kind v dynamic hTakes hBlank
    obtain ⟨w, hRead, hEmpty⟩ := hBlank.read dynamic
    rw [hReads w ⟨kind, v, dynamic, hTakes, hRead⟩] at hEmpty
    cases hEmpty
  · rintro hTaken w ⟨kind, v, dynamic, hTakes, hRead⟩
    refine Bool.eq_false_iff.mpr fun hEmpty => ?_
    exact hTaken kind v dynamic hTakes ((readInput?_isUnprovided_iff hRead).mp hEmpty)

/-- **What is sent of inputs was provided.** Take a plan without merges and defaults. If it takes no
date and no JSON of which nothing is left, then no query parameter that an input is sent for, no
property of the body and no property of its item is null or empty, whatever else the inputs are. If
no two places of the plan write to the same entry, this is the only case in which that is so. -/
theorem sends_provided (hMerges : ∀ b ∈ plan.body, b.helperMerges = [])
    (hDefaults : ∀ b ∈ plan.body, b.defaults = []) (inputs auth : Entries) :
    ((∀ kind v dynamic, plan.Takes inputs kind v dynamic → ¬ ReadsBlank kind v) →
      plan.Sends inputs (fun v => isUnprovided v = false) (plan.build inputs auth)) ∧
    (plan.Apart →
      (plan.Sends inputs (fun v => isUnprovided v = false) (plan.build inputs auth) ↔
        ∀ kind v dynamic, plan.Takes inputs kind v dynamic → ¬ ReadsBlank kind v)) := by
  have hSends : (∀ kind v dynamic, plan.Takes inputs kind v dynamic → ¬ ReadsBlank kind v) →
      plan.Sends inputs (fun v => isUnprovided v = false) (plan.build inputs auth) := by
    intro hTaken
    refine sends_of_reads hMerges (fun _ => rfl) ?_ (reads_provided_iff.mpr hTaken)
    intro b hb name v hDefault
    rw [hDefaults b hb] at hDefault
    cases hDefault
  refine ⟨hSends, fun hApart => ⟨fun hSent => ?_, hSends⟩⟩
  exact reads_provided_iff.mp (reads_of_sends hMerges hApart hSent)

/-- Expenses are searched from a day on, with a filter. -/
def searchPlan : RequestPlan where
  method := .post
  urlTemplate := "/expenses"
  query := { params := [{ name := "since", kind := .date }] }
  body := some { properties := [
    { name := "filter", kind := .object }, { name := "limit", kind := .number }] }

/-- Zero is sent, and so is an object that is empty. -/
theorem sends_provided_searchPlan :
    let inputs : Entries := [(.str "since", .str "2025-01-31 08:00"),
      (.str "filter", .str "\x7b\x7d"), (.str "limit", .int 0)]
    searchPlan.Sends inputs (fun v => isUnprovided v = false) (searchPlan.build inputs []) := by
  intro inputs
  refine (sends_provided (by rintro b ⟨⟩; rfl) (by rintro b ⟨⟩; rfl) inputs []).1 ?_
  refine reads_provided_iff.mp ?_
  rintro w ⟨kind, v, dynamic, hTakes, hRead⟩
  cases hTakes with
  | query hp =>
    cases List.mem_singleton.mp hp
    have hSince : readInput? .date (.str "2025-01-31 08:00") false = some (.str "2025-01-31") := by
      with_unfolding_all rfl
    cases hSince.symm.trans hRead
    rfl
  | body hb hp =>
    cases hb
    rcases List.mem_pair.mp hp with rfl | rfl
    · have hFilter : readInput? .object (.str "\x7b\x7d") false = some (.map []) := by
        with_unfolding_all rfl
      cases hFilter.symm.trans hRead
      rfl
    · have hLimit : readInput? .number (.int 0) false = some (.int 0) := rfl
      cases hLimit.symm.trans hRead
      rfl
  | item hb hFlatten _ =>
    cases hb
    cases hFlatten

/-- **Dates and objects of which nothing is left are sent**, an empty text for the one and null for
the other. -/
theorem sends_blanks :
    (∀ b ∈ searchPlan.body, b.helperMerges = [] ∧ b.defaults = []) ∧
    ¬ searchPlan.Sends [(.str "since", .str " 2025-01-31")] (fun v => isUnprovided v = false)
      (searchPlan.build [(.str "since", .str " 2025-01-31")] []) ∧
    ¬ searchPlan.Sends [(.str "filter", .str "null")] (fun v => isUnprovided v = false)
      (searchPlan.build [(.str "filter", .str "null")] []) := by
  refine ⟨by rintro b ⟨⟩; exact ⟨rfl, rfl⟩, fun hSends => ?_, fun hSends => ?_⟩
  · have hSince := hSends.query _ List.mem_cons_self (by decide) (.str "")
      (by with_unfolding_all rfl)
    cases hSince
  · obtain ⟨es, hBody, hAll⟩ := hSends.body _ rfl
    cases hBody
    have hFilter := hAll _ List.mem_cons_self .null (by with_unfolding_all rfl)
    cases hFilter

end RequestPlan

end IntegrationCompiler
