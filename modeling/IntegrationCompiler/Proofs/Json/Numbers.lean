import IntegrationCompiler.Json.Printer
import IntegrationCompiler.Json.Reader
import IntegrationCompiler.Proofs.Number.Numeral

/-!
# Reading JSON numbers back

A number is read up to the first character that cannot belong to it. So it is read in the same way
wherever it stands.

Main definitions:

* `Json.EndsNumber` — what may follow a number;
* `Json.NumberParts` — sign, integer part, fraction and exponent of a number;
* `Json.ReadsBack` — a double whose text is read as the double.

Main results:

* `Json.number_append`, `Json.value_of_number` — a number is read in front of anything that may
  follow it;
* `Json.number_intText` — an integer is read back, if it is not too long;
* `Json.number_of_document` — a document made of characters of numbers is a number;
* `Json.ReadsBack.inRange` — a double that is read back is in range.
-/

namespace IntegrationCompiler.Json

/-- Whether a character can belong to a number. -/
def isNumberChar (c : Char) : Bool :=
  Number.isAsciiDigit c || ['.', 'e', 'E', '+', '-'].contains c

/-- What may follow a number: nothing that could belong to it. -/
def EndsNumber (rest : List Char) : Prop :=
  ∀ c ∈ rest.head?, isNumberChar c = false

theorem endsNumber_nil : EndsNumber [] := fun _ h => nomatch h

theorem endsNumber_cons {c : Char} {rest : List Char} (h : isNumberChar c = false) :
    EndsNumber (c :: rest) := by
  rintro _ ⟨rfl⟩
  exact h

/-! ## The parts of a number -/

/-- The parts of a number. -/
structure NumberParts where
  sign : List Char
  whole : List Char
  fraction : List Char
  exponent : List Char

namespace NumberParts

/-- The parts of the number that a text without sign starts with. -/
def ofBody (sign body : List Char) : NumberParts :=
  let whole := wholePart body
  let fraction := fractionPart (body.drop whole.length)
  ⟨sign, whole, fraction, exponentPart (body.drop (whole.length + fraction.length))⟩

/-- The parts of the number that a text starts with. -/
def ofText : List Char → NumberParts
  | '-' :: body => ofBody ['-'] body
  | body => ofBody [] body

/-- How long the text of a number is. -/
def length (n : NumberParts) : Nat :=
  n.sign.length + n.whole.length + n.fraction.length + n.exponent.length

/-- Reads a number with these parts at a cursor. -/
def read (n : NumberParts) (c : Cursor) : Read (Value × Cursor) :=
  if n.whole.isEmpty then .error (.fault .expectingValue c.position)
  else if n.fraction.isEmpty && n.exponent.isEmpty then
    if Number.maxIntegerDigits < n.whole.length then .error (.integerTooLong n.whole.length)
    else
      let m := Text.ofDigits (n.whole.map Number.asciiValue)
      .ok (.int (if !n.sign.isEmpty then -(m : Int) else m), c.advance n.length)
  else
    match Number.decimalOfDigits? (!n.sign.isEmpty) (n.whole ++ n.fraction ++ n.exponent) with
    | some x => .ok (.float x, c.advance n.length)
    | none => .error (.fault .expectingValue c.position)

/-- What is read depends on the parts alone. -/
theorem read_ok {n : NumberParts} {c after : Cursor} {v : Value} (h : n.read c = .ok (v, after))
    (c' : Cursor) :
    after = c.advance n.length ∧ n.read c' = .ok (v, c'.advance n.length) := by
  unfold read at h ⊢
  split at h
  · cases h
  next hWhole =>
    rw [if_neg hWhole]
    -- a number without fraction and exponent is an integer, any other a double
    split at h
    next hInteger =>
      rw [if_pos hInteger]
      split at h
      · cases h
      next hShort =>
        cases h
        rw [if_neg hShort]
        exact ⟨rfl, rfl⟩
    next hFloat =>
      rw [if_neg hFloat]
      split at h
      next x hx =>
        cases h
        exact ⟨rfl, rfl⟩
      · cases h

end NumberParts

/-- A number is read by its parts. -/
theorem number_eq (c : Cursor) : number c = (NumberParts.ofText c.rest).read c := by
  unfold number
  split
  next sign body hSign =>
    -- the sign is split off in both; what follows is the same text
    split at hSign
    next h =>
      cases hSign
      have hParts : NumberParts.ofText c.rest = .ofBody ['-'] body := by
        rw [h]
        rfl
      rw [hParts]
      rfl
    next hUnsigned =>
      cases hSign
      have hParts : NumberParts.ofText c.rest = .ofBody [] c.rest := by
        unfold NumberParts.ofText
        split
        next h => exact absurd h (hUnsigned _)
        next => rfl
      rw [hParts]
      rfl

/-! ## Where a number ends -/

section

variable {rest : List Char}

theorem EndsNumber.digits (h : EndsNumber rest) :
    ∀ c ∈ rest.head?, Number.isAsciiDigit c = false :=
  fun c hc => (Bool.or_eq_false_iff.mp (h c hc)).1

theorem EndsNumber.head_ne (h : EndsNumber rest) {c : Char} (hc : isNumberChar c = true)
    (tail : List Char) : rest ≠ c :: tail := by
  rintro rfl
  exact absurd (h c rfl) (by simp [hc])

theorem wholePart_append (h : EndsNumber rest) (cs : List Char) :
    wholePart (cs ++ rest) = wholePart cs := by
  have hZero : ∀ tail, rest ≠ '0' :: tail := by
    rintro tail rfl
    exact absurd (h.digits '0' rfl) (by decide)
  cases cs with
  | nil =>
    rw [List.nil_append, wholePart, wholePart, ← List.nil_append rest]
    · exact takeWhile_append_of_head h.digits []
    · exact nofun
    · exact hZero
  | cons c cs =>
    by_cases hc : c = '0'
    · subst hc
      rfl
    · rw [wholePart, wholePart]
      · exact takeWhile_append_of_head h.digits (c :: cs)
      · exact fun _ hEq => hc (List.cons.inj hEq).1
      · exact fun _ hEq => hc (List.cons.inj hEq).1

theorem fractionPart_append (h : EndsNumber rest) (cs : List Char) :
    fractionPart (cs ++ rest) = fractionPart cs := by
  cases cs with
  | nil =>
    rw [List.nil_append, fractionPart, fractionPart]
    · exact nofun
    · exact h.head_ne (by decide)
  | cons c cs =>
    by_cases hc : c = '.'
    · subst hc
      rw [List.cons_append, fractionPart, fractionPart, takeWhile_append_of_head h.digits]
    · rw [fractionPart, fractionPart]
      · exact fun _ hEq => hc (List.cons.inj hEq).1
      · exact fun _ hEq => hc (List.cons.inj hEq).1

/-- The sign of an exponent, if there is one, and what follows it. -/
def exponentSign (cs : List Char) : List Char × List Char :=
  match cs with
  | '+' :: tail => (['+'], tail)
  | '-' :: tail => (['-'], tail)
  | _ => ([], cs)

theorem exponentSign_append (h : EndsNumber rest) (cs : List Char) :
    exponentSign (cs ++ rest) = ((exponentSign cs).1, (exponentSign cs).2 ++ rest) := by
  cases cs with
  | nil =>
    rw [List.nil_append, exponentSign]
    · rfl
    · exact h.head_ne (by decide)
    · exact h.head_ne (by decide)
  | cons c cs =>
    by_cases hPlus : c = '+'
    · subst hPlus
      rfl
    by_cases hMinus : c = '-'
    · subst hMinus
      rfl
    have hNone (tail : List Char) : exponentSign (c :: tail) = ([], c :: tail) := by
      rw [exponentSign]
      · exact fun _ hEq => hPlus (List.cons.inj hEq).1
      · exact fun _ hEq => hMinus (List.cons.inj hEq).1
    rw [List.cons_append, hNone, hNone]
    rfl

theorem length_exponentSign (cs : List Char) :
    (exponentSign cs).1.length + (exponentSign cs).2.length = cs.length := by
  unfold exponentSign
  split <;> simp [Nat.add_comm]

theorem exponentPart_cons (mark : Char) (cs : List Char) : exponentPart (mark :: cs) =
    if mark = 'e' || mark = 'E' then
      let digits := (exponentSign cs).2.takeWhile Number.isAsciiDigit
      if digits.isEmpty then [] else mark :: (exponentSign cs).1 ++ digits
    else [] := by
  unfold exponentPart exponentSign
  rfl

theorem exponentPart_append (h : EndsNumber rest) (cs : List Char) :
    exponentPart (cs ++ rest) = exponentPart cs := by
  cases cs with
  | nil =>
    cases rest with
    | nil => rfl
    | cons c tail =>
      have hMark : ¬ (c = 'e' || c = 'E') = true := by
        rw [Bool.or_eq_true, decide_eq_true_iff, decide_eq_true_iff]
        rintro (rfl | rfl) <;> exact absurd (h _ rfl) (by decide)
      rw [List.nil_append, exponentPart_cons, if_neg hMark]
      rfl
  | cons c cs =>
    rw [List.cons_append, exponentPart_cons, exponentPart_cons, exponentSign_append h]
    dsimp only
    rw [takeWhile_append_of_head h.digits]

theorem length_takeWhile_digits (cs : List Char) :
    (cs.takeWhile Number.isAsciiDigit).length ≤ cs.length :=
  (List.takeWhile_prefix _).length_le

theorem length_wholePart_le (cs : List Char) : (wholePart cs).length ≤ cs.length := by
  unfold wholePart
  split
  · simp
  · exact length_takeWhile_digits _

theorem length_fractionPart_le (cs : List Char) : (fractionPart cs).length ≤ cs.length := by
  unfold fractionPart
  split
  next tail =>
    dsimp only
    split
    · simp
    · exact Nat.succ_le_succ (length_takeWhile_digits tail)
  · simp

theorem length_exponentPart_le (cs : List Char) : (exponentPart cs).length ≤ cs.length := by
  cases cs with
  | nil => exact Nat.le_refl 0
  | cons mark cs =>
    rw [exponentPart_cons]
    have hDigits := length_takeWhile_digits (exponentSign cs).2
    have hSign := length_exponentSign cs
    split
    · dsimp only
      split
      · simp
      · simp only [List.length_cons, List.length_append]
        omega
    · simp

/-! ## Numbers in front of other text -/

namespace NumberParts

theorem ofBody_append (h : EndsNumber rest) (sign cs : List Char) :
    ofBody sign (cs ++ rest) = ofBody sign cs := by
  have hWhole := length_wholePart_le cs
  have hFraction := length_fractionPart_le (cs.drop (wholePart cs).length)
  rw [List.length_drop] at hFraction
  unfold ofBody
  dsimp only
  rw [wholePart_append h, List.drop_append_of_le_length hWhole, fractionPart_append h,
    List.drop_append_of_le_length (by omega), exponentPart_append h]

theorem ofText_append (h : EndsNumber rest) (cs : List Char) : ofText (cs ++ rest) = ofText cs := by
  have hUnsigned : ∀ cs : List Char, (∀ tail, cs ≠ '-' :: tail) → ofText cs = ofBody [] cs := by
    intro cs hcs
    rw [ofText]
    exact hcs
  cases cs with
  | nil =>
    rw [List.nil_append, hUnsigned rest (h.head_ne (by decide)), hUnsigned [] nofun]
    exact ofBody_append h [] []
  | cons c cs =>
    by_cases hc : c = '-'
    · subst hc
      exact ofBody_append h ['-'] cs
    · have hNe : ∀ cs tail : List Char, c :: cs ≠ '-' :: tail := fun _ _ hEq =>
        hc (List.cons.inj hEq).1
      rw [hUnsigned _ (hNe cs), List.cons_append, hUnsigned _ (hNe (cs ++ rest))]
      exact ofBody_append h [] (c :: cs)

theorem length_ofBody_le (sign cs : List Char) :
    (ofBody sign cs).length ≤ sign.length + cs.length := by
  have hWhole := length_wholePart_le cs
  have hFraction := length_fractionPart_le (cs.drop (wholePart cs).length)
  have hExponent := length_exponentPart_le
    (cs.drop ((wholePart cs).length + (fractionPart (cs.drop (wholePart cs).length)).length))
  rw [List.length_drop] at hFraction hExponent
  unfold ofBody length
  dsimp only
  omega

/-- A number is no longer than the text it stands in. -/
theorem length_ofText_le (cs : List Char) : (ofText cs).length ≤ cs.length := by
  unfold ofText
  split
  next body =>
    rw [List.length_cons, Nat.add_comm]
    exact length_ofBody_le ['-'] body
  next => exact (length_ofBody_le [] cs).trans_eq (Nat.zero_add _)

end NumberParts

/-- **A number is read in front of anything that may follow it.** -/
theorem number_append {text : List Char} {v : Value} {after : Cursor}
    (h : number ⟨0, text⟩ = .ok (v, after)) (hEnd : after.rest = []) (hRest : EndsNumber rest)
    (p : Nat) : number ⟨p, text ++ rest⟩ = .ok (v, ⟨p + text.length, rest⟩) := by
  rw [number_eq] at h ⊢
  dsimp only at h ⊢
  obtain ⟨rfl, hRead⟩ := NumberParts.read_ok h ⟨p, text ++ rest⟩
  have hLength : (NumberParts.ofText text).length = text.length :=
    Nat.le_antisymm (NumberParts.length_ofText_le text) (List.drop_eq_nil_iff.mp hEnd)
  rw [NumberParts.ofText_append hRest, hRead, Cursor.advance, hLength, List.drop_left]

end

/-! ## The texts of numbers -/

theorem wholePart_toDigits (n : Nat) : wholePart (Nat.toDigits 10 n) = Nat.toDigits 10 n := by
  by_cases hZero : n = 0
  · subst hZero
    rfl
  · rw [wholePart]
    · exact Number.takeWhile_toDigits n
    · intro tail hEq
      exact Number.head?_toDigits_ne hZero (by rw [hEq, List.head?_cons])

theorem ofBody_toDigits (sign : List Char) (n : Nat) :
    NumberParts.ofBody sign (Nat.toDigits 10 n) = ⟨sign, Nat.toDigits 10 n, [], []⟩ := by
  have hFraction : fractionPart [] = [] := rfl
  simp only [NumberParts.ofBody, wholePart_toDigits, List.drop_length, hFraction, List.length_nil,
    Nat.add_zero]
  rfl

theorem ofText_intText (n : Int) : NumberParts.ofText (intText n).toList =
    ⟨if n < 0 then ['-'] else [], Nat.toDigits 10 n.natAbs, [], []⟩ := by
  rw [intText_toList]
  split
  · exact ofBody_toDigits ['-'] n.natAbs
  · rw [NumberParts.ofText]
    · exact ofBody_toDigits [] n.natAbs
    · intro tail hEq
      exact absurd (Number.isAsciiDigit_of_mem_toDigits (by rw [hEq]; exact List.mem_cons_self))
        (by decide)

/-- An integer is read back, if it is not too long. -/
theorem number_intText {n : Int} (h : n.natAbs < 10 ^ Number.maxIntegerDigits) :
    ∃ after, number ⟨0, (intText n).toList⟩ = .ok (.int n, after) ∧ after.rest = [] := by
  have hShort : ¬ Number.maxIntegerDigits < (Nat.toDigits 10 n.natAbs).length :=
    Nat.not_lt.mpr (Number.length_toDigits_le_iff.mpr h)
  have hSigned : (if !(if n < 0 then ['-'] else []).isEmpty then -(n.natAbs : Int) else n.natAbs) =
      n := by
    by_cases hNegative : n < 0
    · rw [if_pos hNegative]
      show -(n.natAbs : Int) = n
      omega
    · rw [if_neg hNegative]
      show (n.natAbs : Int) = n
      omega
  have hNotEmpty : (Nat.toDigits 10 n.natAbs).isEmpty = false :=
    List.isEmpty_eq_false_iff.mpr Nat.toDigits_ne_nil
  have hLength : (NumberParts.ofText (intText n).toList).length = (intText n).toList.length := by
    rw [ofText_intText, intText_toList]
    split <;> simp [NumberParts.length, Nat.add_comm]
  refine ⟨Cursor.advance ⟨0, (intText n).toList⟩ (intText n).toList.length, ?_, List.drop_length⟩
  rw [number_eq, ← hLength]
  dsimp only
  simp only [ofText_intText, NumberParts.read, hNotEmpty, Bool.false_eq_true, if_false,
    List.isEmpty_nil, Bool.and_self, if_true, if_neg hShort, Number.ofDigits_toDigits, hSigned]

/-! ## The characters of numbers -/

theorem mem_dropTrailingZeros {c : Char} {cs : List Char}
    (h : c ∈ Binary64.dropTrailingZeros cs) : c ∈ cs := by
  unfold Binary64.dropTrailingZeros at h
  exact List.mem_reverse.mp ((List.dropWhile_suffix _).subset (List.mem_reverse.mp h))

theorem isNumberChar_of_digit {c : Char} (h : Number.isAsciiDigit c = true) :
    isNumberChar c = true := by
  simp [isNumberChar, h]

theorem isNumberChar_of_mem_toDigits {c : Char} {n : Nat} (h : c ∈ Nat.toDigits 10 n) :
    isNumberChar c = true :=
  isNumberChar_of_digit (Number.isAsciiDigit_of_mem_toDigits h)

/-- Digits laid out have only characters of numbers. -/
theorem isNumberChar_of_mem_layout {d : DecimalDigits}
    (hDigits : ∀ c ∈ d.digits, isNumberChar c = true) :
    ∀ c ∈ Binary64.layout d, isNumberChar c = true := by
  have hZeros (n : Nat) : ∀ c ∈ List.replicate n '0', isNumberChar c = true := fun c hc =>
    List.eq_of_mem_replicate hc ▸ (by decide)
  have hPoint : ∀ c ∈ ['0', '.'], isNumberChar c = true := List.all_eq_true.mp (by decide)
  have hEnd : ∀ c ∈ ['.', '0'], isNumberChar c = true := List.all_eq_true.mp (by decide)
  unfold Binary64.layout
  -- without an exponent the point is in front of the digits, behind them or among them
  split
  · split
    · exact List.forall_mem_append.mpr ⟨List.forall_mem_append.mpr ⟨hPoint, hZeros _⟩, hDigits⟩
    · dsimp only
      split
      · exact List.forall_mem_append.mpr ⟨List.forall_mem_append.mpr ⟨hDigits, hZeros _⟩, hEnd⟩
      · refine List.forall_mem_append.mpr ⟨List.forall_mem_append.mpr ⟨?_, ?_⟩, ?_⟩
        · exact fun c hc => hDigits c (List.mem_of_mem_take hc)
        · exact List.forall_mem_singleton.mpr (by decide)
        · exact fun c hc => hDigits c (List.mem_of_mem_drop hc)
  · dsimp only
    -- with one there are the digits, the sign of the exponent and the exponent
    refine List.forall_mem_append.mpr ⟨List.forall_mem_append.mpr ⟨?_, ?_⟩, ?_⟩
    · split
      · exact nofun
      next c hEq => exact hEq ▸ hDigits
      next c rest _ hEq =>
        rw [hEq, List.forall_mem_cons] at hDigits
        exact List.forall_mem_cons.mpr ⟨hDigits.1, List.forall_mem_cons.mpr ⟨by decide, hDigits.2⟩⟩
    · split <;> exact List.all_eq_true.mp (by decide)
    · split
      · exact List.forall_mem_cons.mpr ⟨by decide, fun c => isNumberChar_of_mem_toDigits⟩
      · exact fun c => isNumberChar_of_mem_toDigits

/-- The text of an integer has only characters of numbers. -/
theorem isNumberChar_of_mem_intText {n : Int} :
    ∀ c ∈ (intText n).toList, isNumberChar c = true := by
  rw [intText_toList]
  split
  · exact List.forall_mem_cons.mpr ⟨by decide, fun c => isNumberChar_of_mem_toDigits⟩
  · exact fun c => isNumberChar_of_mem_toDigits

/-- So has the text of a finite double. -/
theorem isNumberChar_of_mem_render {negative : Bool} {m : Nat} {q : Int} :
    ∀ c ∈ ((Binary64.finite negative m q).render spelling).toList, isNumberChar c = true := by
  have hDigits : ∀ c ∈ if m = 0 then ['0', '.', '0'] else Binary64.layout (Binary64.shortest m q),
      isNumberChar c = true := by
    split
    · exact List.all_eq_true.mp (by decide)
    · exact isNumberChar_of_mem_layout fun c hc =>
        isNumberChar_of_mem_toDigits (mem_dropTrailingZeros hc)
  rw [Binary64.render, String.toList_ofList]
  split
  · exact List.forall_mem_cons.mpr ⟨by decide, hDigits⟩
  · exact hDigits

/-! ## Numbers as values -/

theorem isNumberChar_ne {c d : Char} (hc : isNumberChar c = true) (hd : isNumberChar d = false) :
    c ≠ d := by
  rintro rfl
  exact absurd hc (by rw [hd]; decide)

theorem isPrefixOf_cons_ne {c d : Char} (h : c ≠ d) (word text : List Char) :
    (d :: word).isPrefixOf (c :: text) = false := by
  rw [List.isPrefixOf, beq_false_of_ne h.symm, Bool.false_and]

/-- No word stands where a number does: the one that starts with a sign goes on with a letter. -/
theorem atom_eq_number {text rest : List Char} (hChars : ∀ c ∈ text, isNumberChar c = true)
    (hEmpty : text ≠ []) (hSign : text ≠ ['-']) (p : Nat) :
    atom ⟨p, text ++ rest⟩ = number ⟨p, text ++ rest⟩ := by
  have hNone : (keywords.find? fun entry => entry.1.isPrefixOf (text ++ rest)) = none := by
    obtain ⟨c, cs, rfl⟩ := List.exists_cons_of_ne_nil hEmpty
    have hWord {d : Char} (hd : isNumberChar d = false) (word : List Char) :
        (d :: word).isPrefixOf (c :: cs ++ rest) = false :=
      isPrefixOf_cons_ne (isNumberChar_ne (hChars c List.mem_cons_self) hd) word _
    -- one word starts like a number, with a minus; but no number goes on with a letter there
    have hInfinity (word : List Char) : ('-' :: 'I' :: word).isPrefixOf (c :: cs ++ rest) = false := by
      by_cases hc : c = '-'
      · subst hc
        obtain ⟨d, ds, rfl⟩ := List.exists_cons_of_ne_nil (l := cs) fun h => hSign (by rw [h])
        have hSecond := isPrefixOf_cons_ne
          (isNumberChar_ne (d := 'I') (hChars d (by simp)) rfl) word (ds ++ rest)
        rw [List.cons_append, List.cons_append, List.isPrefixOf, hSecond, Bool.and_false]
      · exact isPrefixOf_cons_ne hc _ _
    simp only [keywords, List.find?, hWord (d := 'n') rfl, hWord (d := 't') rfl,
      hWord (d := 'f') rfl, hWord (d := 'N') rfl, hWord (d := 'I') rfl, hInfinity]
  unfold atom
  split
  next hFound => cases hFound.symm.trans hNone
  next => rfl

/-- A value that starts with a character of a number is a word or a number. -/
theorem value_eq_atom {c : Char} (h : isNumberChar c = true) (cs : List Char) (fuel p : Nat) :
    value (fuel + 1) ⟨p, c :: cs⟩ = atom ⟨p, c :: cs⟩ := by
  have hFirst {d : Char} := isNumberChar_ne (d := d) h
  rw [value]
  split
  next hEq => cases hEq
  next hEq => exact absurd (List.cons.inj hEq).1 (hFirst rfl)
  next hEq => exact absurd (List.cons.inj hEq).1 (hFirst rfl)
  next hEq => exact absurd (List.cons.inj hEq).1 (hFirst rfl)
  next => rfl

/-- Characters of numbers are read as a number. -/
theorem value_eq_number {text : List Char} (hChars : ∀ c ∈ text, isNumberChar c = true)
    (hEmpty : text ≠ []) (hSign : text ≠ ['-']) (fuel p : Nat) (rest : List Char) :
    value (fuel + 1) ⟨p, text ++ rest⟩ = number ⟨p, text ++ rest⟩ := by
  rw [← atom_eq_number hChars hEmpty hSign]
  obtain ⟨c, cs, rfl⟩ := List.exists_cons_of_ne_nil hEmpty
  exact value_eq_atom (hChars c List.mem_cons_self) _ fuel p

/-- **A number is a value in front of anything that may follow it.** -/
theorem value_of_number {text rest : List Char} {v : Value} {after : Cursor}
    (hChars : ∀ c ∈ text, isNumberChar c = true) (h : number ⟨0, text⟩ = .ok (v, after))
    (hEnd : after.rest = []) (hRest : EndsNumber rest) (fuel p : Nat) :
    value (fuel + 1) ⟨p, text ++ rest⟩ = .ok (v, ⟨p + text.length, rest⟩) := by
  have hEmpty : text ≠ [] := by
    rintro rfl
    cases h
  have hSign : text ≠ ['-'] := by
    rintro rfl
    cases h
  rw [value_eq_number hChars hEmpty hSign, number_append h hEnd hRest]

/-- No character of a number is a blank. -/
theorem skipBlanks_of_numberChars {cs : List Char} (h : ∀ c ∈ cs, isNumberChar c = true)
    (p : Nat) : (⟨p, cs⟩ : Cursor).skipBlanks = ⟨p, cs⟩ := by
  cases cs with
  | nil => rfl
  | cons c cs =>
    have hFirst {d : Char} := isNumberChar_ne (d := d) (h c List.mem_cons_self)
    have hSpace : (c == ' ' || c == '\t' || c == '\n' || c == '\r') = false := by
      simp only [beq_false_of_ne (hFirst (d := ' ') rfl), beq_false_of_ne (hFirst (d := '\t') rfl),
        beq_false_of_ne (hFirst (d := '\n') rfl), beq_false_of_ne (hFirst (d := '\r') rfl),
        Bool.or_false]
    simp [Cursor.skipBlanks, hSpace]

/-- A text is the JSON of what its value is, when nothing but blanks stands around it. -/
theorem document_eq_ok_iff {text : List Char} {v : Value} : document text = .ok v ↔
    text.head? ≠ some '\ufeff' ∧ ∃ after : Cursor,
      value (2 * text.length + 1) (⟨0, text⟩ : Cursor).skipBlanks = .ok (v, after) ∧
        after.skipBlanks.rest = [] := by
  unfold document
  split
  next => exact ⟨nofun, fun h => absurd rfl h.1⟩
  next hMark =>
    have hHead : text.head? ≠ some '\ufeff' := fun h => by
      obtain ⟨cs, rfl⟩ := List.head?_eq_some_iff.mp h
      exact hMark cs rfl
    constructor
    · intro h
      refine ⟨hHead, ?_⟩
      dsimp only at h
      cases hValue : value (2 * text.length + 1) (⟨0, text⟩ : Cursor).skipBlanks with
      | error stop =>
        rw [hValue] at h
        cases h
      | ok read =>
        obtain ⟨v', after⟩ := read
        simp only [hValue, bind, Except.bind] at h
        split at h
        next hEnd =>
          cases h
          exact ⟨after, rfl, List.isEmpty_iff.mp hEnd⟩
        · cases h
    · rintro ⟨-, after, hValue, hEnd⟩
      simp only [hValue, bind, Except.bind, hEnd, List.isEmpty_nil, if_true]

theorem parse_eq_ok_iff {text : String} {v : Value} :
    parse text = .ok v ↔ document text.toList = .ok v := by
  unfold parse
  cases document text.toList with
  | ok v' => simp [Except.mapError]
  | error stop => simp [Except.mapError]

/-- A document with only characters of numbers is a number. -/
theorem number_of_document {text : List Char} {v : Value}
    (hChars : ∀ c ∈ text, isNumberChar c = true) (h : document text = .ok v) :
    ∃ after, number ⟨0, text⟩ = .ok (v, after) ∧ after.rest = [] := by
  have hEmpty : text ≠ [] := by
    rintro rfl
    cases h
  have hSign : text ≠ ['-'] := by
    rintro rfl
    cases h
  have hValue := value_eq_number hChars hEmpty hSign (2 * text.length) 0 []
  rw [List.append_nil] at hValue
  obtain ⟨-, after, hRead, hEnd⟩ := document_eq_ok_iff.mp h
  rw [skipBlanks_of_numberChars hChars, hValue] at hRead
  obtain ⟨rfl, -⟩ := NumberParts.read_ok (number_eq _ ▸ hRead) ⟨0, []⟩
  rw [Cursor.advance, skipBlanks_of_numberChars fun c hc => hChars c (List.mem_of_mem_drop hc)] at hEnd
  exact ⟨_, hRead, hEnd⟩

/-- A double whose text is read as the double. -/
def ReadsBack (x : Binary64) : Prop :=
  parse (x.render spelling) = .ok (.float x)

theorem inRange_of_number {c after : Cursor} {x : Binary64} (h : number c = .ok (.float x, after)) :
    x.InRange := by
  rw [number_eq, NumberParts.read] at h
  split at h
  · cases h
  split at h
  · split at h <;> cases h
  split at h
  · next y hDecimal =>
    cases h
    exact Number.inRange_decimalOfDigits? hDecimal
  · cases h

/-- A double that is read back is in range. -/
theorem ReadsBack.inRange {x : Binary64} (h : ReadsBack x) : x.InRange := by
  cases x with
  | nan | infinite => exact nofun
  | finite negative m q =>
    obtain ⟨after, hNumber, -⟩ :=
      number_of_document isNumberChar_of_mem_render (parse_eq_ok_iff.mp h)
    exact inRange_of_number hNumber

end IntegrationCompiler.Json
