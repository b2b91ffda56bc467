import IntegrationCompiler.Value.Text
import Mathlib.Algebra.Group.Nat.Defs
import Mathlib.Data.List.Infix
import Mathlib.Data.List.TakeWhile

/-!
# Numerals

The decimal text of an integer is read back as the integer, and what a numeral stands for has a whole
part that can be written.

Main results:

* `Number.ofDigits_toDigits` — the digits of a number stand for it;
* `Number.ofNumeral?_intText` — an integer is read back from its text, if its text is not too long;
* `Binary64.inRange_ofDecimal`, `Number.inRange_ofNumeral?` — numbers that are read are in range.
-/

namespace IntegrationCompiler

/-! ## Digits -/

/-- What stands after the part of a text that satisfies a test leaves that part as it is. -/
theorem takeWhile_append_of_head {α : Type} {p : α → Bool} {rest : List α}
    (h : ∀ a ∈ rest.head?, p a = false) (as : List α) :
    (as ++ rest).takeWhile p = as.takeWhile p := by
  induction as with
  | nil =>
    cases rest with
    | nil => rfl
    | cons a rest => simp [h a rfl]
  | cons a as ih =>
    rw [List.cons_append, List.takeWhile_cons, List.takeWhile_cons, ih]

namespace Number

theorem isAsciiDigit_iff {c : Char} : isAsciiDigit c = true ↔ 48 ≤ c.toNat ∧ c.toNat ≤ 57 := by
  rw [isAsciiDigit, Bool.and_eq_true, decide_eq_true_iff, decide_eq_true_iff]
  rfl

/-- The digits of a number are digits. -/
theorem isAsciiDigit_of_mem_toDigits {n : Nat} {c : Char} (h : c ∈ Nat.toDigits 10 n) :
    isAsciiDigit c = true := by
  have hDigit : c.isDigit = true := Nat.isDigit_of_mem_toDigits (by decide) (by decide) h
  rw [Char.isDigit, Bool.and_eq_true, decide_eq_true_iff, decide_eq_true_iff] at hDigit
  exact isAsciiDigit_iff.mpr hDigit

theorem takeWhile_toDigits (n : Nat) :
    (Nat.toDigits 10 n).takeWhile isAsciiDigit = Nat.toDigits 10 n :=
  List.takeWhile_eq_self_iff.mpr fun _ h => isAsciiDigit_of_mem_toDigits h

/-- The digits of a number stand for it. -/
theorem ofDigits_toDigits (n : Nat) :
    Text.ofDigits ((Nat.toDigits 10 n).map asciiValue) = n := by
  have hFold : ∀ (cs : List Char) (acc : Nat),
      (cs.map asciiValue).foldl (fun acc d => acc * 10 + d) acc = Nat.ofDigitChars 10 cs acc := by
    intro cs
    induction cs with
    | nil => exact fun _ => rfl
    | cons c rest ih =>
      intro acc
      rw [List.map_cons, List.foldl_cons, ih, Nat.ofDigitChars_cons, Nat.mul_comm]
      rfl
  rw [Text.ofDigits, hFold, Nat.ofDigitChars_ten_toDigits]

/-- Only zero starts with a zero. -/
theorem head?_toDigits_ne {n : Nat} (h : n ≠ 0) : (Nat.toDigits 10 n).head? ≠ some '0' := by
  induction n using Nat.strong_induction_on with
  | h n ih =>
    rw [Nat.toDigits_eq_if (by decide)]
    split
    · next hSmall =>
      have hDigit : ∀ d, d < 10 → d ≠ 0 → d.digitChar ≠ '0' := by decide
      rw [List.head?_cons]
      exact fun hZero => hDigit n hSmall h (Option.some.inj hZero)
    · next hLarge =>
      have hHead : (Nat.toDigits 10 (n / 10)).head? ≠ some '0' := ih (n / 10) (by omega) (by omega)
      obtain ⟨c, cs, hCons⟩ := List.exists_cons_of_ne_nil (@Nat.toDigits_ne_nil (n / 10) 10)
      rw [hCons] at hHead ⊢
      exact hHead

/-- A number has at most as many digits as the limit allows exactly if it lies below a power of
ten. -/
theorem length_toDigits_le_iff {n : Nat} :
    (Nat.toDigits 10 n).length ≤ maxIntegerDigits ↔ n < 10 ^ maxIntegerDigits :=
  Nat.length_toDigits_le_iff (by decide) (by decide)

end Number

/-! ## The text of an integer -/

/-- The characters of the text of an integer. -/
theorem intText_toList (n : Int) : (intText n).toList =
    if n < 0 then '-' :: Nat.toDigits 10 n.natAbs else Nat.toDigits 10 n.natAbs := by
  rw [intText, String.toList_ofList]

/-- An integer can be written unless it has too many digits. -/
theorem intText?_isSome_iff {n : Int} :
    (intText? n).isSome ↔ n.natAbs < 10 ^ Number.maxIntegerDigits := by
  rw [← Number.length_toDigits_le_iff, intText?]
  split
  · next hLong => exact iff_of_false Bool.false_ne_true (Nat.not_le.mpr hLong)
  · next hShort => exact iff_of_true rfl (Nat.not_lt.mp hShort)

namespace Number

/-- The digits of a text that has nothing else are its plain digits. -/
theorem plainDigits_of_ascii {cs : List Char} (h : ∀ c ∈ cs, isAsciiDigit c = true) :
    plainDigits cs = cs := by
  unfold plainDigits
  refine (List.map_congr_left fun c hc => ?_).trans (List.map_id cs)
  obtain ⟨hLow, hHigh⟩ := isAsciiDigit_iff.mp (h c hc)
  have hFind : Text.digitValue? c = some (c.toNat - 0x30) := by
    rw [Text.digitValue?, Text.zeroDigits, List.find?_cons_of_pos (by simp; omega)]
    rfl
  rw [hFind]
  dsimp only
  rw [Nat.add_sub_cancel' hLow]
  exact Char.ofNat_toNat c

theorem dropUnderscores_of_ascii {cs : List Char} (h : ∀ c ∈ cs, isAsciiDigit c = true) :
    dropUnderscores cs = some cs := by
  have hNone : ∀ {c : Char}, isAsciiDigit c = true → c ≠ '_' := by
    rintro _ hDigit rfl
    exact absurd hDigit (by decide)
  induction cs with
  | nil => rfl
  | cons c rest ih =>
    have hc := hNone (h c List.mem_cons_self)
    have ih := ih fun d hd => h d (List.mem_cons_of_mem _ hd)
    -- Underscores are looked for at the first two characters.
    cases rest with
    | nil => simp [dropUnderscores]
    | cons d rest =>
      have hd := hNone (h d (List.mem_cons_of_mem _ List.mem_cons_self))
      simp [dropUnderscores, hd, ih]

/-- **Reading an integer back.** -/
theorem integerOfNumeral?_intText {n : Int} (h : n.natAbs < 10 ^ maxIntegerDigits) :
    integerOfNumeral? (intText n).toList = some n := by
  have hDigits : ∀ c ∈ Nat.toDigits 10 n.natAbs, isAsciiDigit c = true :=
    fun _ hc => isAsciiDigit_of_mem_toDigits hc
  have hSign : splitSign (intText n).toList = (decide (n < 0), Nat.toDigits 10 n.natAbs) := by
    rw [intText_toList]
    split
    · next hNegative => rw [splitSign, decide_eq_true hNegative]
    · next hPositive =>
      rw [decide_eq_false hPositive, splitSign]
      · rintro rest hEq
        exact absurd (hDigits '-' (by simp [hEq])) (by decide)
      · rintro rest hEq
        exact absurd (hDigits '+' (by simp [hEq])) (by decide)
  have hEmpty : (Nat.toDigits 10 n.natAbs).isEmpty = false :=
    List.isEmpty_eq_false_iff.mpr Nat.toDigits_ne_nil
  have hAll : (Nat.toDigits 10 n.natAbs).all isAsciiDigit = true := List.all_eq_true.mpr hDigits
  have hLength : ¬ maxIntegerDigits < (Nat.toDigits 10 n.natAbs).length :=
    Nat.not_lt.mpr (length_toDigits_le_iff.mpr h)
  -- digits of a text are ASCII digits without underscores, so they are taken as they are
  rw [integerOfNumeral?, hSign]
  simp only [plainDigits_of_ascii hDigits, dropUnderscores_of_ascii hDigits, Option.bind_eq_bind,
    Option.bind_some, hEmpty, hAll, Bool.not_true, Bool.or_false, hLength,
    decide_false, Bool.false_eq_true, if_false, ofDigits_toDigits, decide_eq_true_eq]
  congr 1
  split <;> omega

/-- No character of the text of an integer is a blank. -/
theorem not_isBlank_of_mem_intText {n : Int} {c : Char} (h : c ∈ (intText n).toList) :
    Text.isBlank c = false := by
  have hDigit : ∀ d ∈ Nat.toDigits 10 n.natAbs, Text.isBlank d = false := by
    intro d hd
    obtain ⟨hLow, hHigh⟩ := isAsciiDigit_iff.mp (isAsciiDigit_of_mem_toDigits hd)
    simp only [Text.isBlank, Bool.or_eq_false_iff, Bool.and_eq_false_iff, decide_eq_false_iff_not,
      beq_eq_false_iff_ne]
    omega
  rw [intText_toList] at h
  split at h
  · rcases List.mem_cons.mp h with rfl | hd
    · decide
    · exact hDigit c hd
  · exact hDigit c h

end Number

/-- Nothing is trimmed off a text without blanks at its ends. -/
theorem Text.trim_of_ends {cs : List Char} (hFirst : ∀ c ∈ cs.head?, isBlank c = false)
    (hLast : ∀ c ∈ cs.getLast?, isBlank c = false) : trim cs = cs := by
  have hKeep : ∀ ds : List Char, (∀ c ∈ ds.head?, isBlank c = false) →
      ds.dropWhile isBlank = ds := by
    intro ds hds
    cases ds with
    | nil => rfl
    | cons d rest => rw [List.dropWhile_cons_of_neg (by simp [hds d rfl])]
  rw [trim, trimLeft, hKeep cs hFirst, trimRight, hKeep, List.reverse_reverse]
  rw [List.head?_reverse]
  exact hLast

/-- **The text of an integer is a numeral for it**, with or without blanks taken off. -/
theorem Number.ofNumeral?_intText {n : Int} (h : n.natAbs < 10 ^ maxIntegerDigits) :
    ofNumeral? (Text.trim (intText n).toList) = some (.int n) := by
  have hTrim : Text.trim (intText n).toList = (intText n).toList := Text.trim_of_ends
    (fun _ hc => not_isBlank_of_mem_intText (List.mem_of_mem_head? hc))
    (fun _ hc => not_isBlank_of_mem_intText (List.mem_of_mem_getLast? hc))
  rw [hTrim, ofNumeral?, integerOfNumeral?_intText h]

/-! ## Long runs of digits -/

/-- The text holds more digits in a row than an integer may have. -/
def Number.HasLongRun (text : List Char) : Prop :=
  ∃ digits, digits <:+: text ∧ (∀ c ∈ digits, isAsciiDigit c = true) ∧
    maxIntegerDigits < digits.length

/-! ## The range of numbers -/

namespace Binary64

/-- The largest number of binary digits of the whole part of a double. -/
def maxLength : Nat := 1024

/-- The whole part, if there is one, is not too long for a double. -/
def InRange (x : Binary64) : Prop :=
  ∀ n, x.truncate? = some n → n.natAbs < 2 ^ maxLength

variable {negative : Bool} {m a : Nat} {q : Int}

theorem lt_two_pow_bitLength (n : Nat) : n < 2 ^ bitLength n := by
  unfold bitLength
  split
  · next hZero =>
    rw [hZero]
    exact Nat.one_pos
  · exact Nat.lt_log2_self

theorem natAbs_truncate?_lt (limit : Nat) (hm : m < 2 ^ a) (hq : q + a ≤ limit) {n : Int}
    (h : (finite negative m q).truncate? = some n) : n.natAbs < 2 ^ limit := by
  have hSigned (k : Nat) : (signed negative k).natAbs = k := by
    unfold signed
    split <;> omega
  cases h
  rw [hSigned]
  split
  · calc m <<< q.toNat = m * 2 ^ q.toNat := Nat.shiftLeft_eq _ _
      _ < 2 ^ a * 2 ^ q.toNat := Nat.mul_lt_mul_of_pos_right hm (Nat.two_pow_pos _)
      _ = 2 ^ (a + q.toNat) := (Nat.pow_add 2 a q.toNat).symm
      _ ≤ 2 ^ limit := Nat.pow_le_pow_right Nat.two_pos (by omega)
  · rw [Nat.shiftRight_eq_div_pow]
    refine Nat.div_lt_of_lt_mul (Nat.lt_of_lt_of_le hm ?_)
    rw [← Nat.pow_add]
    exact Nat.pow_le_pow_right Nat.two_pos (by omega)

/-- What the mantissa loses, the exponent gains. -/
theorem reduce_lt (hm : m < 2 ^ a) (hq : q + a ≤ maxLength) :
    ∃ b : Nat, (reduce m q).1 < 2 ^ b ∧ (reduce m q).2 + b ≤ maxLength := by
  fun_induction reduce m q generalizing a with
  | case1 q => exact ⟨0, Nat.one_pos, by decide⟩
  | case2 m q hSome hEven ih =>
    cases a with
    | zero => omega
    | succ a =>
      rw [Nat.pow_succ] at hm
      exact ih (a := a) (by omega) (by omega)
  | case3 m q hSome hOdd => exact ⟨a, hm, hq⟩

/-- A mantissa in its unit, unless both together are too large. -/
theorem inRange_rounded (m : Nat) (q : Int) :
    (if 1024 < q + bitLength m then infinite negative else ofDyadic negative m q).InRange := by
  split
  · rintro n ⟨⟩
  · next hNot =>
    obtain ⟨b, hm, hq⟩ := reduce_lt (lt_two_pow_bitLength m) (Int.not_lt.mp hNot)
    exact fun _ => natAbs_truncate?_lt maxLength hm hq

theorem inRange_zero : (finite negative 0 0).InRange :=
  fun _ => natAbs_truncate?_lt maxLength (a := 0) Nat.one_pos (by decide)

theorem inRange_ofQuotient (num den : Nat) : (ofQuotient negative num den).InRange := by
  unfold ofQuotient
  dsimp only
  split
  · exact inRange_zero
  · exact inRange_rounded _ _

theorem inRange_ofDecimal (digits : Nat) (exponent : Int) :
    (ofDecimal negative digits exponent).InRange := by
  unfold ofDecimal
  dsimp only
  split
  · exact inRange_zero
  split
  · rintro n ⟨⟩
  split
  · exact inRange_zero
  split
  · exact inRange_ofQuotient _ _
  · exact inRange_ofQuotient _ _

end Binary64

namespace Number

/-- An integer can be written, and a double is in its range. -/
def InRange : Number → Prop
  | .int n => n.natAbs < 10 ^ maxIntegerDigits
  | .float x => x.InRange

/-- Digits behind a number that has been read. -/
theorem foldl_digits_lt {ds : List Nat} (h : ∀ d ∈ ds, d < 10) (n : Nat) :
    ds.foldl (fun acc d => acc * 10 + d) n < (n + 1) * 10 ^ ds.length := by
  induction ds generalizing n with
  | nil => simp
  | cons d ds ih =>
    obtain ⟨hFirst, hRest⟩ := List.forall_mem_cons.mp h
    calc ds.foldl (fun acc d => acc * 10 + d) (n * 10 + d)
        < (n * 10 + d + 1) * 10 ^ ds.length := ih hRest _
      _ ≤ ((n + 1) * 10) * 10 ^ ds.length := Nat.mul_le_mul_right _ (by omega)
      _ = (n + 1) * 10 ^ (ds.length + 1) := by rw [Nat.mul_assoc, Nat.pow_succ']

theorem ofDigits_lt {ds : List Nat} (h : ∀ d ∈ ds, d < 10) : Text.ofDigits ds < 10 ^ ds.length := by
  simpa [Text.ofDigits] using foldl_digits_lt h 0

theorem asciiValue_lt {c : Char} (h : isAsciiDigit c = true) : asciiValue c < 10 := by
  obtain ⟨-, hHigh⟩ := isAsciiDigit_iff.mp h
  unfold asciiValue
  omega

theorem inRange_decimalOfDigits? {negative : Bool} {cs : List Char} {x : Binary64}
    (h : decimalOfDigits? negative cs = some x) : x.InRange := by
  have hScaled {rest : List Char} {digits places : Nat}
      (h : (do
        let exponent ← exponentPart? rest
        some (Binary64.ofDecimal negative digits (exponent - places))) = some x) : x.InRange := by
    obtain ⟨exponent, -, h⟩ := Option.bind_eq_some_iff.mp h
    cases h
    exact Binary64.inRange_ofDecimal _ _
  unfold decimalOfDigits? at h
  dsimp only at h
  -- with a point or without one
  split at h
  · split at h
    · cases h
    · exact hScaled h
  · split at h
    · cases h
    · exact hScaled h

theorem natAbs_lt_of_integerOfNumeral? {cs : List Char} {n : Int}
    (h : integerOfNumeral? cs = some n) : n.natAbs < 10 ^ maxIntegerDigits := by
  unfold integerOfNumeral? at h
  dsimp only at h
  obtain ⟨digits, -, h⟩ := Option.bind_eq_some_iff.mp h
  split at h
  · cases h
  · next hDigits =>
    simp only [Bool.or_eq_true, not_or, Bool.not_eq_true, decide_eq_true_eq, Nat.not_lt,
      Bool.not_eq_false', List.all_eq_true] at hDigits
    obtain ⟨⟨-, hAll⟩, hLength⟩ := hDigits
    have hValue : Text.ofDigits (digits.map asciiValue) < 10 ^ maxIntegerDigits := by
      refine Nat.lt_of_lt_of_le (ofDigits_lt (List.forall_mem_map.mpr fun c hc =>
        asciiValue_lt (hAll c hc))) (Nat.pow_le_pow_right (by decide) ?_)
      rwa [List.length_map]
    cases h
    split <;> omega

/-- **A number that a numeral stands for is in range.** -/
theorem inRange_ofNumeral? {cs : List Char} {n : Number} (h : ofNumeral? cs = some n) :
    n.InRange := by
  unfold ofNumeral? at h
  split at h
  · next n hInteger =>
    cases h
    exact natAbs_lt_of_integerOfNumeral? hInteger
  · obtain ⟨x, hx, rfl⟩ := Option.map_eq_some_iff.mp h
    unfold floatOfNumeral? at hx
    dsimp only at hx
    split at hx
    · cases hx
      rintro n ⟨⟩
    split at hx
    · cases hx
      rintro n ⟨⟩
    · obtain ⟨plain, -, hx⟩ := Option.bind_eq_some_iff.mp hx
      exact inRange_decimalOfDigits? hx

end Number

end IntegrationCompiler
