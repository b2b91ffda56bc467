import IntegrationCompiler.Json.Printer
import IntegrationCompiler.Json.Reader
import Mathlib.Data.Nat.Init

/-!
# Reading JSON strings back

A string that is written as JSON is read back character by character, whether or not what lies
outside ASCII is escaped.

* `Json.hex4?_hex` — four hexadecimal digits are read back;
* `Json.Escape`, `Json.stringBody_escape` — how a character can be written, and that it is read back;
* `Json.string_quote` — a whole string is.
-/

namespace IntegrationCompiler.Json

/-! ## Escapes of units -/

/-- The four hexadecimal digits of a 16-bit unit. -/
theorem hex_four {n : Nat} (h : n < 0x10000) : Text.hex 4 n =
    [(n / 0x1000).digitChar, (n / 0x100 % 16).digitChar, (n / 16 % 16).digitChar,
      (n % 16).digitChar] := by
  -- Leading zeros are padding, so that each length of the digits is a case of its own.
  rcases Nat.lt_or_ge n 16 with h1 | h1
  · have hDigits : n / 0x1000 = 0 ∧ n / 0x100 % 16 = 0 ∧ n / 16 % 16 = 0 ∧ n % 16 = n := by omega
    rw [Text.hex, Nat.toDigits_of_lt_base h1, hDigits.1, hDigits.2.1, hDigits.2.2.1, hDigits.2.2.2]
    rfl
  have hLast : Nat.toDigits 16 n = Nat.toDigits 16 (n / 16) ++ [(n % 16).digitChar] :=
    Nat.toDigits_of_base_le (by decide) h1
  rcases Nat.lt_or_ge n 0x100 with h2 | h2
  · have hDigits : n / 0x1000 = 0 ∧ n / 0x100 % 16 = 0 ∧ n / 16 % 16 = n / 16 := by omega
    rw [Text.hex, hLast, Nat.toDigits_of_lt_base (by omega), hDigits.1, hDigits.2.1, hDigits.2.2]
    rfl
  have hThird : Nat.toDigits 16 (n / 16) =
      Nat.toDigits 16 (n / 0x100) ++ [(n / 16 % 16).digitChar] := by
    rw [Nat.toDigits_of_base_le (by decide) (by omega), Nat.div_div_eq_div_mul]
  rcases Nat.lt_or_ge n 0x1000 with h3 | h3
  · have hDigits : n / 0x1000 = 0 ∧ n / 0x100 % 16 = n / 0x100 := by omega
    rw [Text.hex, hLast, hThird, Nat.toDigits_of_lt_base (by omega), hDigits.1, hDigits.2]
    rfl
  · have hSecond : Nat.toDigits 16 (n / 0x100) =
        Nat.toDigits 16 (n / 0x1000) ++ [(n / 0x100 % 16).digitChar] := by
      rw [Nat.toDigits_of_base_le (by decide) (by omega), Nat.div_div_eq_div_mul]
    rw [Text.hex, hLast, hThird, hSecond, Nat.toDigits_of_lt_base (n := n / 0x1000) (by omega)]
    rfl

/-- Hexadecimal digits are read back, whatever follows them. -/
theorem hex4?_digits {a b c d : Nat} (ha : a < 16) (hb : b < 16) (hc : c < 16) (hd : d < 16)
    (rest : List Char) :
    hex4? (a.digitChar :: b.digitChar :: c.digitChar :: d.digitChar :: rest) =
      some (((a * 16 + b) * 16 + c) * 16 + d) := by
  have hValue : ∀ n, n < 16 →
      (if '0' ≤ n.digitChar && n.digitChar ≤ '9' then some (n.digitChar.toNat - 0x30)
      else if 'a' ≤ n.digitChar && n.digitChar ≤ 'f' then some (n.digitChar.toNat - 0x61 + 10)
      else if 'A' ≤ n.digitChar && n.digitChar ≤ 'F' then some (n.digitChar.toNat - 0x41 + 10)
      else none) = some n := by
    decide
  simp only [hex4?, hValue a ha, hValue b hb, hValue c hc, hValue d hd, Option.bind_eq_bind,
    Option.bind_some]

theorem hex4?_hex {n : Nat} (h : n < 0x10000) (rest : List Char) :
    hex4? (Text.hex 4 n ++ rest) = some n := by
  rw [hex_four h]
  show hex4? (_ :: _ :: _ :: _ :: rest) = _
  rw [hex4?_digits (by omega) (by omega) (by omega) (by omega)]
  congr 1
  omega

theorem length_hex_four {n : Nat} (h : n < 0x10000) : (Text.hex 4 n).length = 4 := by
  rw [hex_four h]
  rfl

/-! ## Characters -/

theorem charOfCode_toNat (c : Char) : Text.charOfCode c.toNat = c := by
  have hValid : c.toNat.isValidChar := c.valid
  rw [Text.charOfCode, if_pos hValid, Char.ofNat_toNat]

/-- A unit that is no surrogate is read from its escape. -/
theorem unicodeEscape_unit {n : Nat} (h : n < 0x10000) (hSingle : n < 0xD800 ∨ 0xDFFF < n)
    (position : Nat) {rest : List Char} (hRest : rest ≠ []) :
    unicodeEscape position (Text.hex 4 n ++ rest) = .ok (n, 4, rest) := by
  have hDrop : (Text.hex 4 n ++ rest).drop 4 = rest :=
    List.drop_left' (length_hex_four h)
  have hHigh : (decide (0xD800 ≤ n) && decide (n < 0xDC00)) = false := by
    rw [Bool.and_eq_false_iff, decide_eq_false_iff_not, decide_eq_false_iff_not]
    omega
  unfold unicodeEscape
  dsimp only
  rw [hDrop, hex4?_hex h, List.isEmpty_eq_false_iff.mpr hRest]
  simp [hHigh]

/-- A pair of surrogates is read from its two escapes. -/
theorem unicodeEscape_pair {m : Nat} (h : m < 0x100000) (position : Nat) {rest : List Char}
    (hRest : rest ≠ []) :
    unicodeEscape position
        (Text.hex 4 (0xD800 + m / 0x400) ++ (unitEscape (0xDC00 + m % 0x400) ++ rest)) =
      .ok (0x10000 + m, 10, rest) := by
  have hHigh : 0xD800 + m / 0x400 < 0x10000 := by omega
  have hLow : 0xDC00 + m % 0x400 < 0x10000 := by omega
  have hDrop : (Text.hex 4 (0xD800 + m / 0x400) ++ (unitEscape (0xDC00 + m % 0x400) ++ rest)).drop 4 =
      unitEscape (0xDC00 + m % 0x400) ++ rest :=
    List.drop_left' (length_hex_four hHigh)
  have hAfter : (unitEscape (0xDC00 + m % 0x400) ++ rest).drop 6 = rest := by
    have hLength : (unitEscape (0xDC00 + m % 0x400)).length = 6 := by
      rw [unitEscape, List.length_cons, List.length_cons, length_hex_four hLow]
    exact List.drop_left' hLength
  have hDigits : (unitEscape (0xDC00 + m % 0x400) ++ rest).drop 2 =
      Text.hex 4 (0xDC00 + m % 0x400) ++ rest := rfl
  have hMark : (unitEscape (0xDC00 + m % 0x400) ++ rest).take 2 = ['\\', 'u'] := rfl
  have hIsHigh : (decide (0xD800 ≤ 0xD800 + m / 0x400) && decide (0xD800 + m / 0x400 < 0xDC00)) =
      true := by
    rw [Bool.and_eq_true, decide_eq_true_iff, decide_eq_true_iff]
    omega
  have hIsLow : (decide (0xDC00 ≤ 0xDC00 + m % 0x400) && decide (0xDC00 + m % 0x400 < 0xE000)) =
      true := by
    rw [Bool.and_eq_true, decide_eq_true_iff, decide_eq_true_iff]
    omega
  have hCode : 0x10000 + (0xD800 + m / 0x400 - 0xD800) * 0x400 + (0xDC00 + m % 0x400 - 0xDC00) =
      0x10000 + m := by
    omega
  -- the first unit is a high surrogate, so a second escape is looked for and put together with it
  unfold unicodeEscape
  dsimp only
  rw [hDrop, hex4?_hex hHigh]
  dsimp only
  rw [hAfter, hMark, hDigits, hex4?_hex hLow, hIsHigh, List.isEmpty_eq_false_iff.mpr hRest]
  dsimp only
  rw [hIsLow, hCode]
  simp [unitEscape]

/-- A character that is not escaped is read as it is. -/
theorem stringBody_plain {c : Char} (hQuote : c ≠ '"') (hEscape : c ≠ '\\')
    (hPrinted : 0x20 ≤ c.toNat) (start fuel : Nat) (acc : List Char) (p : Nat) (rest : List Char) :
    stringBody start (fuel + 1) acc ⟨p, c :: rest⟩ =
      stringBody start fuel (c :: acc) ⟨p + 1, rest⟩ := by
  simp [stringBody, hEscape, Nat.not_lt.mpr hPrinted]

/-- A character behind a backslash is read as what its letter stands for. -/
theorem stringBody_letter {letter c : Char} (h : simpleEscape? letter = some c)
    (start fuel : Nat) (acc : List Char) (p : Nat) (rest : List Char) :
    stringBody start (fuel + 1) acc ⟨p, '\\' :: letter :: rest⟩ =
      stringBody start fuel (c :: acc) ⟨p + 2, rest⟩ := by
  have hUnit : letter ≠ 'u' := by
    rintro rfl
    cases h
  simp [stringBody, h]

theorem stringBody_unicode {c : Char} {digits rest : List Char} {used : Nat}
    (h : ∀ position, unicodeEscape position (digits ++ rest) = .ok (c.toNat, used, rest))
    (start fuel : Nat) (acc : List Char) (p : Nat) :
    stringBody start (fuel + 1) acc ⟨p, '\\' :: 'u' :: (digits ++ rest)⟩ =
      stringBody start fuel (c :: acc) ⟨p + 2 + used, rest⟩ := by
  simp [stringBody, h, charOfCode_toNat]

/-- How a character can be written in a string. -/
inductive Escape (c : Char) : List Char → Prop where
  | plain (hQuote : c ≠ '"') (hEscape : c ≠ '\\') (hPrinted : 0x20 ≤ c.toNat) : Escape c [c]
  | letter {letter : Char} (h : simpleEscape? letter = some c) : Escape c ['\\', letter]
  | unit (h : c.toNat < 0x10000) : Escape c (unitEscape c.toNat)
  | pair {m : Nat} (h : c.toNat = 0x10000 + m) :
    Escape c (unitEscape (0xD800 + m / 0x400) ++ unitEscape (0xDC00 + m % 0x400))

theorem escape_escapeChar (ascii : Bool) (c : Char) : Escape c (escapeChar ascii c) := by
  unfold escapeChar
  -- quote and backslash stand for themselves, five characters have letters, the rest have numbers
  by_cases hSelf : c = '"' ∨ c = '\\'
  · rw [if_pos (by simpa using hSelf)]
    refine .letter ?_
    rcases hSelf with rfl | rfl <;> rfl
  · rw [if_neg (by simpa using hSelf)]
    obtain ⟨hQuote, hEscape⟩ := not_or.mp hSelf
    iterate 5
      split
      · next h =>
        subst h
        exact .letter rfl
    by_cases hHidden : (decide (c.toNat < 0x20) || ascii && decide (0x7F ≤ c.toNat)) = true
    · rw [if_pos hHidden]
      by_cases hUnit : c.toNat < 0x10000
      · rw [if_pos hUnit]
        exact .unit hUnit
      · rw [if_neg hUnit]
        exact .pair (by omega)
    · rw [if_neg hHidden]
      rw [Bool.not_eq_true, Bool.or_eq_false_iff, decide_eq_false_iff_not, Nat.not_lt] at hHidden
      exact .plain hQuote hEscape hHidden.1

theorem Escape.length_pos {c : Char} {cs : List Char} (h : Escape c cs) : 0 < cs.length := by
  cases h <;> exact Nat.succ_pos _

theorem length_unitEscape {n : Nat} (h : n < 0x10000) : (unitEscape n).length = 6 := by
  rw [unitEscape, List.length_cons, List.length_cons, length_hex_four h]

/-- **Reading a character back.** However a character is written, it is read, if anything follows
it. -/
theorem stringBody_escape {c : Char} {cs : List Char} (h : Escape c cs) (start fuel : Nat)
    (acc : List Char) (p : Nat) {rest : List Char} (hRest : rest ≠ []) :
    stringBody start (fuel + 1) acc ⟨p, cs ++ rest⟩ =
      stringBody start fuel (c :: acc) ⟨p + cs.length, rest⟩ := by
  cases h with
  | plain hQuote hEscape hPrinted =>
    exact stringBody_plain hQuote hEscape hPrinted start fuel acc p rest
  | letter hMeans => exact stringBody_letter hMeans start fuel acc p rest
  | unit hUnit =>
    -- A character is no surrogate.
    have hSingle : c.toNat < 0xD800 ∨ 0xDFFF < c.toNat := c.valid.imp id And.left
    rw [length_unitEscape hUnit]
    exact stringBody_unicode (fun position => unicodeEscape_unit hUnit hSingle position hRest)
      start fuel acc p
  | @pair m hCode =>
    have hLarge : c.toNat < 0x110000 := c.valid.elim (fun h => Nat.lt_trans h (by decide)) And.right
    have hEscapes (position : Nat) : unicodeEscape position
        (Text.hex 4 (0xD800 + m / 0x400) ++ unitEscape (0xDC00 + m % 0x400) ++ rest) =
          .ok (c.toNat, 10, rest) := by
      rw [List.append_assoc, hCode]
      exact unicodeEscape_pair (by omega) position hRest
    rw [List.length_append, length_unitEscape (by omega), length_unitEscape (by omega)]
    exact stringBody_unicode hEscapes start fuel acc p

/-! ## Strings -/

/-- The escapes of characters are read up to the closing mark. -/
theorem stringBody_escapes (ascii : Bool) (start : Nat) (rest cs : List Char) :
    ∀ (fuel : Nat) (acc : List Char) (p : Nat), cs.length < fuel →
      stringBody start fuel acc ⟨p, cs.flatMap (escapeChar ascii) ++ '"' :: rest⟩ =
        .ok (String.ofList (acc.reverse ++ cs),
          ⟨p + (cs.flatMap (escapeChar ascii)).length + 1, rest⟩) := by
  induction cs with
  | nil =>
    intro fuel acc p hFuel
    obtain ⟨fuel, rfl⟩ := Nat.exists_eq_add_of_lt hFuel
    rw [stringBody, List.append_nil]
    rfl
  | cons c cs ih =>
    intro fuel acc p hFuel
    obtain ⟨fuel, rfl⟩ := Nat.exists_eq_add_of_lt (Nat.lt_of_le_of_lt (Nat.zero_le _) hFuel)
    rw [List.length_cons] at hFuel
    rw [List.flatMap_cons, List.append_assoc, Nat.zero_add,
      stringBody_escape (escape_escapeChar ascii c), ih]
    · rw [List.reverse_cons, List.append_assoc, List.length_append, Nat.add_assoc p]
      rfl
    · omega
    · simp

theorem length_le_flatMap_escapeChar (ascii : Bool) (cs : List Char) :
    cs.length ≤ (cs.flatMap (escapeChar ascii)).length := by
  induction cs with
  | nil => exact Nat.le_refl 0
  | cons c cs ih =>
    have hOne : 0 < (escapeChar ascii c).length := (escape_escapeChar ascii c).length_pos
    rw [List.flatMap_cons, List.length_append, List.length_cons]
    omega

theorem quote_toList (ascii : Bool) (s : String) :
    (quote ascii s).toList = '"' :: (s.toList.flatMap (escapeChar ascii) ++ ['"']) := by
  rw [quote, String.toList_ofList, List.cons_append]

/-- **Reading a string back.** -/
theorem string_quote (ascii : Bool) (s : String) (p : Nat) (rest : List Char) :
    string ⟨p, (quote ascii s).toList ++ rest⟩ =
      .ok (s, ⟨p + (quote ascii s).toList.length, rest⟩) := by
  have hText : (quote ascii s).toList ++ rest =
      '"' :: (s.toList.flatMap (escapeChar ascii) ++ '"' :: rest) := by
    rw [quote_toList, List.cons_append, List.append_assoc, List.singleton_append]
  have hLength : (quote ascii s).toList.length =
      1 + (s.toList.flatMap (escapeChar ascii)).length + 1 := by
    rw [quote_toList, List.length_cons, List.length_append, List.length_singleton]
    omega
  rw [hText, hLength, string, Cursor.advance, List.drop_succ_cons, List.drop_zero,
    stringBody_escapes, List.reverse_nil, List.nil_append, String.ofList_toList]
  · simp only [Nat.add_assoc]
  · have := length_le_flatMap_escapeChar ascii s.toList
    rw [List.length_cons, List.length_append]
    omega

end IntegrationCompiler.Json
