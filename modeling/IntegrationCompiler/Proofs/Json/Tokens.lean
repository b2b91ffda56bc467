import IntegrationCompiler.Proofs.Json.RoundTrip
import Mathlib.Data.List.Find

/-!
# Tokens of JSON

A word or a string of a JSON text is read in the same way whatever follows it, as long as no word
goes on there.

Main definitions:

* `Json.EndsWord` — no word goes on in a text;
* `Json.StringTail` — a string from behind its opening mark to its closing one.

Main results:

* `Json.atom_append` — a number or a keyword is read within its word;
* `Json.string_append` — a string is read up to its closing mark, whatever follows it;
* `Json.StringTail.of_stringBody` — what is read as a string is one.
-/

namespace IntegrationCompiler.Json

/-! ## Words -/

/-- Whether a character can stand in a number or a keyword. -/
def isWordChar (c : Char) : Bool :=
  c.isAlpha || isNumberChar c

/-- What may follow a word: nothing that would continue it. -/
def EndsWord (rest : List Char) : Prop :=
  ∀ c ∈ rest.head?, isWordChar c = false

theorem endsWord_nil : EndsWord [] := nofun

theorem endsWord_cons {c : Char} {rest : List Char} (h : isWordChar c = false) :
    EndsWord (c :: rest) := by
  rintro _ ⟨rfl⟩
  exact h

theorem EndsWord.endsNumber {rest : List Char} (h : EndsWord rest) : EndsNumber rest :=
  fun c hc => (Bool.or_eq_false_iff.mp (h c hc)).2

/-- A word starts a text that goes on with something else if it starts the text itself. -/
theorem isPrefixOf_append {rest word : List Char} (h : EndsWord rest)
    (hWord : ∀ c ∈ word, isWordChar c = true) (text : List Char) :
    word.isPrefixOf (text ++ rest) = word.isPrefixOf text := by
  induction text generalizing word with
  | nil =>
    cases word with
    | nil => cases rest <;> rfl
    | cons c word =>
      cases rest with
      | nil => rfl
      | cons d rest =>
        have hNe : d ≠ c := by
          rintro rfl
          exact Bool.false_ne_true ((h d rfl).symm.trans (hWord d List.mem_cons_self))
        rw [List.nil_append, isPrefixOf_cons_ne hNe]
        rfl
  | cons d text ih =>
    cases word with
    | nil => rfl
    | cons c word =>
      rw [List.cons_append, List.isPrefixOf, List.isPrefixOf,
        ih fun c hc => hWord c (List.mem_cons_of_mem _ hc)]

/-- The keywords are words. -/
theorem isWordChar_of_keyword {word : List Char} {v : Value} (h : (word, v) ∈ keywords) :
    ∀ c ∈ word, isWordChar c = true := by
  have hAll : (keywords.all fun entry => entry.1.all isWordChar) = true := by decide
  exact List.all_eq_true.mp (List.all_eq_true.mp hAll (word, v) h)

/-- Which keyword a text starts with is decided by its first word. -/
theorem find?_keyword {rest : List Char} (hRest : EndsWord rest) (word : List Char) :
    (keywords.find? fun entry => entry.1.isPrefixOf (word ++ rest)) =
      keywords.find? fun entry => entry.1.isPrefixOf word := by
  refine List.find?_congr fun entry hEntry => ?_
  exact isPrefixOf_append hRest (isWordChar_of_keyword hEntry) word

/-- **A number or a keyword is read within its word**, and in the same way whatever follows. -/
theorem atom_append {word rest : List Char} {p : Nat} {v : Value} {after : Cursor}
    (hRest : EndsWord rest) (h : atom ⟨p, word ++ rest⟩ = .ok (v, after)) :
    ∃ n ≤ word.length, after.rest = word.drop n ++ rest ∧ ∀ q rest', EndsWord rest' →
      atom ⟨q, word ++ rest'⟩ = .ok (v, ⟨q + n, word.drop n ++ rest'⟩) := by
  unfold atom at h
  dsimp only at h
  rw [find?_keyword hRest] at h
  -- the word alone decides which keyword is read, and without one, where the number ends
  cases hFound : keywords.find? fun entry => entry.1.isPrefixOf word with
  | some entry =>
    obtain ⟨keyword, w⟩ := entry
    rw [hFound] at h
    cases h
    have hPrefix := List.find?_some hFound
    dsimp only at hPrefix
    have hLength := (List.isPrefixOf_iff_prefix.mp hPrefix).length_le
    refine ⟨keyword.length, hLength, List.drop_append_of_le_length hLength, fun q rest' hRest' => ?_⟩
    unfold atom
    dsimp only
    rw [find?_keyword hRest', hFound]
    dsimp only
    rw [Cursor.advance, List.drop_append_of_le_length hLength]
  | none =>
    rw [hFound] at h
    dsimp only at h
    rw [number_eq] at h
    have hLength := NumberParts.length_ofText_le word
    dsimp only at h
    rw [NumberParts.ofText_append hRest.endsNumber] at h
    obtain ⟨rfl, -⟩ := NumberParts.read_ok h ⟨p, word ++ rest⟩
    refine ⟨_, hLength, List.drop_append_of_le_length hLength, fun q rest' hRest' => ?_⟩
    unfold atom
    dsimp only
    rw [find?_keyword hRest', hFound]
    dsimp only
    rw [number_eq]
    dsimp only
    rw [NumberParts.ofText_append hRest'.endsNumber, (NumberParts.read_ok h ⟨q, word ++ rest'⟩).2,
      Cursor.advance, List.drop_append_of_le_length hLength]

/-! ## Strings -/

/-- A string from behind its opening mark to its closing one: characters, and backslashes with the
character that each of them escapes. -/
inductive StringTail : List Char → Prop where
  | close : StringTail ['"']
  | plain {c : Char} {cs : List Char} : c ≠ '"' → c ≠ '\\' → StringTail cs → StringTail (c :: cs)
  | escape {cs : List Char} (c : Char) : StringTail cs → StringTail ('\\' :: c :: cs)

theorem StringTail.of_append_cons {cs rest text : List Char} {c : Char} (h : StringTail cs)
    (hc : c ≠ '"' ∧ c ≠ '\\') (hText : cs ++ rest = c :: text) :
    ∃ cs', cs = c :: cs' ∧ StringTail cs' ∧ cs' ++ rest = text := by
  cases h with
  | close => exact absurd (List.cons.inj hText).1.symm hc.1
  | plain _ _ hTail =>
    obtain ⟨rfl, hRest⟩ := List.cons.inj hText
    exact ⟨_, rfl, hTail, hRest⟩
  | escape _ _ => exact absurd (List.cons.inj hText).1.symm hc.2

/-- The characters of words differ from all others. -/
theorem isWordChar_ne {c d : Char} (hc : isWordChar c = true) (hd : isWordChar d = false) :
    c ≠ d := by
  rintro rfl
  exact Bool.false_ne_true (hd.symm.trans hc)

/-- Hexadecimal digits are four characters of words. -/
theorem hex4?_eq_some {text : List Char} {n : Nat} (h : hex4? text = some n) :
    ∃ a b c d rest, text = a :: b :: c :: d :: rest ∧
      (∀ digit ∈ [a, b, c, d], isWordChar digit = true) ∧
      ∀ rest', hex4? (a :: b :: c :: d :: rest') = some n := by
  have hWord {digit : Char} {m : Nat}
      (hDigit : (if '0' ≤ digit && digit ≤ '9' then some (digit.toNat - 0x30)
        else if 'a' ≤ digit && digit ≤ 'f' then some (digit.toNat - 0x61 + 10)
        else if 'A' ≤ digit && digit ≤ 'F' then some (digit.toNat - 0x41 + 10)
        else none) = some m) : isWordChar digit = true := by
    unfold isWordChar
    split at hDigit
    next hNumber => rw [isNumberChar_of_digit hNumber, Bool.or_true]
    split at hDigit
    next hLower =>
      simp only [Bool.and_eq_true, decide_eq_true_eq] at hLower
      have hLast : digit ≤ 'z' := Char.le_trans hLower.2 (by decide : 'f' ≤ 'z')
      have hLetter : digit.isLower = true :=
        Bool.and_eq_true_iff.mpr ⟨decide_eq_true hLower.1, decide_eq_true hLast⟩
      have hAlpha : digit.isAlpha = true := Bool.or_eq_true_iff.mpr (.inr hLetter)
      rw [hAlpha, Bool.true_or]
    split at hDigit
    next hUpper =>
      simp only [Bool.and_eq_true, decide_eq_true_eq] at hUpper
      have hLast : digit ≤ 'Z' := Char.le_trans hUpper.2 (by decide : 'F' ≤ 'Z')
      have hLetter : digit.isUpper = true := decide_eq_true ⟨hUpper.1, hLast⟩
      have hAlpha : digit.isAlpha = true := Bool.or_eq_true_iff.mpr (.inl hLetter)
      rw [hAlpha, Bool.true_or]
    cases hDigit
  rcases text with _ | ⟨a, _ | ⟨b, _ | ⟨c, _ | ⟨d, rest⟩⟩⟩⟩
  · cases h
  · cases h
  · cases h
  · cases h
  · refine ⟨a, b, c, d, rest, rfl, ?_, fun rest' => h⟩
    simp only [hex4?, Option.bind_eq_bind, Option.bind_eq_some_iff] at h
    obtain ⟨_, ha, _, hb, _, hc, _, hd, -⟩ := h
    simp only [List.forall_mem_cons]
    exact ⟨hWord ha, hWord hb, hWord hc, hWord hd, List.forall_mem_nil _⟩

/-- No character of a word ends a string. -/
theorem plain_of_isWordChar {c : Char} (h : isWordChar c = true) : c ≠ '"' ∧ c ≠ '\\' :=
  ⟨isWordChar_ne h rfl, isWordChar_ne h rfl⟩

theorem StringTail.ne_nil {cs : List Char} (h : StringTail cs) : cs ≠ [] := by
  cases h <;> exact List.cons_ne_nil _ _

theorem StringTail.hex4 {cs rest : List Char} {n : Nat} (h : StringTail cs)
    (hHex : hex4? (cs ++ rest) = some n) :
    ∃ a b c d cs', cs = a :: b :: c :: d :: cs' ∧ StringTail cs' ∧
      ∀ rest', hex4? (a :: b :: c :: d :: rest') = some n := by
  obtain ⟨a, b, c, d, text, hText, hDigits, hSame⟩ := hex4?_eq_some hHex
  have hPlain : ∀ digit ∈ [a, b, c, d], digit ≠ '"' ∧ digit ≠ '\\' :=
    fun digit hDigit => plain_of_isWordChar (hDigits digit hDigit)
  simp only [List.forall_mem_cons] at hPlain
  obtain ⟨ha, hb, hc, hd, -⟩ := hPlain
  obtain ⟨cs₁, rfl, h₁, hText⟩ := h.of_append_cons ha hText
  obtain ⟨cs₂, rfl, h₂, hText⟩ := h₁.of_append_cons hb hText
  obtain ⟨cs₃, rfl, h₃, hText⟩ := h₂.of_append_cons hc hText
  obtain ⟨cs', rfl, h', -⟩ := h₃.of_append_cons hd hText
  exact ⟨a, b, c, d, cs', rfl, h', hSame⟩

/-- The text after the digits of an escaped unit: another escape of a unit, or none. -/
theorem StringTail.unit_cases {cs : List Char} (h : StringTail cs) :
    (∀ rest, (cs ++ rest).take 2 ≠ ['\\', 'u']) ∨ ∃ cs', cs = '\\' :: 'u' :: cs' ∧ StringTail cs' := by
  cases h with
  | close => exact .inl fun rest => by simp
  | plain _ hEscape _ => exact .inl fun rest => by simp [hEscape]
  | @escape cs' c hTail =>
    by_cases hc : c = 'u'
    · exact .inr ⟨cs', by rw [hc], hTail⟩
    · exact .inl fun rest => by simp [hc]

/-- What four hexadecimal digits are read as, with more of the text after them. -/
def unitOrPair (position high : Nat) (text : List Char) : Read (Nat × Nat × List Char) :=
  if 0xD800 ≤ high && high < 0xDC00 && !(text.drop 6).isEmpty && text.take 2 == ['\\', 'u'] then
    match hex4? (text.drop 2) with
    | none => .error (.fault .invalidUnicodeEscape (position + 6))
    | some low =>
      if 0xDC00 ≤ low && low < 0xE000 then
        .ok (0x10000 + (high - 0xD800) * 0x400 + (low - 0xDC00), 10, text.drop 6)
      else .ok (high, 4, text)
  else .ok (high, 4, text)

theorem unicodeEscape_digits {a b c d : Char} {text : List Char} {high : Nat}
    (hHex : hex4? (a :: b :: c :: d :: text) = some high) (hText : text ≠ []) (position : Nat) :
    unicodeEscape position (a :: b :: c :: d :: text) = unitOrPair position high text := by
  unfold unicodeEscape
  simp only [List.drop_succ_cons, List.drop_zero, List.isEmpty_eq_false_iff.mpr hText, hHex,
    Bool.false_eq_true, if_false]
  rfl

/-- Whether a unit is the first half of a pair. -/
def IsHigh (unit : Nat) : Prop :=
  0xD800 ≤ unit ∧ unit < 0xDC00

theorem unitOrPair_of_not_high {high : Nat} (h : ¬ IsHigh high) (position : Nat)
    (text : List Char) : unitOrPair position high text = .ok (high, 4, text) := by
  refine if_neg fun hPair => h ?_
  simp only [Bool.and_eq_true, decide_eq_true_eq] at hPair
  exact hPair.1.1

theorem unitOrPair_of_no_escape {text : List Char} (h : text.take 2 ≠ ['\\', 'u'])
    (position high : Nat) : unitOrPair position high text = .ok (high, 4, text) := by
  refine if_neg fun hPair => h ?_
  simp only [Bool.and_eq_true, beq_iff_eq] at hPair
  exact hPair.2

/-- At the end of a text no second half is looked for. -/
theorem unitOrPair_of_short {text : List Char} (h : text.drop 6 = []) (position high : Nat) :
    unitOrPair position high text = .ok (high, 4, text) := by
  simp [unitOrPair, h]

/-- Behind a first half, the next escape has to be a unit: the second half, or one of its own. -/
theorem unitOrPair_of_escape {high : Nat} {tail : List Char} (hHigh : IsHigh high)
    (hMore : tail.drop 4 ≠ []) (position : Nat) :
    (hex4? tail = none → ∀ read, unitOrPair position high ('\\' :: 'u' :: tail) ≠ .ok read) ∧
    ∀ low, hex4? tail = some low → unitOrPair position high ('\\' :: 'u' :: tail) =
      if 0xDC00 ≤ low && low < 0xE000 then
        .ok (0x10000 + (high - 0xD800) * 0x400 + (low - 0xDC00), 10, tail.drop 4)
      else .ok (high, 4, '\\' :: 'u' :: tail) := by
  obtain ⟨hLowest, hHighest⟩ := hHigh
  constructor
  · intro hNone read
    simp [unitOrPair, hLowest, hHighest, hMore, hNone]
  · intro low hLow
    simp [unitOrPair, hLowest, hHighest, hMore, hLow]

theorem unitOrPair_append {cs rest after : List Char} {p high code used : Nat} (h : StringTail cs)
    (hRead : unitOrPair p high (cs ++ rest) = .ok (code, used, after))
    (hGoesOn : after.take 2 = ['\\', 'u'] → after.drop 6 ≠ []) :
    ∃ cs', StringTail cs' ∧ cs'.length ≤ cs.length ∧ after = cs' ++ rest ∧ ∀ q rest',
      unitOrPair q high (cs ++ rest') = .ok (code, used, cs' ++ rest') := by
  -- a unit alone is read in the same way in front of every text
  have hAlone (hUnit : ∀ q rest, unitOrPair q high (cs ++ rest) = .ok (high, 4, cs ++ rest)) :
      ∃ cs', StringTail cs' ∧ cs'.length ≤ cs.length ∧ after = cs' ++ rest ∧ ∀ q rest',
        unitOrPair q high (cs ++ rest') = .ok (code, used, cs' ++ rest') := by
    cases (hUnit p rest).symm.trans hRead
    exact ⟨cs, h, le_rfl, rfl, hUnit⟩
  rcases h.unit_cases with hOther | ⟨tail, rfl, hTail⟩
  · exact hAlone fun q rest => unitOrPair_of_no_escape (hOther rest) q high
  by_cases hHigh : IsHigh high
  swap
  · exact hAlone fun q rest => unitOrPair_of_not_high hHigh q _
  have hMore : (tail ++ rest).drop 4 ≠ [] := by
    intro hNone
    have hShort : ('\\' :: 'u' :: tail ++ rest).drop 6 = [] := hNone
    cases (unitOrPair_of_short hShort p high).symm.trans hRead
    exact hGoesOn rfl hShort
  cases hHex : hex4? (tail ++ rest) with
  | none => exact absurd hRead ((unitOrPair_of_escape hHigh hMore p).1 hHex _)
  | some low =>
    obtain ⟨a, b, c, d, tail', rfl, hTail', hSame⟩ := hTail.hex4 hHex
    -- the string goes on behind the digits of the second escape
    have hEscape (q : Nat) (rest : List Char) :
        unitOrPair q high ('\\' :: 'u' :: a :: b :: c :: d :: tail' ++ rest) =
          if 0xDC00 ≤ low && low < 0xE000 then
            .ok (0x10000 + (high - 0xD800) * 0x400 + (low - 0xDC00), 10, tail' ++ rest)
          else .ok (high, 4, '\\' :: 'u' :: a :: b :: c :: d :: tail' ++ rest) :=
      (unitOrPair_of_escape hHigh (List.append_ne_nil_of_left_ne_nil hTail'.ne_nil _) q).2 low
        (hSame _)
    by_cases hLow : (decide (0xDC00 ≤ low) && decide (low < 0xE000)) = true
    · have hPair (q : Nat) (rest : List Char) := (hEscape q rest).trans (if_pos hLow)
      have hBoth := (hPair p rest).symm.trans hRead
      simp only [Except.ok.injEq, Prod.mk.injEq] at hBoth
      obtain ⟨rfl, rfl, rfl⟩ := hBoth
      refine ⟨tail', hTail', ?_, rfl, hPair⟩
      simp only [List.length_cons]
      omega
    · exact hAlone fun q rest => (hEscape q rest).trans (if_neg hLow)

theorem unicodeEscape_append {cs rest after : List Char} {p code used : Nat} (h : StringTail cs)
    (hRead : unicodeEscape p (cs ++ rest) = .ok (code, used, after))
    (hGoesOn : after.take 2 = ['\\', 'u'] → after.drop 6 ≠ []) :
    ∃ cs', StringTail cs' ∧ cs'.length ≤ cs.length ∧ after = cs' ++ rest ∧ ∀ q rest',
      unicodeEscape q (cs ++ rest') = .ok (code, used, cs' ++ rest') := by
  cases hHex : hex4? (cs ++ rest) with
  | none =>
    exfalso
    unfold unicodeEscape at hRead
    dsimp only at hRead
    rw [hHex] at hRead
    split at hRead <;> cases hRead
  | some high =>
    obtain ⟨a, b, c, d, tail, rfl, hTail, hSame⟩ := h.hex4 hHex
    have hDigits (q : Nat) (rest : List Char) : unicodeEscape q (a :: b :: c :: d :: tail ++ rest) =
        unitOrPair q high (tail ++ rest) :=
      unicodeEscape_digits (hSame _) (List.append_ne_nil_of_left_ne_nil hTail.ne_nil _) q
    rw [hDigits] at hRead
    obtain ⟨cs', hStays, hLength, rfl, hAlso⟩ := unitOrPair_append hTail hRead hGoesOn
    refine ⟨cs', hStays, ?_, rfl, fun q rest' => ?_⟩
    · simp only [List.length_cons]
      omega
    · rw [hDigits, hAlso]

theorem stringBody_unit (start fuel : Nat) (acc : List Char) (p : Nat) (text : List Char) :
    stringBody start (fuel + 1) acc ⟨p, '\\' :: 'u' :: text⟩ =
      match unicodeEscape (p + 1) text with
      | .error stop => .error stop
      | .ok (code, used, after) =>
        stringBody start fuel (Text.charOfCode code :: acc) ⟨p + 2 + used, after⟩ := by
  rw [stringBody]
  rfl

/-- No unit is read without four characters behind its letter. -/
theorem stringBody_short {start fuel p : Nat} {acc text : List Char} (h : text.drop 6 = [])
    (hUnit : text.take 2 = ['\\', 'u']) (read : String × Cursor) :
    stringBody start fuel acc ⟨p, text⟩ ≠ .ok read := by
  obtain ⟨tail, rfl⟩ : ∃ tail, text = '\\' :: 'u' :: tail :=
    ⟨text.drop 2, by rw [← List.take_append_drop 2 text, hUnit]; rfl⟩
  have hDigits : tail.drop 4 = [] := h
  cases fuel with
  | zero => exact nofun
  | succ fuel => simp [stringBody_unit, unicodeEscape, hDigits]

theorem stringBody_append {start fuel : Nat} {rest : List Char} {s : String} {after : Cursor} :
    ∀ {cs acc : List Char} {p : Nat}, StringTail cs →
      stringBody start fuel acc ⟨p, cs ++ rest⟩ = .ok (s, after) →
      after.rest = rest ∧ ∀ start' fuel' q rest', cs.length ≤ fuel' →
        ∃ r, stringBody start' fuel' acc ⟨q, cs ++ rest'⟩ = .ok (s, ⟨r, rest'⟩) := by
  induction fuel with
  | zero =>
    intro cs acc p h hRead
    cases hRead
  | succ fuel ih =>
    intro cs acc p h hRead
    have hMore {fuel' : Nat} (hFuel : cs.length ≤ fuel') : ∃ left, fuel' = left + 1 :=
      Nat.exists_eq_succ_of_ne_zero
        (Nat.ne_of_gt (Nat.lt_of_lt_of_le (List.length_pos_iff.mpr h.ne_nil) hFuel))
    cases h with
    | close =>
      cases hRead
      refine ⟨rfl, fun start' fuel' q rest' hFuel => ?_⟩
      obtain ⟨left, rfl⟩ := hMore hFuel
      exact ⟨q + 1, rfl⟩
    | @plain c tail hQuote hEscape hTail =>
      by_cases hPrinted : 0x20 ≤ c.toNat
      · rw [List.cons_append, stringBody_plain hQuote hEscape hPrinted] at hRead
        obtain ⟨hAfter, hAlso⟩ := ih hTail hRead
        refine ⟨hAfter, fun start' fuel' q rest' hFuel => ?_⟩
        obtain ⟨left, rfl⟩ := hMore hFuel
        rw [List.cons_append, stringBody_plain hQuote hEscape hPrinted]
        exact hAlso start' left (q + 1) rest' (Nat.le_of_succ_le_succ hFuel)
      · -- a control character is refused
        exfalso
        simp [stringBody, hEscape, Nat.not_le.mp hPrinted] at hRead
    | @escape tail c hTail =>
      by_cases hUnit : c = 'u'
      · -- the reading of a unit may go on into the escape behind it
        subst hUnit
        rw [List.cons_append, List.cons_append, stringBody_unit] at hRead
        split at hRead
        next => cases hRead
        next code used after' hUnicode =>
          have hGoesOn (hNext : after'.take 2 = ['\\', 'u']) : after'.drop 6 ≠ [] :=
            fun hNone => stringBody_short hNone hNext _ hRead
          obtain ⟨cs', hStays, hLength, rfl, hSame⟩ := unicodeEscape_append hTail hUnicode hGoesOn
          obtain ⟨hAfter, hAlso⟩ := ih hStays hRead
          refine ⟨hAfter, fun start' fuel' q rest' hFuel => ?_⟩
          obtain ⟨left, rfl⟩ := hMore hFuel
          rw [List.length_cons, List.length_cons] at hFuel
          rw [List.cons_append, List.cons_append, stringBody_unit, hSame]
          exact hAlso start' left _ rest' (by omega)
      · cases hLetter : simpleEscape? c with
        | none =>
          exfalso
          simp [stringBody, hLetter] at hRead
        | some meant =>
          rw [List.cons_append, List.cons_append, stringBody_letter hLetter] at hRead
          obtain ⟨hAfter, hAlso⟩ := ih hTail hRead
          refine ⟨hAfter, fun start' fuel' q rest' hFuel => ?_⟩
          obtain ⟨left, rfl⟩ := hMore hFuel
          rw [List.length_cons, List.length_cons] at hFuel
          rw [List.cons_append, List.cons_append, stringBody_letter hLetter]
          exact hAlso start' left _ rest' (by omega)

theorem string_append {tail rest : List Char} {p : Nat} {s : String} {after : Cursor}
    (h : StringTail tail) (hRead : string ⟨p, '"' :: tail ++ rest⟩ = .ok (s, after)) :
    after.rest = rest ∧ ∀ q rest', ∃ r, string ⟨q, '"' :: tail ++ rest'⟩ = .ok (s, ⟨r, rest'⟩) := by
  obtain ⟨hAfter, hAlso⟩ := stringBody_append h hRead
  refine ⟨hAfter, fun q rest' => hAlso q _ (q + 1) rest' ?_⟩
  simp only [List.cons_append, List.length_cons, List.length_append]
  omega

/-- No line ends in the text. -/
def WithinLine (cs : List Char) : Prop :=
  ∀ c ∈ cs, c ≠ '\n' ∧ c ≠ '\r'

theorem WithinLine.append {cs ds : List Char} (hcs : WithinLine cs) (hds : WithinLine ds) :
    WithinLine (cs ++ ds) :=
  List.forall_mem_append.mpr ⟨hcs, hds⟩

theorem WithinLine.cons {c : Char} {cs : List Char} (hc : c ≠ '\n' ∧ c ≠ '\r')
    (hcs : WithinLine cs) : WithinLine (c :: cs) :=
  List.forall_mem_cons.mpr ⟨hc, hcs⟩

/-- Four hexadecimal digits are plain characters of a string. -/
theorem StringTail.digits {text : List Char} {n : Nat} (h : hex4? text = some n) :
    ∃ digits, text = digits ++ text.drop 4 ∧ WithinLine digits ∧
      ∀ cs, StringTail cs → StringTail (digits ++ cs) := by
  obtain ⟨a, b, c, d, rest, rfl, hDigits, -⟩ := hex4?_eq_some h
  have hPlain : ∀ digit ∈ [a, b, c, d], digit ≠ '"' ∧ digit ≠ '\\' :=
    fun digit hDigit => plain_of_isWordChar (hDigits digit hDigit)
  simp only [List.forall_mem_cons] at hPlain
  obtain ⟨ha, hb, hc, hd, -⟩ := hPlain
  refine ⟨[a, b, c, d], rfl, fun digit hDigit => ?_, fun cs hcs => ?_⟩
  · exact ⟨isWordChar_ne (hDigits digit hDigit) rfl, isWordChar_ne (hDigits digit hDigit) rfl⟩
  · exact .plain ha.1 ha.2 (.plain hb.1 hb.2 (.plain hc.1 hc.2 (.plain hd.1 hd.2 hcs)))

/-- What is read as an escaped unit, or as a pair of them, belongs to a string. -/
theorem StringTail.of_unicodeEscape {p code used : Nat} {text after : List Char}
    (h : unicodeEscape p text = .ok (code, used, after)) :
    ∃ unit, text = unit ++ after ∧ WithinLine unit ∧
      ∀ cs, StringTail cs → StringTail (unit ++ cs) := by
  unfold unicodeEscape at h
  dsimp only at h
  split at h
  · cases h
  split at h
  · cases h
  next high hHigh =>
    obtain ⟨digits, hText, hLine, hDigits⟩ := StringTail.digits hHigh
    split at h
    · next hPair =>
      split at h
      · cases h
      next low hLow =>
        split at h
        next hLow' =>
          -- the escape of a second unit follows the first one
          simp only [Except.ok.injEq, Prod.mk.injEq] at h
          obtain ⟨-, -, rfl⟩ := h
          obtain ⟨more, hMore, hLine', hDigits'⟩ := StringTail.digits hLow
          have hMark : (text.drop 4).take 2 = ['\\', 'u'] := by
            simp only [Bool.and_eq_true, beq_iff_eq] at hPair
            exact hPair.2
          have hSecond : text.drop 4 = '\\' :: 'u' :: (more ++ (text.drop 4).drop 6) := calc
            text.drop 4 = (text.drop 4).take 2 ++ (text.drop 4).drop 2 :=
              (List.take_append_drop 2 _).symm
            _ = '\\' :: 'u' :: (more ++ ((text.drop 4).drop 2).drop 4) := by rw [hMark, ← hMore]; rfl
            _ = '\\' :: 'u' :: (more ++ (text.drop 4).drop 6) := by rw [List.drop_drop]
          refine ⟨digits ++ '\\' :: 'u' :: more, ?_, ?_, fun cs hcs => ?_⟩
          · rw [List.append_assoc, List.cons_append, List.cons_append, ← hSecond, ← hText]
          · exact hLine.append (.cons (by decide) (.cons (by decide) hLine'))
          · rw [List.append_assoc]
            exact hDigits _ (.escape 'u' (hDigits' cs hcs))
        next =>
          cases h
          exact ⟨digits, hText, hLine, hDigits⟩
    · cases h
      exact ⟨digits, hText, hLine, hDigits⟩

/-- What is escaped by a letter is within a line. -/
theorem line_of_simpleEscape {letter c : Char} (h : simpleEscape? letter = some c) :
    letter ≠ '\n' ∧ letter ≠ '\r' := by
  constructor
  all_goals
    rintro rfl
    cases h

/-- What is read as a string is one, and within a line. -/
theorem StringTail.of_stringBody {start fuel : Nat} {s : String} {after : Cursor} :
    ∀ {acc : List Char} {c : Cursor}, stringBody start fuel acc c = .ok (s, after) →
      ∃ cs, StringTail cs ∧ WithinLine cs ∧ c.rest = cs ++ after.rest := by
  induction fuel with
  | zero =>
    intro acc c h
    cases h
  | succ fuel ih =>
    intro acc c h
    unfold stringBody at h
    split at h
    next => cases h
    next rest hText =>
      cases h
      exact ⟨_, .close, List.forall_mem_singleton.mpr (by decide), hText⟩
    next => cases h
    next rest hText =>
      split at h
      next => cases h
      next hUnicode =>
        obtain ⟨cs, hcs, hLine, hAfter⟩ := ih h
        obtain ⟨unit, hRest, hLine', hUnit⟩ := StringTail.of_unicodeEscape hUnicode
        refine ⟨'\\' :: 'u' :: (unit ++ cs), .escape 'u' (hUnit cs hcs),
          .cons (by decide) (.cons (by decide) (hLine'.append hLine)), ?_⟩
        dsimp only at hAfter
        rw [hText, hRest, hAfter, List.cons_append, List.cons_append, List.append_assoc]
    next letter rest _ hText =>
      split at h
      next hLetter =>
        obtain ⟨cs, hcs, hLine, hAfter⟩ := ih h
        dsimp only at hAfter
        exact ⟨'\\' :: letter :: cs, .escape letter hcs,
          .cons (by decide) (.cons (line_of_simpleEscape hLetter) hLine), by rw [hText, hAfter]; rfl⟩
      next => cases h
    next c rest hQuote hAlone _ hLetter hText =>
      split at h
      next => cases h
      next hControl =>
        obtain ⟨cs, hcs, hLine, hAfter⟩ := ih h
        dsimp only at hAfter
        refine ⟨c :: cs, .plain hQuote ?_ hcs, .cons ⟨?_, ?_⟩ hLine, by rw [hText, hAfter]; rfl⟩
        · rintro rfl
          cases rest with
          | nil => exact hAlone rfl rfl
          | cons letter rest => exact hLetter _ _ rfl rfl
        · rintro rfl
          exact hControl (by decide)
        · rintro rfl
          exact hControl (by decide)

end IntegrationCompiler.Json
