import IntegrationCompiler.Proofs.Diagnostics.Returns
import IntegrationCompiler.Proofs.Json.Tokens

/-!
# Texts between tokens

A JSON text is made of tokens with blanks between them, and more blanks do not change what it says.

Main definitions:

* `Json.Token` — marks, strings and words; no word is continued by what follows it;
* `Json.Interspersed` — a text is another one with something put in between its tokens;
* `Json.Tokenized`, `Json.Spaced` — nothing is put in, and nothing but blanks.

Main results:

* `Json.tokenized_of_document` — what is read as a document is made of tokens and blanks;
* `Json.document_of_spaced` — with more blanks between its tokens it is read as the same value.

Both follow from what one call of the reader does, by induction on the calls that it has left.
-/

namespace IntegrationCompiler.Json

/-! ## Tokens -/

/-- The first text is a token when the second one follows it. -/
inductive Token : List Char → List Char → Prop where
  | mark {c : Char} {rest : List Char} : c ∈ ['{', '}', '[', ']', ':', ','] → Token [c] rest
  | string {tail rest : List Char} : StringTail tail → Token ('"' :: tail) rest
  | word {word rest : List Char} : word ≠ [] → (∀ c ∈ word, isWordChar c = true) →
    EndsWord rest → Token word rest

/-- The second text is the first one with something put in between its tokens: before the first
one, behind the last one or anywhere between them, also among the blanks. What may be put in depends
on what follows it. -/
inductive Interspersed (Gap : List Char → List Char → Prop) : List Char → List Char → Prop where
  | nil : Interspersed Gap [] []
  | blank {c : Char} {text other : List Char} : isSpace c = true →
    Interspersed Gap text other → Interspersed Gap (c :: text) (c :: other)
  | token {token text other : List Char} : Token token text →
    Interspersed Gap text other → Interspersed Gap (token ++ text) (token ++ other)
  | gap {gap text other : List Char} : Gap gap other →
    Interspersed Gap text other → Interspersed Gap text (gap ++ other)

/-- A text is made of tokens and blanks. -/
def Tokenized (text : List Char) : Prop :=
  Interspersed (fun _ _ => False) text text

/-- The second text is the first one with more blanks between its tokens. -/
def Spaced (text other : List Char) : Prop :=
  Interspersed (fun gap _ => ∀ c ∈ gap, isSpace c = true) text other

/-- No mark stands in a word. -/
theorem isWordChar_of_mark {c : Char} (h : c ∈ ['{', '}', '[', ']', ':', ',']) :
    isWordChar c = false := by
  have hMarks : ['{', '}', '[', ']', ':', ','].all (fun c => !isWordChar c) = true := by decide
  simpa using List.all_eq_true.mp hMarks c h

theorem isWordChar_of_isSpace {c : Char} (h : isSpace c = true) : isWordChar c = false := by
  simp only [isSpace, Bool.or_eq_true, beq_iff_eq] at h
  rcases h with ((rfl | rfl) | rfl) | rfl <;> decide

/-- A token starts with a character that is no blank. -/
theorem Token.starts {token rest : List Char} (h : Token token rest) :
    ∃ c tail, token = c :: tail ∧ isSpace c = false := by
  cases h with
  | mark hMark =>
    have hSpace : ['{', '}', '[', ']', ':', ','].all (fun c => !isSpace c) = true := by decide
    exact ⟨_, [], rfl, by simpa using List.all_eq_true.mp hSpace _ hMark⟩
  | string _ => exact ⟨_, _, rfl, rfl⟩
  | word hSome hChars _ =>
    obtain ⟨c, tail, rfl⟩ := List.exists_cons_of_ne_nil hSome
    refine ⟨c, tail, rfl, Bool.eq_false_iff.mpr fun hSpace => ?_⟩
    exact Bool.false_ne_true
      ((isWordChar_of_isSpace hSpace).symm.trans (hChars c List.mem_cons_self))

/-- A token that starts with a mark is the mark. -/
theorem Token.eq_mark {c : Char} {tail rest : List Char}
    (hMark : c ∈ ['{', '}', '[', ']', ':', ',']) (h : Token (c :: tail) rest) : tail = [] := by
  cases h with
  | mark _ => rfl
  | string _ => exact absurd hMark (by decide)
  | word _ hChars _ =>
    exact nomatch (isWordChar_of_mark hMark).symm.trans (hChars c List.mem_cons_self)

/-! ## Texts at the same token -/

/-- Both texts are at their end, or they start with the same token and go on with the same ones. -/
inductive Abreast : List Char → List Char → Prop where
  | nil : Abreast [] []
  | token {token text other : List Char} : Token token text → Spaced text other →
    Abreast (token ++ text) (token ++ other)

theorem Spaced.skip {text other : List Char} (h : Spaced text other) :
    Abreast (text.dropWhile isSpace) (other.dropWhile isSpace) := by
  unfold Spaced at h
  induction h with
  | nil => exact .nil
  | blank hSpace _ ih =>
    rw [List.dropWhile_cons_of_pos hSpace, List.dropWhile_cons_of_pos hSpace]
    exact ih
  | token hToken hRest ih =>
    obtain ⟨c, tail, rfl, hSpace⟩ := hToken.starts
    have hStays (rest : List Char) : (c :: tail ++ rest).dropWhile isSpace = c :: tail ++ rest :=
      List.dropWhile_cons_of_neg (by rw [hSpace]; exact Bool.false_ne_true)
    rw [hStays, hStays]
    exact .token hToken hRest
  | gap hGap _ ih =>
    rw [List.dropWhile_append_of_pos hGap]
    exact ih

/-- A text with more blanks starts as the text does, or with a blank. -/
theorem Spaced.head?_cases {text other : List Char} (h : Spaced text other) :
    other.head? = text.head? ∨ ∀ c ∈ other.head?, isSpace c = true := by
  unfold Spaced at h
  induction h with
  | nil | blank _ _ _ => exact .inl rfl
  | token hToken _ _ =>
    obtain ⟨c, tail, rfl, -⟩ := hToken.starts
    exact .inl rfl
  | @gap gap _ _ hGap _ ih =>
    cases gap with
    | nil => exact ih
    | cons c gap => exact .inr (by rintro _ ⟨rfl⟩; exact hGap c List.mem_cons_self)

/-- No word goes on in a text with more blanks if none does in the text itself. -/
theorem Spaced.endsWord {text other : List Char} (h : Spaced text other) (hText : EndsWord text) :
    EndsWord other := by
  intro c hc
  rcases h.head?_cases with hSame | hSpace
  · exact hText c (hSame ▸ hc)
  · exact isWordChar_of_isSpace (hSpace c hc)

theorem Spaced.length_le {text other : List Char} (h : Spaced text other) :
    text.length ≤ other.length := by
  unfold Spaced at h
  induction h with
  | nil => exact le_rfl
  | blank _ _ ih => exact Nat.succ_le_succ ih
  | token _ _ ih =>
    rw [List.length_append, List.length_append]
    exact Nat.add_le_add_left ih _
  | gap _ _ ih =>
    rw [List.length_append]
    exact Nat.le_add_left_of_le ih

namespace Abreast

variable {text other : List Char}

theorem head?_eq (h : Abreast text other) : text.head? = other.head? := by
  cases h with
  | nil => rfl
  | token hToken _ =>
    obtain ⟨c, tail, rfl, -⟩ := hToken.starts
    rfl

/-- Where one text has a mark, so has the other. -/
theorem mark {c : Char} {tail : List Char} (h : Abreast (c :: tail) other)
    (hMark : c ∈ ['{', '}', '[', ']', ':', ',']) :
    ∃ tail', other = c :: tail' ∧ Spaced tail tail' := by
  generalize hText : c :: tail = text at h
  cases h with
  | nil => cases hText
  | token hToken hRest =>
    obtain ⟨d, more, rfl, -⟩ := hToken.starts
    obtain ⟨rfl, rfl⟩ := List.cons.inj hText
    obtain rfl := hToken.eq_mark hMark
    exact ⟨_, rfl, hRest⟩

/-- Where one text has a string, so has the other. -/
theorem string {cs : List Char} (h : Abreast ('"' :: cs) other) : ∃ tail after after',
    StringTail tail ∧ cs = tail ++ after ∧ other = '"' :: tail ++ after' ∧ Spaced after after' := by
  generalize hText : '"' :: cs = text at h
  cases h with
  | nil => cases hText
  | token hToken hRest =>
    cases hToken with
    | mark hMark =>
      obtain ⟨rfl, -⟩ := List.cons.inj hText
      exact absurd hMark (by decide)
    | string hTail =>
      obtain ⟨-, rfl⟩ := List.cons.inj hText
      exact ⟨_, _, _, hTail, rfl, rfl, hRest⟩
    | word hSome hChars _ =>
      obtain ⟨c, word, rfl⟩ := List.exists_cons_of_ne_nil hSome
      obtain ⟨rfl, -⟩ := List.cons.inj hText
      exact absurd (hChars _ List.mem_cons_self) (by decide)

end Abreast

/-- Behind the blanks, both texts stand at the same token. -/
theorem Spaced.skipBlanks (c c' : Cursor) (h : Spaced c.rest c'.rest) :
    Abreast c.skipBlanks.rest c'.skipBlanks.rest :=
  h.skip

/-- Where one cursor is at a mark, so is the other. -/
theorem Abreast.at_mark {c c' : Cursor} {mark : Char} {q : Nat} {tail : List Char}
    (h : Abreast c.rest c'.rest) (hc : c = ⟨q, mark :: tail⟩)
    (hMark : mark ∈ ['{', '}', '[', ']', ':', ',']) :
    ∃ q' tail', c' = ⟨q', mark :: tail'⟩ ∧ Spaced tail tail' := by
  subst hc
  obtain ⟨tail', hOther, hTail⟩ := h.mark hMark
  exact ⟨c'.position, tail', by rw [← hOther], hTail⟩

/-! ## Calls of the reader

What a call reads that has calls left, in terms of what these read.
-/

/-- The calls behind a value. -/
inductive ValueStep (fuel : Nat) : Cursor → Value → Cursor → Prop where
  | str {p : Nat} {cs : List Char} {s : String} {after : Cursor} :
    string ⟨p, '"' :: cs⟩ = .ok (s, after) → ValueStep fuel ⟨p, '"' :: cs⟩ (.str s) after
  | noItems {p q : Nat} {cs rest : List Char} :
    (⟨p + 1, cs⟩ : Cursor).skipBlanks = ⟨q, ']' :: rest⟩ →
    ValueStep fuel ⟨p, '[' :: cs⟩ (.list []) ⟨q + 1, rest⟩
  | list {p : Nat} {cs : List Char} {vs : List Value} {after : Cursor} :
    (⟨p + 1, cs⟩ : Cursor).skipBlanks.rest.head? ≠ some ']' →
    items fuel (⟨p + 1, cs⟩ : Cursor).skipBlanks = .ok (vs, after) →
    ValueStep fuel ⟨p, '[' :: cs⟩ (.list vs) after
  | noEntries {p q : Nat} {cs rest : List Char} :
    (⟨p + 1, cs⟩ : Cursor).skipBlanks = ⟨q, '}' :: rest⟩ →
    ValueStep fuel ⟨p, '{' :: cs⟩ (.map []) ⟨q + 1, rest⟩
  | map {p : Nat} {cs : List Char} {es : Entries} {after : Cursor} :
    (⟨p + 1, cs⟩ : Cursor).skipBlanks.rest.head? ≠ some '}' →
    entries fuel [] (⟨p + 1, cs⟩ : Cursor).skipBlanks = .ok (es, after) →
    ValueStep fuel ⟨p, '{' :: cs⟩ (.map es) after
  | atom {c : Cursor} {v : Value} {after : Cursor} :
    (∀ d ∈ ['"', '[', '{'], c.rest.head? ≠ some d) → atom c = .ok (v, after) →
    ValueStep fuel c v after

/-- The calls behind the items of a list. -/
inductive ItemsStep (fuel : Nat) (c : Cursor) : List Value → Cursor → Prop where
  | last {v : Value} {after : Cursor} {q : Nat} {rest : List Char} :
    value fuel c = .ok (v, after) → after.skipBlanks = ⟨q, ']' :: rest⟩ →
    ItemsStep fuel c [v] ⟨q + 1, rest⟩
  | more {v : Value} {after last : Cursor} {q : Nat} {rest : List Char} {vs : List Value} :
    value fuel c = .ok (v, after) → after.skipBlanks = ⟨q, ',' :: rest⟩ →
    items fuel (⟨q + 1, rest⟩ : Cursor).skipBlanks = .ok (vs, last) →
    ItemsStep fuel c (v :: vs) last

/-- The calls behind the entries of an object. -/
inductive EntriesStep (fuel : Nat) (acc : Entries) (p : Nat) (cs : List Char) :
    Entries → Cursor → Prop where
  | last {name : String} {v : Value} {after afterValue : Cursor} {q r : Nat}
    {tail rest : List Char} :
    string ⟨p, '"' :: cs⟩ = .ok (name, after) → after.skipBlanks = ⟨q, ':' :: tail⟩ →
    value fuel (⟨q + 1, tail⟩ : Cursor).skipBlanks = .ok (v, afterValue) →
    afterValue.skipBlanks = ⟨r, '}' :: rest⟩ →
    EntriesStep fuel acc p cs (acc.set name v) ⟨r + 1, rest⟩
  | more {name : String} {v : Value} {after afterValue last : Cursor} {q r : Nat}
    {tail rest : List Char} {es : Entries} :
    string ⟨p, '"' :: cs⟩ = .ok (name, after) → after.skipBlanks = ⟨q, ':' :: tail⟩ →
    value fuel (⟨q + 1, tail⟩ : Cursor).skipBlanks = .ok (v, afterValue) →
    afterValue.skipBlanks = ⟨r, ',' :: rest⟩ →
    entries fuel (acc.set name v) (⟨r + 1, rest⟩ : Cursor).skipBlanks = .ok (es, last) →
    EntriesStep fuel acc p cs es last

theorem skipBlanks_eq {c : Cursor} {cs : List Char} (h : c.skipBlanks.rest = cs) :
    c.skipBlanks = ⟨c.skipBlanks.position, cs⟩ := by
  rw [← h]

theorem value_step {fuel : Nat} {c after : Cursor} {v : Value}
    (h : value (fuel + 1) c = .ok (v, after)) : ValueStep fuel c v after := by
  obtain ⟨p, cs⟩ := c
  unfold value at h
  split at h
  next => cases h
  next cs hText =>
    obtain rfl : _ = '"' :: cs := hText
    obtain ⟨⟨s, after'⟩, hString, hRead⟩ := ok_of_bind h
    cases hRead
    exact .str hString
  next cs hText =>
    obtain rfl : _ = '[' :: cs := hText
    have hAdvance : (⟨p, '[' :: cs⟩ : Cursor).advance 1 = ⟨p + 1, cs⟩ := rfl
    rw [hAdvance] at h
    dsimp only at h
    split at h
    next rest hEnd =>
      rw [skipBlanks_eq hEnd] at h
      cases h
      exact .noItems (skipBlanks_eq hEnd)
    next hOpen =>
      obtain ⟨⟨vs, after'⟩, hItems, hRead⟩ := ok_of_bind h
      cases hRead
      refine .list (fun hHead => ?_) hItems
      obtain ⟨rest, hRest⟩ := List.head?_eq_some_iff.mp hHead
      exact hOpen rest hRest
  next cs hText =>
    obtain rfl : _ = '{' :: cs := hText
    have hAdvance : (⟨p, '{' :: cs⟩ : Cursor).advance 1 = ⟨p + 1, cs⟩ := rfl
    rw [hAdvance] at h
    dsimp only at h
    split at h
    next rest hEnd =>
      rw [skipBlanks_eq hEnd] at h
      cases h
      exact .noEntries (skipBlanks_eq hEnd)
    next hOpen =>
      obtain ⟨⟨es, after'⟩, hEntries, hRead⟩ := ok_of_bind h
      cases hRead
      refine .map (fun hHead => ?_) hEntries
      obtain ⟨rest, hRest⟩ := List.head?_eq_some_iff.mp hHead
      exact hOpen rest hRest
  next hEmpty hQuote hList hMap =>
    refine .atom (fun d hd hHead => ?_) h
    obtain ⟨rest, hRest⟩ := List.head?_eq_some_iff.mp hHead
    simp only [List.mem_cons, List.not_mem_nil, or_false] at hd
    rcases hd with rfl | rfl | rfl
    · exact hQuote rest hRest
    · exact hList rest hRest
    · exact hMap rest hRest

theorem items_step {fuel : Nat} {c last : Cursor} {vs : List Value}
    (h : items (fuel + 1) c = .ok (vs, last)) : ItemsStep fuel c vs last := by
  obtain ⟨⟨v, after⟩, hValue, h⟩ := ok_of_bind (by rwa [items] at h)
  dsimp only at h
  split at h
  next rest hNext =>
    rw [skipBlanks_eq hNext] at h
    cases h
    exact .last hValue (skipBlanks_eq hNext)
  next rest hNext =>
    obtain ⟨⟨ws, last'⟩, hItems, h⟩ := ok_of_bind h
    cases h
    refine .more hValue (skipBlanks_eq hNext) ?_
    rwa [skipBlanks_eq hNext] at hItems
  next => cases h

theorem entries_step {fuel : Nat} {acc es : Entries} {c last : Cursor}
    (h : entries (fuel + 1) acc c = .ok (es, last)) :
    ∃ cs, c.rest = '"' :: cs ∧ EntriesStep fuel acc c.position cs es last := by
  obtain ⟨p, text⟩ := c
  unfold entries at h
  split at h
  next cs hText =>
    obtain rfl : text = '"' :: cs := hText
    refine ⟨cs, rfl, ?_⟩
    obtain ⟨⟨name, after⟩, hName, h⟩ := ok_of_bind h
    dsimp only at h
    split at h
    next tail hColon =>
      rw [skipBlanks_eq hColon] at h
      obtain ⟨⟨v, afterValue⟩, hValue, h⟩ := ok_of_bind h
      dsimp only at h
      split at h
      next rest hNext =>
        rw [skipBlanks_eq hNext] at h
        cases h
        exact .last hName (skipBlanks_eq hColon) hValue (skipBlanks_eq hNext)
      next rest hNext =>
        rw [skipBlanks_eq hNext] at h
        exact .more hName (skipBlanks_eq hColon) hValue (skipBlanks_eq hNext) h
      next => cases h
    next => cases h
  next => cases h

theorem value_of_step {fuel : Nat} {c after : Cursor} {v : Value} (h : ValueStep fuel c v after) :
    value (fuel + 1) c = .ok (v, after) := by
  cases h with
  | str hString => simp only [value, hString, bind, Except.bind]
  | @noItems p q cs rest hEnd =>
    have hAdvance : (⟨p, '[' :: cs⟩ : Cursor).advance 1 = ⟨p + 1, cs⟩ := rfl
    simp only [value, hAdvance, hEnd]
    rfl
  | list hOpen hItems => exact value_list rfl hOpen hItems
  | @noEntries p q cs rest hEnd =>
    have hAdvance : (⟨p, '{' :: cs⟩ : Cursor).advance 1 = ⟨p + 1, cs⟩ := rfl
    simp only [value, hAdvance, hEnd]
    rfl
  | map hOpen hEntries => exact value_map rfl hOpen hEntries
  | atom hStart hAtom =>
    unfold value
    split
    next hText =>
      obtain ⟨p, cs⟩ := c
      obtain rfl : cs = [] := hText
      cases hAtom
    next hText => exact absurd (by rw [hText, List.head?_cons]) (hStart '"' (by simp))
    next hText => exact absurd (by rw [hText, List.head?_cons]) (hStart '[' (by simp))
    next hText => exact absurd (by rw [hText, List.head?_cons]) (hStart '{' (by simp))
    next => exact hAtom

/-! ## More blanks -/

/-- What a call reads is read from a text with more blanks too, by calls that may go as deep. -/
def Rereads {α : Type} (read : Nat → Cursor → Read (α × Cursor)) (fuel : Nat) : Prop :=
  ∀ {c after c' : Cursor} {a : α}, read fuel c = .ok (a, after) → Abreast c.rest c'.rest →
    ∀ fuel' ≥ fuel, ∃ after', read fuel' c' = .ok (a, after') ∧ Spaced after.rest after'.rest

theorem string_rereads {p : Nat} {cs : List Char} {s : String} {after c' : Cursor}
    (h : string ⟨p, '"' :: cs⟩ = .ok (s, after)) (hAbreast : Abreast ('"' :: cs) c'.rest) :
    ∃ q cs' after', c' = ⟨q, '"' :: cs'⟩ ∧ string ⟨q, '"' :: cs'⟩ = .ok (s, after') ∧
      Spaced after.rest after'.rest := by
  obtain ⟨tail, rest, rest', hTail, rfl, hOther, hRest⟩ := hAbreast.string
  obtain ⟨hAfter, hAlso⟩ := string_append hTail h
  obtain ⟨r, hString⟩ := hAlso c'.position rest'
  refine ⟨c'.position, tail ++ rest', ⟨r, rest'⟩, ?_, hString, ?_⟩
  · rw [← List.cons_append, ← hOther]
  · rw [hAfter]
    exact hRest

theorem atom_rereads {c after c' : Cursor} {v : Value}
    (hStart : ∀ d ∈ ['"', '[', '{'], c.rest.head? ≠ some d) (h : atom c = .ok (v, after))
    (hAbreast : Abreast c.rest c'.rest) :
    ∃ after', atom c' = .ok (v, after') ∧ Spaced after.rest after'.rest := by
  obtain ⟨p, text⟩ := c
  obtain ⟨q, other⟩ := c'
  dsimp only at hAbreast hStart
  cases hAbreast with
  | nil => cases h
  | @token token text other hToken hRest =>
    cases hToken with
    | string _ => exact absurd rfl (hStart '"' (by simp))
    | @mark mark _ hMark =>
      -- no value starts with a mark that opens no list and no object
      exfalso
      have hEnds : EndsWord (mark :: text) := endsWord_cons (isWordChar_of_mark hMark)
      have hEmpty : atom ⟨p, [] ++ mark :: text⟩ = .ok (v, after) := h
      obtain ⟨n, -, -, hSame⟩ := atom_append hEnds hEmpty
      cases hSame 0 [] endsWord_nil
    | word _ hChars hEnds =>
      obtain ⟨n, -, hAfter, hSame⟩ := atom_append hEnds h
      refine ⟨_, hSame q other (hRest.endsWord hEnds), ?_⟩
      rw [hAfter]
      -- the rest of the word is a word again, or nothing
      by_cases hNone : token.drop n = []
      · rw [hNone]
        exact hRest
      · exact .token (.word hNone (fun c hc => hChars c (List.mem_of_mem_drop hc)) hEnds) hRest

theorem value_rereads {fuel : Nat} (hItems : Rereads items fuel)
    (hEntries : ∀ acc, Rereads (fun fuel => entries fuel acc) fuel) :
    Rereads value (fuel + 1) := by
  intro c after c' v h hAbreast fuel' hFuel
  obtain ⟨fuel', rfl⟩ : ∃ left, fuel' = left + 1 := ⟨fuel' - 1, by omega⟩
  have hLeft : fuel ≤ fuel' := Nat.le_of_succ_le_succ hFuel
  cases value_step h with
  | str hString =>
    obtain ⟨q, cs', after', rfl, hString', hRest⟩ := string_rereads hString hAbreast
    exact ⟨after', value_of_step (.str hString'), hRest⟩
  | @noItems p _ cs _ hEnd =>
    obtain ⟨q, cs', rfl, hInner⟩ := hAbreast.at_mark rfl (by decide)
    have hInside := Spaced.skipBlanks ⟨p + 1, cs⟩ ⟨q + 1, cs'⟩ hInner
    obtain ⟨r, rest', hEnd', hRest⟩ := hInside.at_mark hEnd (by decide)
    exact ⟨_, value_of_step (.noItems hEnd'), hRest⟩
  | @list p cs vs after hOpen hRead =>
    obtain ⟨q, cs', rfl, hInner⟩ := hAbreast.at_mark rfl (by decide)
    have hInside := Spaced.skipBlanks ⟨p + 1, cs⟩ ⟨q + 1, cs'⟩ hInner
    obtain ⟨after', hRead', hRest⟩ := hItems hRead hInside fuel' hLeft
    rw [hInside.head?_eq] at hOpen
    exact ⟨after', value_of_step (.list hOpen hRead'), hRest⟩
  | @noEntries p _ cs _ hEnd =>
    obtain ⟨q, cs', rfl, hInner⟩ := hAbreast.at_mark rfl (by decide)
    have hInside := Spaced.skipBlanks ⟨p + 1, cs⟩ ⟨q + 1, cs'⟩ hInner
    obtain ⟨r, rest', hEnd', hRest⟩ := hInside.at_mark hEnd (by decide)
    exact ⟨_, value_of_step (.noEntries hEnd'), hRest⟩
  | @map p cs es after hOpen hRead =>
    obtain ⟨q, cs', rfl, hInner⟩ := hAbreast.at_mark rfl (by decide)
    have hInside := Spaced.skipBlanks ⟨p + 1, cs⟩ ⟨q + 1, cs'⟩ hInner
    obtain ⟨after', hRead', hRest⟩ := hEntries [] hRead hInside fuel' hLeft
    rw [hInside.head?_eq] at hOpen
    exact ⟨after', value_of_step (.map hOpen hRead'), hRest⟩
  | atom hStart hAtom =>
    obtain ⟨after', hAtom', hRest⟩ := atom_rereads hStart hAtom hAbreast
    refine ⟨after', value_of_step (.atom ?_ hAtom'), hRest⟩
    rwa [← hAbreast.head?_eq]

theorem items_rereads {fuel : Nat} (hValue : Rereads value fuel) (hItems : Rereads items fuel) :
    Rereads items (fuel + 1) := by
  intro c last c' vs h hAbreast fuel' hFuel
  obtain ⟨fuel', rfl⟩ : ∃ left, fuel' = left + 1 := ⟨fuel' - 1, by omega⟩
  have hLeft : fuel ≤ fuel' := Nat.le_of_succ_le_succ hFuel
  cases items_step h with
  | @last v after q rest hFirst hNext =>
    obtain ⟨after', hFirst', hAfter⟩ := hValue hFirst hAbreast fuel' hLeft
    obtain ⟨q', rest', hNext', hRest⟩ :=
      (Spaced.skipBlanks after after' hAfter).at_mark hNext (by decide)
    exact ⟨_, items_last hFirst' hNext', hRest⟩
  | @more v after last q rest vs hFirst hNext hMore =>
    obtain ⟨after', hFirst', hAfter⟩ := hValue hFirst hAbreast fuel' hLeft
    obtain ⟨q', rest', hNext', hRest⟩ :=
      (Spaced.skipBlanks after after' hAfter).at_mark hNext (by decide)
    have hBehind := Spaced.skipBlanks ⟨q + 1, rest⟩ ⟨q' + 1, rest'⟩ hRest
    obtain ⟨last', hMore', hLast⟩ := hItems hMore hBehind fuel' hLeft
    exact ⟨last', items_more hFirst' hNext' hMore', hLast⟩

theorem entries_rereads {fuel : Nat} (hValue : Rereads value fuel)
    (hEntries : ∀ acc, Rereads (fun fuel => entries fuel acc) fuel) (acc : Entries) :
    Rereads (fun fuel => entries fuel acc) (fuel + 1) := by
  intro c last c' es h hAbreast fuel' hFuel
  obtain ⟨fuel', rfl⟩ : ∃ left, fuel' = left + 1 := ⟨fuel' - 1, by omega⟩
  have hLeft : fuel ≤ fuel' := Nat.le_of_succ_le_succ hFuel
  obtain ⟨cs, hText, hStep⟩ := entries_step h
  rw [hText] at hAbreast
  -- the name, the colon and the value stand in both texts
  have hEntry {name : String} {v : Value} {after afterValue : Cursor} {q : Nat} {tail : List Char}
      (hName : string ⟨c.position, '"' :: cs⟩ = .ok (name, after))
      (hColon : after.skipBlanks = ⟨q, ':' :: tail⟩)
      (hRead : value fuel (⟨q + 1, tail⟩ : Cursor).skipBlanks = .ok (v, afterValue)) :
      ∃ q' cs' after' r tail' afterValue', c' = ⟨q', '"' :: cs'⟩ ∧
        string ⟨q', '"' :: cs'⟩ = .ok (name, after') ∧ after'.skipBlanks = ⟨r, ':' :: tail'⟩ ∧
        value fuel' (⟨r + 1, tail'⟩ : Cursor).skipBlanks = .ok (v, afterValue') ∧
        Abreast afterValue.skipBlanks.rest afterValue'.skipBlanks.rest := by
    obtain ⟨q', cs', after', rfl, hName', hAfter⟩ := string_rereads hName hAbreast
    obtain ⟨r, tail', hColon', hTail⟩ :=
      (Spaced.skipBlanks after after' hAfter).at_mark hColon (by decide)
    have hBehind := Spaced.skipBlanks ⟨q + 1, tail⟩ ⟨r + 1, tail'⟩ hTail
    obtain ⟨afterValue', hRead', hRest⟩ := hValue hRead hBehind fuel' hLeft
    exact ⟨q', cs', after', r, tail', afterValue', rfl, hName', hColon', hRead',
      Spaced.skipBlanks _ _ hRest⟩
  cases hStep with
  | last hName hColon hRead hNext =>
    obtain ⟨q', cs', after', r, tail', afterValue', rfl, hName', hColon', hRead', hBehind⟩ :=
      hEntry hName hColon hRead
    obtain ⟨r', rest', hNext', hRest⟩ := hBehind.at_mark hNext (by decide)
    exact ⟨_, entries_last rfl hName' hColon' hRead' hNext', hRest⟩
  | @more name v after afterValue last q r tail rest es hName hColon hRead hNext hMore =>
    obtain ⟨q', cs', after', r', tail', afterValue', rfl, hName', hColon', hRead', hBehind⟩ :=
      hEntry hName hColon hRead
    obtain ⟨s, rest', hNext', hRest⟩ := hBehind.at_mark hNext (by decide)
    have hInside := Spaced.skipBlanks ⟨r + 1, rest⟩ ⟨s + 1, rest'⟩ hRest
    obtain ⟨last', hMore', hLast⟩ := hEntries _ hMore hInside fuel' hLeft
    exact ⟨last', (entries_more rfl hName' hColon' hRead' hNext').trans hMore', hLast⟩

/-- Every call of the reader reads the same from a text with more blanks. -/
theorem rereads (fuel : Nat) : Rereads value fuel ∧ Rereads items fuel ∧
    ∀ acc, Rereads (fun fuel => entries fuel acc) fuel := by
  induction fuel with
  | zero => exact ⟨nofun, nofun, fun _ => nofun⟩
  | succ fuel ih =>
    obtain ⟨hValue, hItems, hEntries⟩ := ih
    exact ⟨value_rereads hItems hEntries, items_rereads hValue hItems,
      entries_rereads hValue hEntries⟩

/-- **A document with more blanks between its tokens is read as the same value.** -/
theorem document_of_spaced {text other : List Char} {v : Value} (h : document text = .ok v)
    (hSpaced : Spaced text other) : document other = .ok v := by
  obtain ⟨hHead, after, hRead, hEnd⟩ := document_eq_ok_iff.mp h
  have hStart := Spaced.skipBlanks ⟨0, text⟩ ⟨0, other⟩ hSpaced
  have hFuel : 2 * text.length + 1 ≤ 2 * other.length + 1 :=
    Nat.succ_le_succ (Nat.mul_le_mul_left 2 hSpaced.length_le)
  obtain ⟨after', hRead', hRest⟩ := (rereads (2 * text.length + 1)).1 hRead hStart _ hFuel
  refine document_eq_ok_iff.mpr ⟨fun hMark => ?_, after', hRead', ?_⟩
  · rcases hSpaced.head?_cases with hSame | hSpace
    · exact hHead (hSame ▸ hMark)
    · exact absurd (hSpace _ hMark) (by decide)
  · have hSame := (Spaced.skipBlanks after after' hRest).head?_eq
    rw [hEnd] at hSame
    exact List.head?_eq_none_iff.mp hSame.symm

/-! ## Texts that are read -/

theorem Tokenized.nil : Tokenized [] := Interspersed.nil

theorem Tokenized.token {token text : List Char} (hToken : Token token text)
    (h : Tokenized text) : Tokenized (token ++ text) :=
  Interspersed.token hToken h

theorem Tokenized.mark {c : Char} {text : List Char} (hMark : c ∈ ['{', '}', '[', ']', ':', ','])
    (h : Tokenized text) : Tokenized (c :: text) :=
  Tokenized.token (.mark hMark) h

/-- Blanks in front of tokens. -/
theorem Tokenized.of_dropWhile {text : List Char} (h : Tokenized (text.dropWhile isSpace)) :
    Tokenized text := by
  induction text with
  | nil => exact .nil
  | cons c cs ih =>
    by_cases hSpace : isSpace c = true
    · rw [List.dropWhile_cons_of_pos hSpace] at h
      exact Interspersed.blank hSpace (ih h)
    · rwa [List.dropWhile_cons_of_neg hSpace] at h

theorem Tokenized.of_skipBlanks {c : Cursor} (h : Tokenized c.skipBlanks.rest) :
    Tokenized c.rest :=
  of_dropWhile h

/-- No word goes on in front of blanks. -/
theorem EndsWord.of_skipBlanks {c : Cursor} (h : EndsWord c.skipBlanks.rest) :
    EndsWord c.rest := by
  obtain ⟨p, text⟩ := c
  cases text with
  | nil => exact endsWord_nil
  | cons c cs =>
    by_cases hSpace : isSpace c = true
    · exact endsWord_cons (isWordChar_of_isSpace hSpace)
    · have hStays : (⟨p, c :: cs⟩ : Cursor).skipBlanks.rest = c :: cs :=
        List.dropWhile_cons_of_neg hSpace
      rwa [hStays] at h

/-- In front of a mark and the blanks before it stand tokens only if they stand behind it. -/
theorem Tokenized.of_mark {c : Cursor} {mark : Char} {q : Nat} {rest : List Char}
    (hNext : c.skipBlanks = ⟨q, mark :: rest⟩) (hMark : mark ∈ ['{', '}', '[', ']', ':', ','])
    (h : Tokenized rest) : EndsWord c.rest ∧ Tokenized c.rest := by
  have hEnds : EndsWord c.skipBlanks.rest := by
    rw [hNext]
    exact endsWord_cons (isWordChar_of_mark hMark)
  have hTokens : Tokenized c.skipBlanks.rest := by
    rw [hNext]
    exact .mark hMark h
  exact ⟨hEnds.of_skipBlanks, hTokens.of_skipBlanks⟩

theorem Tokenized.of_string {p : Nat} {cs : List Char} {s : String} {after : Cursor}
    (hRead : string ⟨p, '"' :: cs⟩ = .ok (s, after)) (h : Tokenized after.rest) :
    Tokenized ('"' :: cs) := by
  obtain ⟨tail, hTail, -, hText⟩ := StringTail.of_stringBody hRead
  obtain rfl : cs = tail ++ after.rest := hText
  exact .token (.string hTail) h

/-- A number or a keyword is a whole word where no word goes on after it. -/
theorem Tokenized.of_atom {c after : Cursor} {v : Value} (hRead : atom c = .ok (v, after))
    (hEnds : EndsWord after.rest) (h : Tokenized after.rest) : Tokenized c.rest := by
  obtain ⟨p, text⟩ := c
  show Tokenized text
  obtain ⟨word, rest, rfl, hChars, hRest⟩ : ∃ word rest, text = word ++ rest ∧
      (∀ c ∈ word, isWordChar c = true) ∧ EndsWord rest := by
    refine ⟨_, _, List.takeWhile_append_dropWhile.symm, fun c hc => List.mem_takeWhile_imp hc, ?_⟩
    intro c hc
    have hStops := List.head?_dropWhile_not isWordChar text
    rwa [Option.mem_def.mp hc] at hStops
  obtain ⟨n, -, hAfter, hSame⟩ := atom_append hRest hRead
  -- a word that is left after the reading would go on there
  have hWhole : word.drop n = [] := by
    by_contra hLeft
    obtain ⟨c, cs, hDrop⟩ := List.exists_cons_of_ne_nil hLeft
    have hGoesOn : isWordChar c = true :=
      hChars c (List.mem_of_mem_drop (hDrop ▸ List.mem_cons_self))
    have hStops : isWordChar c = false := hEnds c (by rw [hAfter, hDrop]; rfl)
    exact Bool.false_ne_true (hStops.symm.trans hGoesOn)
  rw [hAfter, hWhole, List.nil_append] at h
  refine .token (.word ?_ hChars hRest) h
  rintro rfl
  cases hSame 0 [] endsWord_nil

/-- What a call of the reader reads is made of tokens and blanks when the text behind it is. A word
is read as a value only where no word goes on. -/
theorem tokenized_of_read (fuel : Nat) :
    (∀ {c after : Cursor} {v : Value}, value fuel c = .ok (v, after) →
      EndsWord after.rest → Tokenized after.rest → Tokenized c.rest) ∧
    (∀ {c last : Cursor} {vs : List Value}, items fuel c = .ok (vs, last) →
      Tokenized last.rest → Tokenized c.rest) ∧
    ∀ {c last : Cursor} {acc es : Entries}, entries fuel acc c = .ok (es, last) →
      Tokenized last.rest → Tokenized c.rest := by
  induction fuel with
  | zero => exact ⟨nofun, nofun, nofun⟩
  | succ fuel ih =>
    obtain ⟨ihValue, ihItems, ihEntries⟩ := ih
    refine ⟨fun h hEnds hRest => ?_, fun h hRest => ?_, fun {c _ _ _} h hRest => ?_⟩
    · cases value_step h with
      | str hString => exact .of_string hString hRest
      | noItems hEnd => exact .mark (by decide) (Tokenized.of_mark hEnd (by decide) hRest).2
      | list _ hItems => exact .mark (by decide) (ihItems hItems hRest).of_skipBlanks
      | noEntries hEnd => exact .mark (by decide) (Tokenized.of_mark hEnd (by decide) hRest).2
      | map _ hEntries => exact .mark (by decide) (ihEntries hEntries hRest).of_skipBlanks
      | atom _ hAtom => exact .of_atom hAtom hEnds hRest
    · cases items_step h with
      | last hFirst hNext =>
        obtain ⟨hEnds, hTokens⟩ := Tokenized.of_mark hNext (by decide) hRest
        exact ihValue hFirst hEnds hTokens
      | more hFirst hNext hMore =>
        obtain ⟨hEnds, hTokens⟩ :=
          Tokenized.of_mark hNext (by decide) (ihItems hMore hRest).of_skipBlanks
        exact ihValue hFirst hEnds hTokens
    · obtain ⟨cs, hText, hStep⟩ := entries_step h
      rw [hText]
      -- the value of the entry goes up to a mark, and the name up to the colon
      cases hStep with
      | last hName hColon hRead hNext =>
        obtain ⟨hEnds, hTokens⟩ := Tokenized.of_mark hNext (by decide) hRest
        have hValue := (ihValue hRead hEnds hTokens).of_skipBlanks
        exact .of_string hName (Tokenized.of_mark hColon (by decide) hValue).2
      | more hName hColon hRead hNext hMore =>
        obtain ⟨hEnds, hTokens⟩ :=
          Tokenized.of_mark hNext (by decide) (ihEntries hMore hRest).of_skipBlanks
        have hValue := (ihValue hRead hEnds hTokens).of_skipBlanks
        exact .of_string hName (Tokenized.of_mark hColon (by decide) hValue).2

/-- **A document is made of tokens and blanks.** -/
theorem tokenized_of_document {text : List Char} {v : Value} (h : document text = .ok v) :
    Tokenized text := by
  obtain ⟨-, after, hRead, hEnd⟩ := document_eq_ok_iff.mp h
  have hEnds : EndsWord after.skipBlanks.rest := hEnd ▸ endsWord_nil
  have hRest : Tokenized after.skipBlanks.rest := hEnd ▸ Tokenized.nil
  have hStart := (tokenized_of_read _).1 hRead hEnds.of_skipBlanks hRest.of_skipBlanks
  exact hStart.of_skipBlanks

end IntegrationCompiler.Json
