import IntegrationCompiler.Proofs.Json.Numbers
import IntegrationCompiler.Proofs.Json.Strings
import IntegrationCompiler.Proofs.Value.Json

/-!
# Reading JSON back

What the printer writes for a value is read as that value, in either style. The printer's blanks
are skipped, each item ends where the text after it cannot belong to it, and an object's names are
read in the order in which they were written.

Main definition: `Json.Reads` — a text is read as a value wherever it stands.

Main results:

* `Json.renderAt?_reads` — the text of a value is read as the value;
* `Json.parse_render_append` — so is a whole document, with blanks after it or without;
* `Json.render?_isSome_iff` — a value of JSON has a text unless an integer in it is too long.
-/

namespace IntegrationCompiler.Json

/-! ## Blanks -/

/-- The blanks of JSON. -/
def isSpace (c : Char) : Bool :=
  c == ' ' || c == '\t' || c == '\n' || c == '\r'

theorem skipBlanks_append {gap cs : List Char} (hGap : ∀ c ∈ gap, isSpace c = true)
    (hNext : ∀ c ∈ cs.head?, isSpace c = false) (p : Nat) :
    (⟨p, gap ++ cs⟩ : Cursor).skipBlanks = ⟨p + gap.length, cs⟩ := by
  have hTake : (gap ++ cs).takeWhile isSpace = gap := by
    rw [takeWhile_append_of_head hNext, List.takeWhile_eq_self_iff.mpr hGap]
  have hDrop : (gap ++ cs).dropWhile isSpace = cs := by
    have hWhole := List.takeWhile_append_dropWhile (p := isSpace) (l := gap ++ cs)
    rw [hTake] at hWhole
    exact List.append_cancel_left hWhole
  change (⟨p + ((gap ++ cs).takeWhile isSpace).length, (gap ++ cs).dropWhile isSpace⟩ : Cursor) = _
  rw [hTake, hDrop]

theorem skipBlanks_of_head {cs : List Char} (h : ∀ c ∈ cs.head?, isSpace c = false) (p : Nat) :
    (⟨p, cs⟩ : Cursor).skipBlanks = ⟨p, cs⟩ :=
  @skipBlanks_append [] cs nofun h p

theorem isNumberChar_of_isSpace {c : Char} (h : isSpace c = true) : isNumberChar c = false := by
  simp only [isSpace, Bool.or_eq_true, beq_iff_eq] at h
  rcases h with ((rfl | rfl) | rfl) | rfl <;> decide

/-- A number ends at blanks. -/
theorem endsNumber_append {gap cs : List Char} (hGap : ∀ c ∈ gap, isSpace c = true)
    (h : EndsNumber cs) : EndsNumber (gap ++ cs) := by
  cases gap with
  | nil => exact h
  | cons c gap => exact endsNumber_cons (isNumberChar_of_isSpace (hGap c List.mem_cons_self))

theorem isSpace_of_mem_newline {style : Style} {depth : Nat} :
    ∀ c ∈ (style.newline depth).toList, isSpace c = true := by
  unfold Style.newline
  split
  · exact nofun
  · rw [String.toList_ofList, List.forall_mem_cons]
    exact ⟨rfl, fun c hc => List.eq_of_mem_replicate hc ▸ rfl⟩

/-- A separator is a comma and blanks. -/
theorem comma_toList (style : Style) (depth : Nat) :
    ∃ gap, (style.comma depth).toList = ',' :: gap ∧ ∀ c ∈ gap, isSpace c = true := by
  unfold Style.comma
  split
  · exact ⟨[' '], rfl, List.forall_mem_singleton.mpr (by decide)⟩
  · refine ⟨(style.newline depth).toList, ?_, isSpace_of_mem_newline⟩
    rw [String.toList_append]
    rfl

/-! ## Texts of values -/

/-- The characters that a value can start with. -/
def isValueStart (c : Char) : Bool :=
  isNumberChar c || ['"', '[', '{', 'n', 't', 'f'].contains c

/-- A text is read as a value wherever it stands. -/
structure Reads (text : List Char) (v : Value) : Prop where
  starts : ∃ c cs, text = c :: cs ∧ isValueStart c = true
  reads : ∀ (fuel p : Nat) (rest : List Char), text.length < fuel → EndsNumber rest →
    value fuel ⟨p, text ++ rest⟩ = .ok (v, ⟨p + text.length, rest⟩)

theorem isValueStart_ne {c d : Char} (hc : isValueStart c = true) (hd : isValueStart d = false) :
    c ≠ d := by
  rintro rfl
  rw [hd] at hc
  cases hc

theorem isSpace_of_isValueStart {c : Char} (h : isValueStart c = true) : isSpace c = false := by
  have hNe {d : Char} := isValueStart_ne (d := d) h
  simp only [isSpace, beq_false_of_ne (hNe (d := ' ') rfl), beq_false_of_ne (hNe (d := '\t') rfl),
    beq_false_of_ne (hNe (d := '\n') rfl), beq_false_of_ne (hNe (d := '\r') rfl), Bool.or_false]

namespace Reads

variable {text : List Char} {v : Value}

/-- No blanks are skipped at the start of a value. -/
theorem head_not_space (h : Reads text v) (rest : List Char) :
    ∀ c ∈ (text ++ rest).head?, isSpace c = false := by
  obtain ⟨c, cs, rfl, hc⟩ := h.starts
  rintro _ ⟨rfl⟩
  exact isSpace_of_isValueStart hc

end Reads

/-! ## Leaves -/

theorem reads_null : Reads ['n', 'u', 'l', 'l'] .null where
  starts := ⟨_, _, rfl, rfl⟩
  reads := by
    rintro (_ | fuel) p rest hFuel -
    · cases hFuel
    · rfl

theorem reads_true : Reads ['t', 'r', 'u', 'e'] (.bool true) where
  starts := ⟨_, _, rfl, rfl⟩
  reads := by
    rintro (_ | fuel) p rest hFuel -
    · cases hFuel
    · rfl

theorem reads_false : Reads ['f', 'a', 'l', 's', 'e'] (.bool false) where
  starts := ⟨_, _, rfl, rfl⟩
  reads := by
    rintro (_ | fuel) p rest hFuel -
    · cases hFuel
    · rfl

theorem reads_quote (ascii : Bool) (s : String) : Reads (quote ascii s).toList (.str s) where
  starts := ⟨_, _, quote_toList ascii s, rfl⟩
  reads := by
    rintro (_ | fuel) p rest hFuel -
    · cases hFuel
    · have hString := string_quote ascii s p rest
      rw [quote_toList, List.cons_append] at hString ⊢
      simp only [value, hString, bind, Except.bind]

/-- A text of number characters that is read as a value in front of anything. -/
theorem reads_number {text : List Char} {v : Value} (hChars : ∀ c ∈ text, isNumberChar c = true)
    (h : ∃ after, number ⟨0, text⟩ = .ok (v, after) ∧ after.rest = []) : Reads text v where
  starts := by
    obtain ⟨after, hRead, -⟩ := h
    cases text with
    | nil => cases hRead
    | cons c cs => exact ⟨c, cs, rfl, by rw [isValueStart, hChars c List.mem_cons_self, Bool.true_or]⟩
  reads := by
    obtain ⟨after, hRead, hEnd⟩ := h
    rintro (_ | fuel) p rest hFuel hRest
    · cases hFuel
    · exact value_of_number hChars hRead hEnd hRest fuel p

theorem reads_intText {n : Int} (h : n.natAbs < 10 ^ Number.maxIntegerDigits) :
    Reads (intText n).toList (.int n) :=
  reads_number isNumberChar_of_mem_intText (number_intText h)

theorem reads_render {negative : Bool} {m : Nat} {q : Int} (h : ReadsBack (.finite negative m q)) :
    Reads ((Binary64.finite negative m q).render spelling).toList
      (.float (.finite negative m q)) :=
  reads_number isNumberChar_of_mem_render
    (number_of_document isNumberChar_of_mem_render (parse_eq_ok_iff.mp h))

/-! ## Items -/

section

variable {fuel q : Nat} {c after : Cursor} {rest : List Char} {v : Value}

theorem items_last (hValue : value fuel c = .ok (v, after))
    (hNext : after.skipBlanks = ⟨q, ']' :: rest⟩) :
    items (fuel + 1) c = .ok ([v], ⟨q + 1, rest⟩) := by
  simp only [items, hValue, hNext, bind, Except.bind]
  rfl

theorem items_more {vs : List Value} {last : Cursor} (hValue : value fuel c = .ok (v, after))
    (hNext : after.skipBlanks = ⟨q, ',' :: rest⟩)
    (hMore : items fuel (⟨q + 1, rest⟩ : Cursor).skipBlanks = .ok (vs, last)) :
    items (fuel + 1) c = .ok (v :: vs, last) := by
  have hAdvance : (⟨q, ',' :: rest⟩ : Cursor).advance 1 = ⟨q + 1, rest⟩ := rfl
  simp only [items, hValue, hNext, hAdvance, hMore, bind, Except.bind]

end

/-! ## Collections -/

/-- Texts with separators between them start as the first of them does. -/
theorem head?_intercalate {sep : List Char} {c : Char} {cs : List Char} {texts : List (List Char)}
    (rest : List Char) : (sep.intercalate ((c :: cs) :: texts) ++ rest).head? = some c := by
  cases texts with
  | nil => rw [List.intercalate_singleton, List.cons_append, List.head?_cons]
  | cons text texts => rw [List.intercalate_cons_cons, List.cons_append, List.cons_append,
      List.cons_append, List.head?_cons]

/-- Between two texts stand a comma and blanks. -/
theorem intercalate_comma (gap text next : List Char) (texts : List (List Char)) :
    (',' :: gap).intercalate (text :: next :: texts) =
      text ++ (',' :: (gap ++ (',' :: gap).intercalate (next :: texts))) := by
  rw [List.intercalate_cons_cons, List.append_assoc, List.cons_append]

section

variable {gap tail : List Char} (hGap : ∀ c ∈ gap, isSpace c = true)
  (hTail : ∀ c ∈ tail, isSpace c = true)

include hTail in
/-- Blanks before a closing bracket are skipped. -/
theorem skipBlanks_tail {bracket : Char} (hBracket : isSpace bracket = false) (p : Nat)
    (rest : List Char) :
    (⟨p, tail ++ bracket :: rest⟩ : Cursor).skipBlanks = ⟨p + tail.length, bracket :: rest⟩ := by
  refine skipBlanks_append hTail ?_ p
  rintro _ ⟨rfl⟩
  exact hBracket

include hGap in
/-- Blanks before the next text are skipped. -/
theorem skipBlanks_gap {c : Char} {cs : List Char} {texts : List (List Char)}
    (hStart : isSpace c = false) (sep : List Char) (p : Nat) (rest : List Char) :
    (⟨p, gap ++ (sep.intercalate ((c :: cs) :: texts) ++ rest)⟩ : Cursor).skipBlanks =
      ⟨p + gap.length, sep.intercalate ((c :: cs) :: texts) ++ rest⟩ := by
  refine skipBlanks_append hGap ?_ p
  rw [head?_intercalate]
  rintro _ ⟨rfl⟩
  exact hStart

include hGap hTail

/-- Texts of values with separators between them are the items of a list. -/
theorem items_intercalate {text : List Char} {v : Value} {texts : List (List Char)}
    {vs : List Value} (hFirst : Reads text v) (hTexts : List.Forall₂ Reads texts vs) :
    ∀ (fuel p : Nat) (rest : List Char),
      ((',' :: gap).intercalate (text :: texts)).length + 1 < fuel →
      items fuel ⟨p, (',' :: gap).intercalate (text :: texts) ++ (tail ++ ']' :: rest)⟩ =
        .ok (v :: vs,
          ⟨p + ((',' :: gap).intercalate (text :: texts)).length + tail.length + 1, rest⟩) := by
  -- The induction is on the texts after the first one, which is read by what is known of it.
  induction hTexts generalizing text v with
  | nil =>
    rintro (_ | fuel) p rest hFuel
    · cases hFuel
    rw [List.intercalate_singleton] at hFuel ⊢
    exact items_last
      (hFirst.reads fuel p _ (by omega) (endsNumber_append hTail (endsNumber_cons rfl)))
      (skipBlanks_tail hTail rfl _ rest)
  | @cons next w texts vs hNext hTexts ih =>
    rintro (_ | fuel) p rest hFuel
    · cases hFuel
    obtain ⟨c, cs, rfl, hc⟩ := hNext.starts
    rw [intercalate_comma] at hFuel ⊢
    rw [List.length_append, List.length_cons, List.length_append] at hFuel ⊢
    have hMore := ih hNext fuel (p + text.length + 1 + gap.length) rest (by omega)
    rw [← skipBlanks_gap hGap (isSpace_of_isValueStart hc)] at hMore
    rw [List.append_assoc, List.cons_append, List.append_assoc]
    rw [items_more (hFirst.reads fuel p _ (by omega) (endsNumber_cons rfl))
      (skipBlanks_of_head (by rintro _ ⟨rfl⟩; rfl) _) hMore]
    congr 4
    omega

end

/-! ## Entries -/

section

variable {fuel q r : Nat} {c after afterValue : Cursor} {rest cs : List Char} {name : String}
  {v : Value} {acc : Entries}

theorem entries_last (hQuote : c.rest.head? = some '"') (hName : string c = .ok (name, after))
    (hColon : after.skipBlanks = ⟨q, ':' :: cs⟩)
    (hValue : value fuel (⟨q + 1, cs⟩ : Cursor).skipBlanks = .ok (v, afterValue))
    (hNext : afterValue.skipBlanks = ⟨r, '}' :: rest⟩) :
    entries (fuel + 1) acc c = .ok (acc.set name v, ⟨r + 1, rest⟩) := by
  obtain ⟨tail, hRest⟩ := List.head?_eq_some_iff.mp hQuote
  have hAdvance : (⟨q, ':' :: cs⟩ : Cursor).advance 1 = ⟨q + 1, cs⟩ := rfl
  simp only [entries, hRest, hName, hColon, hAdvance, hValue, hNext, bind, Except.bind]
  rfl

theorem entries_more (hQuote : c.rest.head? = some '"') (hName : string c = .ok (name, after))
    (hColon : after.skipBlanks = ⟨q, ':' :: cs⟩)
    (hValue : value fuel (⟨q + 1, cs⟩ : Cursor).skipBlanks = .ok (v, afterValue))
    (hNext : afterValue.skipBlanks = ⟨r, ',' :: rest⟩) :
    entries (fuel + 1) acc c =
      entries fuel (acc.set name v) (⟨r + 1, rest⟩ : Cursor).skipBlanks := by
  obtain ⟨tail, hRest⟩ := List.head?_eq_some_iff.mp hQuote
  have hAdvance : (⟨q, ':' :: cs⟩ : Cursor).advance 1 = ⟨q + 1, cs⟩ := rfl
  have hComma : (⟨r, ',' :: rest⟩ : Cursor).advance 1 = ⟨r + 1, rest⟩ := rfl
  simp only [entries, hRest, hName, hColon, hAdvance, hValue, hNext, hComma, bind, Except.bind]

end

/-- A text is a name, a colon and the text of a value. -/
def ReadsEntry (ascii : Bool) (text : List Char) (e : Scalar × Value) : Prop :=
  ∃ name body, e.1 = .str name ∧ text = (quote ascii name).toList ++ ':' :: ' ' :: body ∧
    Reads body e.2

namespace ReadsEntry

variable {ascii : Bool} {text : List Char} {e : Scalar × Value}

/-- An entry starts with the quote of its name. -/
theorem starts (h : ReadsEntry ascii text e) : ∃ cs, text = '"' :: cs := by
  obtain ⟨name, body, -, rfl, -⟩ := h
  exact ⟨_, by rw [quote_toList, List.cons_append]⟩

/-- An entry is read up to what stands after its value. -/
theorem reads (h : ReadsEntry ascii text e) {fuel : Nat} (hFuel : text.length < fuel) (p : Nat)
    {rest : List Char} (hRest : EndsNumber rest) :
    ∃ name after q cs, e.1 = .str name ∧ string ⟨p, text ++ rest⟩ = .ok (name, after) ∧
      after.skipBlanks = ⟨q, ':' :: cs⟩ ∧
      value fuel (⟨q + 1, cs⟩ : Cursor).skipBlanks = .ok (e.2, ⟨p + text.length, rest⟩) := by
  obtain ⟨name, body, hName, rfl, hBody⟩ := h
  rw [List.length_append, List.length_cons, List.length_cons] at hFuel
  refine ⟨name, ⟨p + (quote ascii name).toList.length, ':' :: ' ' :: (body ++ rest)⟩, _, _, hName,
    ?_, skipBlanks_of_head (by rintro _ ⟨rfl⟩; rfl) _, ?_⟩
  · rw [List.append_assoc, List.cons_append, List.cons_append, string_quote]
  · have hSpace : ∀ c ∈ [' '], isSpace c = true := List.forall_mem_singleton.mpr (by decide)
    rw [← List.singleton_append (x := ' '), skipBlanks_append hSpace (hBody.head_not_space rest),
      hBody.reads fuel _ rest (by omega) hRest]
    simp only [List.length_append, List.length_cons, List.length_nil]
    congr 3
    omega

end ReadsEntry

/-- An entry whose name is new is stored after those that are there. -/
theorem set_eq_append {acc es : Entries} {name : String} {v : Value}
    (hDistinct : ((acc ++ (.str name, v) :: es).map Prod.fst).Nodup) :
    acc.set name v = acc ++ [(.str name, v)] := by
  refine Entries.set_of_not_mem ?_ v
  rw [List.map_append, List.nodup_append'] at hDistinct
  exact fun hMem => hDistinct.2.2 hMem List.mem_cons_self

section

variable {gap tail : List Char} (hGap : ∀ c ∈ gap, isSpace c = true)
  (hTail : ∀ c ∈ tail, isSpace c = true)

include hGap hTail

/-- Texts of entries with separators between them are the entries of an object, if no name is
repeated. -/
theorem entries_intercalate {ascii : Bool} {text : List Char} {e : Scalar × Value}
    {texts : List (List Char)} {es : Entries} (hFirst : ReadsEntry ascii text e)
    (hTexts : List.Forall₂ (ReadsEntry ascii) texts es) :
    ∀ (fuel p : Nat) (acc : Entries) (rest : List Char),
      ((acc ++ e :: es).map Prod.fst).Nodup →
      ((',' :: gap).intercalate (text :: texts)).length + 1 < fuel →
      entries fuel acc ⟨p, (',' :: gap).intercalate (text :: texts) ++ (tail ++ '}' :: rest)⟩ =
        .ok (acc ++ e :: es,
          ⟨p + ((',' :: gap).intercalate (text :: texts)).length + tail.length + 1, rest⟩) := by
  -- The induction is on the texts; what was read before them is stored already.
  induction hTexts generalizing text e with
  | nil =>
    rintro (_ | fuel) p acc rest hDistinct hFuel
    · cases hFuel
    rw [List.intercalate_singleton] at hFuel ⊢
    have hEnd : EndsNumber (tail ++ '}' :: rest) := endsNumber_append hTail (endsNumber_cons rfl)
    obtain ⟨name, after, q, cs, hName, hString, hColon, hValue⟩ :=
      hFirst.reads (Nat.lt_of_succ_lt_succ hFuel) p hEnd
    obtain ⟨k, v⟩ := e
    cases hName
    obtain ⟨body, rfl⟩ := hFirst.starts
    rw [← set_eq_append hDistinct]
    exact entries_last rfl hString hColon hValue (skipBlanks_tail hTail rfl _ rest)
  | @cons next e' texts es hNext hTexts ih =>
    rintro (_ | fuel) p acc rest hDistinct hFuel
    · cases hFuel
    obtain ⟨body', rfl⟩ := hNext.starts
    rw [intercalate_comma] at hFuel ⊢
    rw [List.length_append, List.length_cons, List.length_append] at hFuel ⊢
    rw [List.append_assoc, List.cons_append, List.append_assoc]
    have hShort : text.length < fuel := by omega
    obtain ⟨name, after, q, cs, hName, hString, hColon, hValue⟩ :=
      hFirst.reads hShort p (endsNumber_cons (c := ',') rfl)
    obtain ⟨k, v⟩ := e
    cases hName
    obtain ⟨body, rfl⟩ := hFirst.starts
    have hMoved : acc ++ (.str name, v) :: e' :: es = acc.set name v ++ e' :: es := by
      rw [set_eq_append hDistinct, List.append_assoc, List.singleton_append]
    rw [entries_more rfl hString hColon hValue (skipBlanks_of_head (by rintro _ ⟨rfl⟩; rfl) _),
      skipBlanks_gap hGap rfl, hMoved, ih hNext fuel _ _ rest (hMoved ▸ hDistinct) (by omega)]
    congr 3
    omega

end

/-! ## The texts of collections -/

section

variable {fuel p : Nat} {cs : List Char} {inner after : Cursor}

theorem value_list {vs : List Value} (hInner : (⟨p + 1, cs⟩ : Cursor).skipBlanks = inner)
    (hSome : inner.rest.head? ≠ some ']') (hItems : items fuel inner = .ok (vs, after)) :
    value (fuel + 1) ⟨p, '[' :: cs⟩ = .ok (.list vs, after) := by
  have hAdvance : (⟨p, '[' :: cs⟩ : Cursor).advance 1 = ⟨p + 1, cs⟩ := rfl
  simp only [value, hAdvance, hInner]
  split
  next hEq => exact absurd (by rw [hEq, List.head?_cons]) hSome
  next => simp only [hItems, bind, Except.bind]

theorem value_map {es : Entries} (hInner : (⟨p + 1, cs⟩ : Cursor).skipBlanks = inner)
    (hSome : inner.rest.head? ≠ some '}') (hEntries : entries fuel [] inner = .ok (es, after)) :
    value (fuel + 1) ⟨p, '{' :: cs⟩ = .ok (.map es, after) := by
  have hAdvance : (⟨p, '{' :: cs⟩ : Cursor).advance 1 = ⟨p + 1, cs⟩ := rfl
  simp only [value, hAdvance, hInner]
  split
  next hEq => exact absurd (by rw [hEq, List.head?_cons]) hSome
  next => simp only [hEntries, bind, Except.bind]

end

section

variable {style : Style} {depth : Nat}

theorem enclose_nil (opening closing : String) :
    (style.enclose depth opening closing []).toList = opening.toList ++ closing.toList := by
  rw [Style.enclose, List.isEmpty_nil, if_pos rfl, String.toList_append]

theorem enclose_cons {opening closing : String} {a b : Char} (hOpening : opening.toList = [a])
    (hClosing : closing.toList = [b]) (piece : String) (pieces : List String) :
    (style.enclose depth opening closing (piece :: pieces)).toList =
      a :: ((style.newline (depth + 1)).toList ++
        ((style.comma (depth + 1)).toList.intercalate (piece.toList :: pieces.map String.toList) ++
          ((style.newline depth).toList ++ [b]))) := by
  rw [Style.enclose, List.isEmpty_cons, if_neg Bool.false_ne_true]
  simp only [String.toList_append, String.toList_intercalate, List.map_cons, List.append_assoc,
    hOpening, hClosing, List.cons_append, List.nil_append]

/-- The text of a list is read as the list. -/
theorem reads_list {pieces : List String} {vs : List Value}
    (h : List.Forall₂ (fun piece v => Reads piece.toList v) pieces vs) :
    Reads (style.enclose depth "[" "]" pieces).toList (.list vs) := by
  cases h with
  | nil =>
    rw [enclose_nil]
    refine ⟨⟨_, _, rfl, rfl⟩, ?_⟩
    rintro (_ | fuel) p rest hFuel -
    · cases hFuel
    · rfl
  | @cons piece v pieces vs hFirst hMore =>
    have hTexts : List.Forall₂ Reads (pieces.map String.toList) vs :=
      List.forall₂_map_left_iff.mpr hMore
    obtain ⟨gap, hComma, hGap⟩ := comma_toList style (depth + 1)
    obtain ⟨c, cs, hPiece, hc⟩ := hFirst.starts
    have hOpen : ∀ c ∈ (style.newline (depth + 1)).toList, isSpace c = true :=
      isSpace_of_mem_newline
    have hClose : ∀ c ∈ (style.newline depth).toList, isSpace c = true := isSpace_of_mem_newline
    rw [enclose_cons (a := '[') (b := ']') rfl rfl, hComma]
    rw [hPiece] at hFirst ⊢
    refine ⟨⟨_, _, rfl, rfl⟩, ?_⟩
    rintro (_ | fuel) p rest hFuel -
    · cases hFuel
    simp only [List.length_cons, List.length_append, List.length_nil] at hFuel ⊢
    have hItems := items_intercalate hGap hClose hFirst hTexts fuel
      (p + 1 + (style.newline (depth + 1)).toList.length) rest (by omega)
    simp only [List.cons_append, List.append_assoc, List.nil_append]
    rw [value_list (skipBlanks_gap hOpen (isSpace_of_isValueStart hc) _ _ _) ?_ hItems]
    · congr 3
      omega
    · rw [head?_intercalate]
      exact fun hEq => isValueStart_ne hc rfl (Option.some.inj hEq)

/-- The text of an object is read as the object, if no name is repeated. -/
theorem reads_map {ascii : Bool} {pieces : List String} {es : Entries}
    (hDistinct : (es.map Prod.fst).Nodup)
    (h : List.Forall₂ (fun piece e => ReadsEntry ascii piece.toList e) pieces es) :
    Reads (style.enclose depth "\x7b" "\x7d" pieces).toList (.map es) := by
  cases h with
  | nil =>
    rw [enclose_nil]
    refine ⟨⟨_, _, rfl, rfl⟩, ?_⟩
    rintro (_ | fuel) p rest hFuel -
    · cases hFuel
    · rfl
  | @cons piece e pieces es hFirst hMore =>
    have hTexts : List.Forall₂ (ReadsEntry ascii) (pieces.map String.toList) es :=
      List.forall₂_map_left_iff.mpr hMore
    obtain ⟨gap, hComma, hGap⟩ := comma_toList style (depth + 1)
    obtain ⟨cs, hPiece⟩ := hFirst.starts
    have hOpen : ∀ c ∈ (style.newline (depth + 1)).toList, isSpace c = true :=
      isSpace_of_mem_newline
    have hClose : ∀ c ∈ (style.newline depth).toList, isSpace c = true := isSpace_of_mem_newline
    rw [enclose_cons (a := '{') (b := '}') rfl rfl, hComma]
    rw [hPiece] at hFirst ⊢
    refine ⟨⟨_, _, rfl, rfl⟩, ?_⟩
    rintro (_ | fuel) p rest hFuel -
    · cases hFuel
    simp only [List.length_cons, List.length_append, List.length_nil] at hFuel ⊢
    have hEntries := entries_intercalate hGap hClose hFirst hTexts fuel
      (p + 1 + (style.newline (depth + 1)).toList.length) [] rest hDistinct (by omega)
    simp only [List.cons_append, List.append_assoc, List.nil_append]
    rw [value_map (skipBlanks_gap hOpen rfl _ _ _) ?_ hEntries]
    · rw [List.nil_append]
      congr 3
      omega
    · rw [head?_intercalate]
      decide

end

/-! ## The texts of values -/

section

variable {style : Style}

theorem renderItems?_reads {items : List Value}
    (h : ∀ v ∈ items, ∀ depth text, renderAt? style depth v = some text → Reads text.toList v) :
    ∀ depth pieces, renderItems? style depth items = some pieces →
      List.Forall₂ (fun piece v => Reads piece.toList v) pieces items := by
  induction items with
  | nil =>
    rintro depth _ ⟨rfl⟩
    exact .nil
  | cons v rest ih =>
    intro depth pieces hPieces
    rw [List.forall_mem_cons] at h
    simp only [renderItems?, Option.bind_eq_bind, Option.bind_eq_some_iff, Option.some.injEq] at hPieces
    obtain ⟨head, hHead, tail, hTail, rfl⟩ := hPieces
    exact .cons (h.1 depth head hHead) (ih h.2 depth tail hTail)

theorem renderEntries?_reads {es : Entries} (hKeys : ∀ e ∈ es, ∃ name, e.1 = .str name)
    (h : ∀ e ∈ es, ∀ depth text, renderAt? style depth e.2 = some text → Reads text.toList e.2) :
    ∀ depth pieces, renderEntries? style depth es = some pieces →
      List.Forall₂ (fun piece e => ReadsEntry style.ascii piece.toList e) pieces es := by
  induction es with
  | nil =>
    rintro depth _ ⟨rfl⟩
    exact .nil
  | cons e rest ih =>
    intro depth pieces hPieces
    obtain ⟨k, v⟩ := e
    rw [List.forall_mem_cons] at h hKeys
    obtain ⟨⟨name, rfl⟩, hKeys⟩ := hKeys
    simp only [renderEntries?, keyText?, Option.bind_eq_bind, Option.bind_eq_some_iff,
      Option.some.injEq] at hPieces
    obtain ⟨_, rfl, head, hHead, tail, hTail, rfl⟩ := hPieces
    refine .cons ⟨name, head.toList, rfl, ?_, h.1 depth head hHead⟩ (ih hKeys h.2 depth tail hTail)
    simp only [String.toList_append, List.append_assoc]
    rfl

/-- **The text of a value is read as the value**, in either style and at any depth. -/
theorem renderAt?_reads {v : Value} (h : v.IsJson)
    (hFloats : ∀ x, Value.Within (.float x) v → ReadsBack x) :
    ∀ depth text, renderAt? style depth v = some text → Reads text.toList v := by
  induction h with
  | null =>
    rintro depth _ ⟨rfl⟩
    exact reads_null
  | bool b =>
    rintro depth _ ⟨rfl⟩
    cases b
    · exact reads_false
    · exact reads_true
  | int n =>
    intro depth text hText
    rw [renderAt?, scalar?, intText?] at hText
    split at hText
    · cases hText
    next hShort =>
      cases hText
      exact reads_intText (Number.length_toDigits_le_iff.mp (Nat.not_lt.mp hShort))
  | float negative m q =>
    rintro depth _ ⟨rfl⟩
    exact reads_render (hFloats _ (.self _))
  | str s =>
    rintro depth _ ⟨rfl⟩
    exact reads_quote style.ascii s
  | list hItems ih =>
    intro depth text hText
    rw [renderAt?, Option.map_eq_some_iff] at hText
    obtain ⟨pieces, hPieces, rfl⟩ := hText
    exact reads_list (renderItems?_reads
      (fun v hv => ih v hv fun x hx => hFloats x (.item hv hx)) _ pieces hPieces)
  | map hKeys hDistinct hValues ih =>
    intro depth text hText
    rw [renderAt?, Option.map_eq_some_iff] at hText
    obtain ⟨pieces, hPieces, rfl⟩ := hText
    exact reads_map hDistinct (renderEntries?_reads hKeys
      (fun e he => ih e he fun x hx => hFloats x (.entry he hx)) _ pieces hPieces)

/-- **The text of a value, with blanks after it or without, is read as the value.** -/
theorem parse_render_append {v : Value} {text : String} (h : v.IsJson)
    (hFloats : ∀ x, Value.Within (.float x) v → ReadsBack x)
    (hText : render? style v = some text) {blanks : String}
    (hBlanks : ∀ c ∈ blanks.toList, isSpace c = true) : parse (text ++ blanks) = .ok v := by
  have hReads := renderAt?_reads h hFloats 0 text hText
  obtain ⟨c, cs, hStart, hc⟩ := hReads.starts
  have hEnds : EndsNumber blanks.toList := by
    rw [← List.append_nil blanks.toList]
    exact endsNumber_append hBlanks endsNumber_nil
  refine parse_eq_ok_iff.mpr (document_eq_ok_iff.mpr
    ⟨?_, ⟨0 + text.toList.length, blanks.toList⟩, ?_, ?_⟩)
  · rw [String.toList_append, hStart, List.cons_append, List.head?_cons]
    exact fun hEq => isValueStart_ne hc rfl (Option.some.inj hEq)
  · rw [String.toList_append, skipBlanks_of_head (hReads.head_not_space blanks.toList)]
    exact hReads.reads _ 0 blanks.toList (by rw [List.length_append]; omega) hEnds
  · have hEnd : ∀ c ∈ ([] : List Char).head?, isSpace c = false := nofun
    have hSkip := skipBlanks_append hBlanks hEnd (0 + text.toList.length)
    rw [List.append_nil] at hSkip
    rw [hSkip]

theorem parse_render {v : Value} {text : String} (h : v.IsJson)
    (hFloats : ∀ x, Value.Within (.float x) v → ReadsBack x)
    (hText : render? style v = some text) : parse text = .ok v := by
  have hNone : ∀ c ∈ "".toList, isSpace c = true := nofun
  have hParse := parse_render_append h hFloats hText hNone
  rwa [String.append_empty] at hParse

/-! ## Which values have a text -/

theorem renderItems?_isSome {items : List Value}
    (h : ∀ v ∈ items, ∀ depth, (renderAt? style depth v).isSome) :
    ∀ depth, (renderItems? style depth items).isSome := by
  intro depth
  induction items with
  | nil => rfl
  | cons v rest ih =>
    rw [List.forall_mem_cons] at h
    obtain ⟨head, hHead⟩ := Option.isSome_iff_exists.mp (h.1 depth)
    obtain ⟨tail, hTail⟩ := Option.isSome_iff_exists.mp (ih h.2)
    simp only [renderItems?, hHead, hTail, bind, Option.bind, Option.isSome_some]

theorem renderEntries?_isSome {es : Entries} (hKeys : ∀ e ∈ es, ∃ name, e.1 = .str name)
    (h : ∀ e ∈ es, ∀ depth, (renderAt? style depth e.2).isSome) :
    ∀ depth, (renderEntries? style depth es).isSome := by
  intro depth
  induction es with
  | nil => rfl
  | cons e rest ih =>
    obtain ⟨k, v⟩ := e
    rw [List.forall_mem_cons] at h hKeys
    obtain ⟨⟨name, rfl⟩, hKeys⟩ := hKeys
    obtain ⟨head, hHead⟩ := Option.isSome_iff_exists.mp (h.1 depth)
    obtain ⟨tail, hTail⟩ := Option.isSome_iff_exists.mp (ih hKeys h.2)
    simp only [renderEntries?, keyText?, hHead, hTail, bind, Option.bind, Option.isSome_some]

/-- A value of JSON has a text when no integer in it is too long. -/
theorem renderAt?_isSome {v : Value} (h : v.IsJson)
    (hShort : ∀ n, Value.Within (.int n) v → n.natAbs < 10 ^ Number.maxIntegerDigits) :
    ∀ depth, (renderAt? style depth v).isSome := by
  induction h with
  | null | bool | float | str => exact fun _ => rfl
  | int n =>
    intro depth
    exact intText?_isSome_iff.mpr (hShort n (.self _))
  | list hItems ih =>
    intro depth
    rw [renderAt?, Option.isSome_map]
    exact renderItems?_isSome (fun v hv => ih v hv fun n hn => hShort n (.item hv hn)) _
  | map hKeys hDistinct hValues ih =>
    intro depth
    rw [renderAt?, Option.isSome_map]
    exact renderEntries?_isSome hKeys (fun e he => ih e he fun n hn => hShort n (.entry he hn)) _

theorem renderAt?_of_renderItems? {depth : Nat} {items : List Value} {pieces : List String}
    (h : renderItems? style depth items = some pieces) {v : Value} (hv : v ∈ items) :
    ∃ text, renderAt? style depth v = some text := by
  induction items generalizing pieces with
  | nil => cases hv
  | cons w rest ih =>
    simp only [renderItems?, Option.bind_eq_bind, Option.bind_eq_some_iff] at h
    obtain ⟨head, hHead, tail, hTail, -⟩ := h
    rcases List.mem_cons.mp hv with rfl | hRest
    · exact ⟨head, hHead⟩
    · exact ih hTail hRest

theorem renderAt?_of_renderEntries? {depth : Nat} {es : Entries} {pieces : List String}
    (h : renderEntries? style depth es = some pieces) {k : Scalar} {v : Value}
    (he : (k, v) ∈ es) : ∃ text, renderAt? style depth v = some text := by
  induction es generalizing pieces with
  | nil => cases he
  | cons e rest ih =>
    obtain ⟨k', w⟩ := e
    simp only [renderEntries?, Option.bind_eq_bind, Option.bind_eq_some_iff] at h
    obtain ⟨_, _, head, hHead, tail, hTail, -⟩ := h
    rcases List.mem_cons.mp he with hEq | hRest
    · cases hEq
      exact ⟨head, hHead⟩
    · exact ih hTail hRest

/-- No integer in a value with a text is too long. -/
theorem natAbs_lt_of_renderAt? {v : Value} {n : Int} (hWithin : Value.Within (.int n) v) :
    ∀ depth text, renderAt? style depth v = some text →
      n.natAbs < 10 ^ Number.maxIntegerDigits := by
  -- The induction is on the way to the integer: a text of the whole has a text of each part.
  induction hWithin with
  | self =>
    intro depth text hText
    exact intText?_isSome_iff.mp (Option.isSome_of_eq_some hText)
  | item hMem _ ih =>
    intro depth text hText
    rw [renderAt?, Option.map_eq_some_iff] at hText
    obtain ⟨pieces, hPieces, -⟩ := hText
    obtain ⟨inner, hInner⟩ := renderAt?_of_renderItems? hPieces hMem
    exact ih _ inner hInner
  | entry hMem _ ih =>
    intro depth text hText
    rw [renderAt?, Option.map_eq_some_iff] at hText
    obtain ⟨pieces, hPieces, -⟩ := hText
    obtain ⟨inner, hInner⟩ := renderAt?_of_renderEntries? hPieces hMem
    exact ih _ inner hInner

/-- **A value of JSON has a text unless an integer in it is too long.** -/
theorem render?_isSome_iff {v : Value} (h : v.IsJson) : (render? style v).isSome ↔
    ∀ n, Value.Within (.int n) v → n.natAbs < 10 ^ Number.maxIntegerDigits := by
  constructor
  · intro hText n hWithin
    obtain ⟨text, hText⟩ := Option.isSome_iff_exists.mp hText
    exact natAbs_lt_of_renderAt? hWithin 0 text hText
  · exact fun hShort => renderAt?_isSome h hShort 0

end

end IntegrationCompiler.Json
