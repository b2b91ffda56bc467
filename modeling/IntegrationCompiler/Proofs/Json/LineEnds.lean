import IntegrationCompiler.Proofs.Json.LongIntegers
import IntegrationCompiler.Proofs.Text.Newlines

/-!
# The ends of lines in a JSON text

A JSON text is read in the same way however its lines end. They end between its tokens only, since a
string with the end of a line in it is a fault, and there the reader takes all ends of lines for
blanks.

The text with other line ends may be shorter, and then the reader has less fuel for it. So the two
readings are compared with fuel of their own each, which is enough for what is left of their texts.

Main definitions:

* `Json.SamePlace` — a place in a text, and the same one after its lines were made to end alike;
* `Json.Alike` — both readings give the same, or both fail, and for the same integer if for any;
* `Json.ReadsAlike` — two calls of the reader with enough fuel at the same place end alike;
* `Json.SameReading` — two readings of a text, of which only the places of faults may differ.

Main results:

* `Json.parse_unifyNewlines` — the text and the one with other line ends are read in the same way;
* `Json.holdsHalf_unifyNewlines` — both hold half of a surrogate pair, or neither does.
-/

namespace IntegrationCompiler.Json

open Text

/-! ## Places -/

/-- The second place is the first one, in the text whose lines all end in a line feed. -/
def SamePlace (c c' : Cursor) : Prop :=
  c'.rest = unifyNewlines c.rest

/-- Behind a mark less of the text is left. -/
theorem Cursor.length_step {c : Cursor} {d : Char} {rest : List Char} (h : c.rest = d :: rest) :
    (c.advance 1).skipBlanks.rest.length < c.rest.length := by
  have hRest : (c.advance 1).rest = rest := by
    show c.rest.drop 1 = rest
    rw [h]
    rfl
  have hShorter := (Cursor.skipBlanks_suffix (c.advance 1)).length_le
  rw [hRest] at hShorter
  rw [h]
  exact Nat.lt_succ_of_le hShorter

namespace SamePlace

variable {c c' : Cursor}

theorem skipBlanks (h : SamePlace c c') : SamePlace c.skipBlanks c'.skipBlanks := by
  show c'.rest.dropWhile _ = unifyNewlines (c.rest.dropWhile _)
  rw [h]
  exact dropWhile_unifyNewlines rfl rfl c.rest

theorem advance {line rest : List Char} (h : SamePlace c c') (hText : c.rest = line ++ rest)
    (hLine : '\r' ∉ line) : SamePlace (c.advance line.length) (c'.advance line.length) := by
  show c'.rest.drop line.length = unifyNewlines (c.rest.drop line.length)
  rw [h, hText, unifyNewlines_append hLine, List.drop_left, List.drop_left]

theorem nil (h : SamePlace c c') (hText : c.rest = []) : c'.rest = [] := by
  rw [h, hText]
  rfl

theorem cons {d : Char} {rest : List Char} (h : SamePlace c c') (hText : c.rest = d :: rest)
    (hReturn : d ≠ '\r') : c'.rest = d :: unifyNewlines rest := by
  rw [h, hText, unifyNewlines_cons hReturn]

theorem nil_iff (h : SamePlace c c') : c'.rest = [] ↔ c.rest = [] := by
  refine ⟨fun hText' => ?_, h.nil⟩
  cases hText : c.rest with
  | nil => rfl
  | cons d rest =>
    by_cases hReturn : d = '\r'
    · obtain ⟨_, hFeed, -⟩ := unifyNewlines_return rest
      rw [h, hText, hReturn, hFeed] at hText'
      cases hText'
    · rw [h.cons hText hReturn] at hText'
      cases hText'

/-- The second text starts with a character that ends no line only if the first one does. -/
theorem not_cons {d : Char} (h : SamePlace c c') (hOther : ∀ rest, c.rest = d :: rest → False)
    (hFeed : d ≠ '\n') (rest' : List Char) : c'.rest ≠ d :: rest' := by
  intro hText
  have hPrefix : [d] <+: unifyNewlines c.rest := by
    rw [← h, hText]
    exact ⟨rest', rfl⟩
  obtain ⟨rest, hRest⟩ :=
    prefix_of_unifyNewlines hPrefix (fun hMem => hFeed (List.mem_singleton.mp hMem).symm)
  exact hOther rest hRest.symm

/-- Behind a mark. -/
theorem next {d : Char} {rest : List Char} (h : SamePlace c c') (hText : c.rest = d :: rest)
    (hReturn : d ≠ '\r') : SamePlace (c.advance 1) (c'.advance 1) := by
  have hMark : c.rest = [d] ++ rest := hText
  exact h.advance hMark fun hMem => hReturn (List.mem_singleton.mp hMem).symm

/-- Behind a mark, and the blanks after it; there less is left of either text. -/
theorem step {d : Char} {rest : List Char} (h : SamePlace c c') (hText : c.rest = d :: rest)
    (hReturn : d ≠ '\r') : SamePlace (c.advance 1).skipBlanks (c'.advance 1).skipBlanks ∧
      (c.advance 1).skipBlanks.rest.length < c.rest.length ∧
      (c'.advance 1).skipBlanks.rest.length < c'.rest.length :=
  ⟨(h.next hText hReturn).skipBlanks, Cursor.length_step hText,
    Cursor.length_step (h.cons hText hReturn)⟩

end SamePlace

/-! ## Outcomes -/

/-- Both steps read the same and go on at the same place; or both stop at a fault, or at the same
integer. -/
inductive Alike {α : Type} : Read (α × Cursor) → Read (α × Cursor) → Prop where
  | read (a : α) {after after' : Cursor} : SamePlace after after' →
    Alike (.ok (a, after)) (.ok (a, after'))
  | fault (kind kind' : Fault) (place place' : Nat) :
    Alike (.error (.fault kind place)) (.error (.fault kind' place'))
  | tooLong (digits : Nat) :
    Alike (.error (.integerTooLong digits)) (.error (.integerTooLong digits))

theorem Alike.bind {α β : Type} {first first' : Read (α × Cursor)}
    {next next' : α × Cursor → Read (β × Cursor)} (h : Alike first first')
    (hNext : ∀ a after after', first = .ok (a, after) → first' = .ok (a, after') →
      SamePlace after after' → Alike (next (a, after)) (next' (a, after'))) :
    Alike (first >>= next) (first' >>= next') := by
  cases h with
  | read a hAfter => exact hNext a _ _ rfl rfl hAfter
  | fault kind kind' place place' => exact .fault kind kind' place place'
  | tooLong digits => exact .tooLong digits

/-! ## Strings and numbers -/

section

variable {c c' : Cursor}

theorem string_alike {rest : List Char} (h : SamePlace c c') (hQuote : c.rest = '"' :: rest) :
    Alike (string c) (string c') := by
  obtain ⟨p, text⟩ := c
  obtain ⟨q, text'⟩ := c'
  obtain rfl : text = '"' :: rest := hQuote
  obtain rfl : text' = '"' :: unifyNewlines rest := h.cons rfl (by decide)
  -- a string that is read stands within a line, so it stands in both texts
  have hLineOf {cs rest : List Char} (hLine : WithinLine cs) :
      unifyNewlines (cs ++ rest) = cs ++ unifyNewlines rest :=
    unifyNewlines_append (fun hMem => (hLine _ hMem).2 rfl) rest
  cases hRead : string ⟨p, '"' :: rest⟩ with
  | ok read =>
    obtain ⟨s, after⟩ := read
    obtain ⟨tail, hTail, hLine, hText⟩ := StringTail.of_stringBody hRead
    obtain rfl : rest = tail ++ after.rest := hText
    obtain ⟨-, hAlso⟩ := string_append hTail hRead
    obtain ⟨r, hString⟩ := hAlso q (unifyNewlines after.rest)
    rw [hLineOf hLine, ← List.cons_append, hString]
    exact .read s rfl
  | error stop =>
    cases hRead' : string ⟨q, '"' :: unifyNewlines rest⟩ with
    | ok read =>
      exfalso
      obtain ⟨s, after⟩ := read
      obtain ⟨tail, hTail, hLine, hText⟩ := StringTail.of_stringBody hRead'
      have hPrefix : tail <+: unifyNewlines rest := ⟨after.rest, hText.symm⟩
      obtain ⟨more, rfl⟩ := prefix_of_unifyNewlines hPrefix fun hMem => (hLine _ hMem).1 rfl
      have hText' : unifyNewlines (tail ++ more) = tail ++ after.rest := hText
      rw [hText', ← List.cons_append] at hRead'
      obtain ⟨-, hAlso⟩ := string_append hTail hRead'
      obtain ⟨r, hString⟩ := hAlso p more
      cases hRead.symm.trans hString
    | error stop' =>
      obtain ⟨kind, place, rfl⟩ := isFault_of_stringBody hRead
      obtain ⟨kind', place', rfl⟩ := isFault_of_stringBody hRead'
      exact .fault kind kind' place place'

/-- What a text starts with that belongs to a word, and what is behind it, before and after the ends
of lines change. -/
theorem exists_word (text : List Char) : ∃ word rest, text = word ++ rest ∧
    unifyNewlines text = word ++ unifyNewlines rest ∧ '\r' ∉ word ∧
    EndsWord rest ∧ EndsWord (unifyNewlines rest) := by
  have hText : text = text.takeWhile isWordChar ++ text.dropWhile isWordChar :=
    List.takeWhile_append_dropWhile.symm
  have hReturn : '\r' ∉ text.takeWhile isWordChar :=
    fun hMem => absurd (List.mem_takeWhile_imp hMem) (by decide)
  have hEnds : EndsWord (text.dropWhile isWordChar) := by
    intro c hc
    have hStops := List.head?_dropWhile_not isWordChar text
    rwa [Option.mem_def.mp hc] at hStops
  refine ⟨_, _, hText, ?_, hReturn, hEnds, ?_⟩
  · rw [← unifyNewlines_append hReturn, ← hText]
  · cases hRest : text.dropWhile isWordChar with
    | nil => exact endsWord_nil
    | cons c rest =>
      by_cases hc : c = '\r'
      · obtain ⟨_, hFeed, -⟩ := unifyNewlines_return rest
        rw [hc, hFeed]
        exact endsWord_cons rfl
      · rw [unifyNewlines_cons hc]
        exact endsWord_cons (hEnds c (by rw [hRest]; rfl))

/-- The parts of a number are read in the same way at the same place. -/
theorem NumberParts.read_alike (n : NumberParts)
    (hAdvance : SamePlace (c.advance n.length) (c'.advance n.length)) :
    Alike (n.read c) (n.read c') := by
  unfold NumberParts.read
  by_cases hEmpty : n.whole.isEmpty
  · rw [if_pos hEmpty, if_pos hEmpty]
    exact .fault _ _ _ _
  rw [if_neg hEmpty, if_neg hEmpty]
  by_cases hInteger : n.fraction.isEmpty && n.exponent.isEmpty
  · rw [if_pos hInteger, if_pos hInteger]
    by_cases hLong : Number.maxIntegerDigits < n.whole.length
    · rw [if_pos hLong, if_pos hLong]
      exact .tooLong _
    · rw [if_neg hLong, if_neg hLong]
      exact .read _ hAdvance
  rw [if_neg hInteger, if_neg hInteger]
  split
  · exact .read _ hAdvance
  · exact .fault _ _ _ _

theorem atom_alike (h : SamePlace c c') : Alike (atom c) (atom c') := by
  obtain ⟨word, rest, hText, hText', hReturn, hEnds, hEnds'⟩ := exists_word c.rest
  rw [← h] at hText'
  -- within the word both go on at the same place
  have hAdvance {n : Nat} (hn : n ≤ word.length) : SamePlace (c.advance n) (c'.advance n) := by
    have hHere : c.rest = word.take n ++ (word.drop n ++ rest) := by
      rw [← List.append_assoc, List.take_append_drop, hText]
    have hLine : '\r' ∉ word.take n := fun hMem => hReturn (List.mem_of_mem_take hMem)
    have hStep := h.advance hHere hLine
    rwa [List.length_take_of_le hn] at hStep
  unfold atom
  dsimp only
  rw [hText, hText', find?_keyword hEnds, find?_keyword hEnds']
  cases hFound : keywords.find? fun entry => entry.1.isPrefixOf word with
  | some found =>
    obtain ⟨keyword, v⟩ := found
    have hPrefix := List.find?_some hFound
    dsimp only at hPrefix
    exact .read v (hAdvance (List.isPrefixOf_iff_prefix.mp hPrefix).length_le)
  | none =>
    have hParts : NumberParts.ofText c'.rest = NumberParts.ofText c.rest := by
      rw [hText, hText', NumberParts.ofText_append hEnds.endsNumber,
        NumberParts.ofText_append hEnds'.endsNumber]
    have hLength : (NumberParts.ofText c.rest).length ≤ word.length := by
      rw [hText, NumberParts.ofText_append hEnds.endsNumber]
      exact NumberParts.length_ofText_le word
    dsimp only
    rw [number_eq, number_eq, hParts]
    exact NumberParts.read_alike _ (hAdvance hLength)

end

/-! ## Values -/

/-- Two calls of the reader at the same place end alike, if each has the fuel for what is left of its
text. -/
def ReadsAlike {α : Type} (read : Nat → Cursor → Read (α × Cursor)) (spare fuel : Nat) : Prop :=
  ∀ {c c' : Cursor}, SamePlace c c' → 2 * c.rest.length + spare ≤ fuel →
    ∀ fuel', 2 * c'.rest.length + spare ≤ fuel' → Alike (read fuel c) (read fuel' c')

/-- Behind a value, and the blanks after it, no more of the text is left. -/
theorem length_le_of_value {fuel : Nat} {c after : Cursor} {v : Value}
    (h : value fuel c = .ok (v, after)) : after.skipBlanks.rest.length ≤ c.rest.length := by
  have hStays := (reading_staysIn c.rest fuel).1 c (List.suffix_refl _)
  rw [h] at hStays
  exact ((Cursor.skipBlanks_suffix after).trans hStays).length_le

/-- Behind a string there is less. -/
theorem length_le_of_string {c after : Cursor} {s : String} (h : string c = .ok (s, after)) :
    after.skipBlanks.rest.length ≤ c.rest.length := by
  have hStays := string_staysIn (List.suffix_refl c.rest)
  rw [h] at hStays
  exact ((Cursor.skipBlanks_suffix after).trans hStays).length_le

theorem value_alike {fuel : Nat} (hItems : ReadsAlike items 2 fuel)
    (hEntries : ∀ acc, ReadsAlike (entries · acc) 2 fuel) : ReadsAlike value 1 (fuel + 1) := by
  intro c c' h hFuel fuel' hFuel'
  obtain ⟨fuel', rfl⟩ : ∃ left, fuel' = left + 1 := ⟨fuel' - 1, by omega⟩
  unfold value
  split
  case h_1 hText =>
    simp only [h.nil hText]
    exact .fault _ _ _ _
  case h_2 hText =>
    simp only [h.cons hText (by decide)]
    exact (string_alike h hText).bind fun _ _ _ _ _ hAfter => .read _ hAfter
  case h_3 hText =>
    obtain ⟨hInner, hLess, hLess'⟩ := h.step hText (by decide)
    simp only [h.cons hText (by decide)]
    split
    next hEnd =>
      simp only [hInner.cons hEnd (by decide)]
      exact .read _ (hInner.next hEnd (by decide))
    next hOpen =>
      split
      next hEnd' => exact absurd hEnd' (hInner.not_cons hOpen (by decide) _)
      next =>
        have hRead := hItems hInner (by omega) fuel' (by omega)
        exact hRead.bind fun _ _ _ _ _ hAfter => .read _ hAfter
  case h_4 hText =>
    obtain ⟨hInner, hLess, hLess'⟩ := h.step hText (by decide)
    simp only [h.cons hText (by decide)]
    split
    next hEnd =>
      simp only [hInner.cons hEnd (by decide)]
      exact .read _ (hInner.next hEnd (by decide))
    next hOpen =>
      split
      next hEnd' => exact absurd hEnd' (hInner.not_cons hOpen (by decide) _)
      next =>
        have hRead := hEntries [] hInner (by omega) fuel' (by omega)
        exact hRead.bind fun _ _ _ _ _ hAfter => .read _ hAfter
  case h_5 hNil hQuote hList hMap =>
    -- the second text starts with none of the marks either
    have hAtom := atom_alike h
    split
    next hText' => exact absurd (h.nil_iff.mp hText') hNil
    next hText' => exact absurd hText' (h.not_cons hQuote (by decide) _)
    next hText' => exact absurd hText' (h.not_cons hList (by decide) _)
    next hText' => exact absurd hText' (h.not_cons hMap (by decide) _)
    next => exact hAtom

theorem items_alike {fuel : Nat} (hValue : ReadsAlike value 1 fuel)
    (hItems : ReadsAlike items 2 fuel) : ReadsAlike items 2 (fuel + 1) := by
  intro c c' h hFuel fuel' hFuel'
  obtain ⟨fuel', rfl⟩ : ∃ left, fuel' = left + 1 := ⟨fuel' - 1, by omega⟩
  unfold items
  refine (hValue h (by omega) fuel' (by omega)).bind fun v after after' hRead hRead' hAfter => ?_
  have hNext := hAfter.skipBlanks
  have hLess := length_le_of_value hRead
  have hLess' := length_le_of_value hRead'
  dsimp only
  split
  case h_1 hEnd =>
    simp only [hNext.cons hEnd (by decide)]
    exact .read _ (hNext.next hEnd (by decide))
  case h_2 hMore =>
    obtain ⟨hStep, hShorter, hShorter'⟩ := hNext.step hMore (by decide)
    simp only [hNext.cons hMore (by decide)]
    have hRest := hItems hStep (by omega) fuel' (by omega)
    exact hRest.bind fun _ _ _ _ _ hLast => .read _ hLast
  case h_3 hEnd hMore =>
    split
    next hText' => exact absurd hText' (hNext.not_cons hEnd (by decide) _)
    next hText' => exact absurd hText' (hNext.not_cons hMore (by decide) _)
    next => exact .fault _ _ _ _

theorem entries_alike {fuel : Nat} (hValue : ReadsAlike value 1 fuel)
    (hEntries : ∀ acc, ReadsAlike (entries · acc) 2 fuel) (acc : Entries) :
    ReadsAlike (entries · acc) 2 (fuel + 1) := by
  intro c c' h hFuel fuel' hFuel'
  obtain ⟨fuel', rfl⟩ : ∃ left, fuel' = left + 1 := ⟨fuel' - 1, by omega⟩
  show Alike (entries (fuel + 1) acc c) (entries (fuel' + 1) acc c')
  unfold entries
  split
  case h_2 hName =>
    split
    next hText' => exact absurd hText' (h.not_cons hName (by decide) _)
    next => exact .fault _ _ _ _
  case h_1 hText =>
    simp only [h.cons hText (by decide)]
    refine (string_alike h hText).bind fun name after after' hRead hRead' hAfter => ?_
    have hColon := hAfter.skipBlanks
    have hLess := length_le_of_string hRead
    have hLess' := length_le_of_string hRead'
    dsimp only
    split
    case h_2 hOther =>
      split
      next hText' => exact absurd hText' (hColon.not_cons hOther (by decide) _)
      next => exact .fault _ _ _ _
    case h_1 hMark =>
      obtain ⟨hStep, hShorter, hShorter'⟩ := hColon.step hMark (by decide)
      simp only [hColon.cons hMark (by decide)]
      have hInner := hValue hStep (by omega) fuel' (by omega)
      refine hInner.bind fun v after after' hRead hRead' hAfter => ?_
      have hNext := hAfter.skipBlanks
      have hLess := length_le_of_value hRead
      have hLess' := length_le_of_value hRead'
      dsimp only
      split
      case h_1 hEnd =>
        simp only [hNext.cons hEnd (by decide)]
        exact .read _ (hNext.next hEnd (by decide))
      case h_2 hMore =>
        obtain ⟨hStep, hShorter, hShorter'⟩ := hNext.step hMore (by decide)
        simp only [hNext.cons hMore (by decide)]
        exact hEntries _ hStep (by omega) fuel' (by omega)
      case h_3 hEnd hMore =>
        split
        next hText' => exact absurd hText' (hNext.not_cons hEnd (by decide) _)
        next hText' => exact absurd hText' (hNext.not_cons hMore (by decide) _)
        next => exact .fault _ _ _ _

/-- With the fuel that they need, all calls of the reader end alike at the same place. -/
theorem readsAlike (fuel : Nat) : ReadsAlike value 1 fuel ∧ ReadsAlike items 2 fuel ∧
    ∀ acc, ReadsAlike (entries · acc) 2 fuel := by
  induction fuel with
  | zero =>
    refine ⟨fun _ hFuel => ?_, fun _ hFuel => ?_, fun _ _ _ _ hFuel => ?_⟩
    all_goals exact absurd hFuel (by omega)
  | succ fuel ih =>
    obtain ⟨hValue, hItems, hEntries⟩ := ih
    exact ⟨value_alike hItems hEntries, items_alike hValue hItems, entries_alike hValue hEntries⟩

/-! ## Documents -/

/-- What two texts are read as: the same value, both as none, or both not for the same integer. -/
inductive SameReading : Except ReadError Value → Except ReadError Value → Prop where
  | value (v : Value) : SameReading (.ok v) (.ok v)
  | fault {kind kind' : Fault} {position position' line line' column column' : Nat} :
    SameReading (.error (.at kind position line column))
      (.error (.at kind' position' line' column'))
  | tooLong (digits : Nat) :
    SameReading (.error (.integerTooLong digits)) (.error (.integerTooLong digits))

/-- **How the lines of a text end makes no difference to what it is read as.** -/
theorem parse_unifyNewlines (text : String) :
    SameReading (parse text) (parse (String.ofList (unifyNewlines text.toList))) := by
  unfold parse
  rw [String.toList_ofList]
  generalize text.toList = cs
  unfold document
  split
  next =>
    rw [unifyNewlines_cons (by decide)]
    exact .fault
  next hMark =>
    split
    next rest hMark' =>
      have hHere : SamePlace ⟨0, cs⟩ ⟨0, unifyNewlines cs⟩ := rfl
      exact absurd hMark' (hHere.not_cons hMark (by decide) rest)
    next =>
      have hStart : SamePlace (⟨0, cs⟩ : Cursor).skipBlanks
          (⟨0, unifyNewlines cs⟩ : Cursor).skipBlanks := SamePlace.skipBlanks rfl
      have hLess (ds : List Char) : (⟨0, ds⟩ : Cursor).skipBlanks.rest.length ≤ ds.length :=
        (Cursor.skipBlanks_suffix ⟨0, ds⟩).length_le
      have hFuel (ds : List Char) :
          2 * (⟨0, ds⟩ : Cursor).skipBlanks.rest.length + 1 ≤ 2 * ds.length + 1 :=
        Nat.succ_le_succ (Nat.mul_le_mul_left 2 (hLess ds))
      have hRead := (readsAlike _).1 hStart (hFuel cs) _ (hFuel (unifyNewlines cs))
      dsimp only
      generalize value (2 * cs.length + 1) _ = outcome at hRead ⊢
      generalize value (2 * (unifyNewlines cs).length + 1) _ = outcome' at hRead ⊢
      cases hRead with
      | fault _ _ _ _ => exact .fault
      | tooLong digits => exact .tooLong digits
      | @read v after after' hAfter =>
        simp only [bind, Except.bind, List.isEmpty_iff, hAfter.skipBlanks.nil_iff]
        split
        · exact .value v
        · exact .fault

/-- Halves of surrogate pairs stand within lines. -/
theorem holdsHalf_unifyNewlines (cs : List Char) : holdsHalf (unifyNewlines cs) = holdsHalf cs := by
  unfold holdsHalf
  rw [filter_unifyNewlines rfl rfl]

end IntegrationCompiler.Json
