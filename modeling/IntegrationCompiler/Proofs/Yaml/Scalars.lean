import IntegrationCompiler.Proofs.Diagnostics.Outcomes
import IntegrationCompiler.Proofs.Number.Numeral
import IntegrationCompiler.Proofs.Text.Newlines
import IntegrationCompiler.Yaml.Literal

/-!
# Places in a YAML text

Every reader of a scalar ends at a place of its text. It stops where the text is no YAML, and else
only at an escape for a code beyond the last character.

Main definitions:

* `Cursor.In` — a place in a text;
* `HasCodeBeyond` — the text has such an escape;
* `Stop.ShownIn`, `Scans` — the reasons for which a reader stops, and that it stops for no other.

Main results: `quoted_scans`, `block_scans` and `plain_in`, for the forms of a scalar.
-/

namespace IntegrationCompiler.Yaml

/-- The text has an escape for a code beyond that of the last character. -/
def HasCodeBeyond (text : List Char) : Prop :=
  ∃ digits code, '\\' :: 'U' :: digits <:+: text ∧ digits.length = 8 ∧
    hexNumber? digits = some code ∧ 0x10FFFF < code

/-- The text is no YAML, or it shows a character or a number that does not exist. -/
def Stop.ShownIn (text : List Char) (stop : Stop) : Prop :=
  stop = .invalid ∨ stop = .noSuchValue ∧ (HasCodeBeyond text ∨ Number.HasLongRun text)

theorem shownIn_invalid (text : List Char) : Stop.invalid.ShownIn text :=
  .inl rfl

/-- The cursor is at a place of the text. -/
def Cursor.In (c : Cursor) (text : List Char) : Prop :=
  c.rest <:+ text

namespace Cursor

theorem next_rest (c : Cursor) : c.next.rest = c.rest.tail := by
  unfold next
  split
  next h => simp [h]
  next h =>
    rw [h]
    split <;> rfl

theorem advance_rest (c : Cursor) (n : Nat) : (c.advance n).rest = c.rest.drop n := by
  induction n generalizing c with
  | zero => simp [advance]
  | succ n ih => rw [advance, ih, next_rest, List.drop_tail]

end Cursor

section

variable {text : List Char} {c : Cursor}

namespace Cursor.In

theorem next (h : c.In text) : c.next.In text := by
  unfold Cursor.In
  rw [next_rest]
  exact (List.tail_suffix c.rest).trans h

theorem advance (h : c.In text) (n : Nat) : (c.advance n).In text := by
  unfold Cursor.In
  rw [advance_rest]
  exact (List.drop_suffix n c.rest).trans h

theorem span (h : c.In text) (p : Char → Bool) : (c.span p).2.In text :=
  h.advance _

theorem skip (h : c.In text) (p : Char → Bool) : (c.skip p).In text :=
  h.span p

theorem skipSpaces (h : c.In text) : c.skipSpaces.In text :=
  h.skip _

theorem lineBreak (h : c.In text) {ch : Char} {after : Cursor}
    (hBreak : c.lineBreak? = some (ch, after)) : after.In text := by
  unfold Cursor.lineBreak? at hBreak
  split at hBreak
  · split at hBreak
    · cases hBreak
      exact h.next
    · split at hBreak
      · cases hBreak
        exact h.next
      · cases hBreak
  · cases hBreak

theorem skipBreak (h : c.In text) : c.skipBreak.In text := by
  unfold Cursor.skipBreak
  split
  next hBreak => exact h.lineBreak hBreak
  next => exact h

theorem ignoreLine (h : c.In text) :
    Ends (fun after => after.In text) (Stop.ShownIn text) c.ignoreLine := by
  have hEnd {place : Cursor} (hPlace : place.In text) :
      Ends (fun after => after.In text) (Stop.ShownIn text)
        (if isLineEnd place.peek then .ok place.skipBreak else .error .invalid) := by
    split
    · exact hPlace.skipBreak
    · exact shownIn_invalid text
  unfold Cursor.ignoreLine
  dsimp only
  split
  · exact hEnd (h.skipSpaces.skip _)
  · exact hEnd h.skipSpaces

end Cursor.In

/-- A reader step ends at a place of the text, or stops for a reason that the text shows. -/
def Scans {α : Type} (text : List Char) (outcome : Read (α × Cursor)) : Prop :=
  Ends (fun read => read.2.In text) (Stop.ShownIn text) outcome

theorem scans_invalid {α : Type} (text : List Char) :
    Scans text (.error .invalid : Read (α × Cursor)) :=
  shownIn_invalid text

/-! ## Quoted texts -/

theorem hexValue?_lt {c : Char} {v : Nat} (h : hexValue? c = some v) : v < 16 := by
  unfold hexValue? at h
  simp only [Bool.and_eq_true, decide_eq_true_eq, Char.le_def, UInt32.le_iff_toNat_le] at h
  split at h
  next hDigit =>
    have hTop : c.val.toNat ≤ 57 := hDigit.2
    have hValue : c.toNat - 48 = v := Option.some.inj h
    have hSame : c.toNat = c.val.toNat := rfl
    omega
  next =>
    split at h
    next hSmall =>
      have hTop : c.val.toNat ≤ 102 := hSmall.2
      have hValue : c.toNat - 97 + 10 = v := Option.some.inj h
      have hSame : c.toNat = c.val.toNat := rfl
      omega
    next =>
      split at h
      next hCapital =>
        have hTop : c.val.toNat ≤ 70 := hCapital.2
        have hValue : c.toNat - 65 + 10 = v := Option.some.inj h
        have hSame : c.toNat = c.val.toNat := rfl
        omega
      next => cases h

/-- So many hexadecimal digits do not write a greater number. -/
theorem hexNumber?_lt {digits : List Char} {code : Nat} (h : hexNumber? digits = some code) :
    code < 16 ^ digits.length := by
  -- digits behind others count for less
  suffices hAll : ∀ (digits : List Char) (acc : Nat),
      digits.foldlM (fun acc c => (hexValue? c).map (acc * 16 + ·)) acc = some code →
        code < (acc + 1) * 16 ^ digits.length by
    simpa using hAll digits 0 h
  intro digits
  induction digits with
  | nil =>
    intro acc hRead
    obtain rfl : acc = code := by simpa using hRead
    simp
  | cons c rest ih =>
    intro acc hRead
    rw [List.foldlM_cons] at hRead
    obtain ⟨next, hNext, hRest⟩ := Option.bind_eq_some_iff.mp hRead
    obtain ⟨v, hv, rfl⟩ := Option.map_eq_some_iff.mp hNext
    have hBound := ih _ hRest
    have hDigit := hexValue?_lt hv
    have hStep : acc * 16 + v + 1 ≤ (acc + 1) * 16 := by omega
    calc code < (acc * 16 + v + 1) * 16 ^ rest.length := hBound
      _ ≤ (acc + 1) * 16 * 16 ^ rest.length := Nat.mul_le_mul_right _ hStep
      _ = (acc + 1) * 16 ^ (c :: rest).length := by
        rw [List.length_cons, Nat.pow_succ, Nat.mul_assoc, Nat.mul_comm 16]

/-- Only eight digits can write a code beyond the last character. -/
theorem codeWidth?_of_beyond {letter : Char} {digits : List Char} {code : Nat}
    (hWidth : codeWidth? letter = some digits.length) (hCode : hexNumber? digits = some code)
    (hBeyond : 0x10FFFF < code) : letter = 'U' ∧ digits.length = 8 := by
  have hBound := hexNumber?_lt hCode
  unfold codeWidth? at hWidth
  split at hWidth
  · have hLength : digits.length = 2 := (Option.some.inj hWidth).symm
    rw [hLength] at hBound
    omega
  · have hLength : digits.length = 4 := (Option.some.inj hWidth).symm
    rw [hLength] at hBound
    omega
  · exact ⟨rfl, (Option.some.inj hWidth).symm⟩
  · cases hWidth

/-- What an escape writes for a code beyond the last character stands in the text as it is. -/
theorem hasCodeBeyond_of_escape {letter : Char} {more : List Char} {width code : Nat}
    (h : c.In text) (hHere : c.rest = '\\' :: letter :: more)
    (hWidth : codeWidth? letter = some width) (hLength : ¬ (more.take width).length < width)
    (hCode : hexNumber? (more.take width) = some code) (hBeyond : 0x10FFFF < code) :
    HasCodeBeyond text := by
  have hExact : (more.take width).length = width := by
    have hAtMost := List.length_take_le width more
    omega
  -- only one letter is followed by enough digits
  obtain ⟨rfl, hEight⟩ := codeWidth?_of_beyond (hExact.symm ▸ hWidth) hCode hBeyond
  have hPrefix : '\\' :: 'U' :: more.take width <+: c.rest := by
    rw [hHere, List.cons_prefix_cons, List.cons_prefix_cons]
    exact ⟨rfl, rfl, List.take_prefix width more⟩
  exact ⟨_, code, hPrefix.isInfix.trans h.isInfix, hEight, hCode, hBeyond⟩

theorem quotedBreaks_scans {fuel : Nat} (h : c.In text) : Scans text (quotedBreaks fuel c) := by
  induction fuel generalizing c with
  | zero => exact scans_invalid text
  | succ fuel ih =>
    unfold quotedBreaks
    split
    · exact scans_invalid text
    · dsimp only
      split
      next => exact h.skip _
      next hBreak =>
        exact (ih ((h.skip _).lineBreak hBreak)).bind fun _ hLast => hLast

theorem quotedBlanks_scans (h : c.In text) : Scans text (quotedBlanks c) := by
  unfold quotedBlanks
  dsimp only
  split
  next => exact scans_invalid text
  next =>
    split
    next => exact h.span _
    next hBreak =>
      have hAfter := (h.span _).lineBreak hBreak
      exact (quotedBreaks_scans hAfter).bind fun _ hLast => hLast

theorem escape_scans {rest : List Char} (h : c.In text) (hHere : c.rest = '\\' :: rest) :
    Scans text (escape c) := by
  have hNext : c.next.rest = rest := by rw [Cursor.next_rest, hHere, List.tail_cons]
  unfold escape
  dsimp only
  split
  next => exact scans_invalid text
  next letter hLetter =>
    split
    next => exact h.next.next
    next =>
      split
      next width hWidth =>
        split
        next code hCode =>
          split
          next => exact scans_invalid text
          next hLength =>
            split
            next hBeyond =>
              obtain ⟨more, rfl⟩ : ∃ more, rest = letter :: more := by
                rw [Cursor.peek, hNext, List.head?_eq_some_iff] at hLetter
                exact hLetter
              rw [hNext, List.drop_one, List.tail_cons] at hCode hLength
              have hShown := hasCodeBeyond_of_escape h hHere hWidth hLength hCode hBeyond
              exact .inr ⟨rfl, .inl hShown⟩
            next => exact h.next.advance _
        next => exact scans_invalid text
      next =>
        split
        next hBreak => exact quotedBreaks_scans (h.next.lineBreak hBreak)
        next => exact scans_invalid text

theorem quotedBody_scans {mark : Char} {fuel : Nat} {acc : List Char} (h : c.In text) :
    Scans text (quotedBody mark fuel acc c) := by
  induction fuel generalizing acc c with
  | zero => exact scans_invalid text
  | succ fuel ih =>
    unfold quotedBody
    split
    next => exact scans_invalid text
    next ch rest hHere =>
      split
      next => exact ih (h.advance 2)
      next =>
        split
        next => exact h.next
        next =>
          split
          next hEscape =>
            have hMark : ch = '\\' := by
              simp only [Bool.and_eq_true, beq_iff_eq] at hEscape
              exact hEscape.2
            have hScans := escape_scans h (hMark ▸ hHere)
            split
            next hStop => rwa [hStop] at hScans
            next hRead =>
              rw [hRead] at hScans
              exact ih hScans
          next =>
            split
            next =>
              have hScans := quotedBlanks_scans h
              split
              next hStop => rwa [hStop] at hScans
              next hRead =>
                rw [hRead] at hScans
                exact ih hScans
            next => exact ih h.next

theorem quoted_scans (h : c.In text) : Scans text (quoted c) := by
  unfold quoted
  split
  · exact quotedBody_scans h.next
  · exact scans_invalid text

/-! ## Blocks -/

theorem blockHeader_ends (h : c.In text) :
    Ends (fun read => read.2.2.In text) (Stop.ShownIn text) (blockHeader c) := by
  unfold blockHeader
  split
  next chomping digit after hHere =>
    -- a sign and a digit in either order, one of them, or none
    have hAfter : after.In text := by
      split at hHere
      · split at hHere
        · cases hHere
          exact h.advance 2
        · cases hHere
          exact h.next
      · split at hHere
        · split at hHere
          · cases hHere
            exact h.advance 2
          · cases hHere
            exact h.next
        · cases hHere
          exact h
    split
    · exact shownIn_invalid text
    · exact hAfter

theorem skipIndent_in (indent : Nat) (h : c.In text) : (skipIndent indent c).In text :=
  h.advance _

theorem blockBreaks_in {indent fuel : Nat} (h : c.In text) :
    (blockBreaks indent fuel c).2.In text := by
  induction fuel generalizing c with
  | zero => exact h
  | succ fuel ih =>
    have hPlace := skipIndent_in indent h
    unfold blockBreaks
    dsimp only
    split
    next => exact hPlace
    next hBreak => exact ih (hPlace.lineBreak hBreak)

theorem leadingBreaks_in {fuel widest : Nat} (h : c.In text) :
    (leadingBreaks fuel widest c).2.2.In text := by
  induction fuel generalizing c widest with
  | zero => exact h
  | succ fuel ih =>
    unfold leadingBreaks
    dsimp only
    split
    next => exact h.skipSpaces
    next hBreak => exact ih (h.skipSpaces.lineBreak hBreak)

/-- A line of a block ends with a break, if there is one. -/
theorem lineEnd_in (h : c.In text) : (match c.lineBreak? with
    | some (ch, after) => ([ch], after)
    | none => ([], c)).2.In text := by
  split
  next hBreak => exact h.lineBreak hBreak
  next => exact h

theorem blockLines_in {folded : Bool} {indent fuel : Nat} {breaks : List Char} (h : c.In text) :
    (blockLines folded indent fuel breaks c).2.2.2.In text := by
  induction fuel generalizing c breaks with
  | zero => exact h
  | succ fuel ih =>
    unfold blockLines
    have hText := h.span fun ch => !isBreak ch
    have hEither {p : Prop} [Decidable p] {x y : List Char × List Char × List Char × Cursor}
        (hx : x.2.2.2.In text) (hy : y.2.2.2.In text) : (if p then x else y).2.2.2.In text := by
      split
      · exact hx
      · exact hy
    have hRest := lineEnd_in hText
    dsimp only
    exact hEither h (hEither (ih (blockBreaks_in hRest)) (blockBreaks_in hRest))

theorem block_scans (folded : Bool) (parent : Int) (h : c.In text) :
    Scans text (block folded parent c) := by
  unfold block
  refine (blockHeader_ends h.next).bind fun read hAfter => ?_
  obtain ⟨chomping, digit, after⟩ := read
  refine hAfter.ignoreLine.bind fun start hStart => ?_
  cases digit with
  | some d =>
    dsimp only [Ends]
    exact blockLines_in (blockBreaks_in hStart)
  | none =>
    dsimp only [Ends]
    exact blockLines_in (leadingBreaks_in hStart)

/-! ## Plain texts -/

theorem plainBreaks_in {fuel : Nat} (h : c.In text) : (plainBreaks fuel c).2.In text := by
  induction fuel generalizing c with
  | zero => exact h
  | succ fuel ih =>
    unfold plainBreaks
    dsimp only
    split
    next => exact h.skipSpaces
    next hBreak =>
      have hAfter := h.skipSpaces.lineBreak hBreak
      split
      · exact hAfter
      · exact ih hAfter

theorem plainGap_in (h : c.In text) : (plainGap c).after.In text := by
  unfold plainGap
  dsimp only
  split
  next => exact h.span _
  next ch after hBreak =>
    have hAfter := (h.span _).lineBreak hBreak
    have hBreaks : (plainBreaks (after.rest.length + 1) after).2.In text := plainBreaks_in hAfter
    split
    · exact hAfter
    · split
      next hLast => rwa [hLast] at hBreaks
      next hLast => rwa [hLast] at hBreaks

theorem plainRuns_in {inFlow : Bool} {indent : Int} {fuel : Nat} {gap : List Char} {broke : Bool}
    (h : c.In text) : (plainRuns inFlow indent fuel gap broke c).2.2.In text := by
  induction fuel generalizing c gap broke with
  | zero => exact h
  | succ fuel ih =>
    unfold plainRuns
    dsimp only
    split
    · exact h
    · split
      · exact h
      · have hNext := plainGap_in (h.advance (plainRun inFlow c.rest).length)
        split
        · exact hNext
        · exact ih hNext

theorem plain_in (inFlow : Bool) (parent : Int) (h : c.In text) :
    (plain inFlow parent c).2.2.In text := by
  unfold plain
  exact plainRuns_in h

end

end IntegrationCompiler.Yaml
