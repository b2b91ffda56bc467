import IntegrationCompiler.Proofs.Yaml.Scalars
import IntegrationCompiler.Yaml.Token

/-!
# Where scanning ends

The tokens of a text end with a sign that the text ceases to make sense, or go on to its end. What
breaks them shows in the text: it is no YAML, or it has an escape for a code beyond the last
character, or a version with too many digits.

Main definitions:

* `Token.IsWhole` — a token that is no such sign;
* `Lexer.Sound` — what holds of a lexer from the beginning of a text on.

Main results: `Lexer.Sound.step`, for one token, and `shownIn_of_broken`, for all of them.
-/

namespace IntegrationCompiler.Yaml

/-- The token is not the end of a text that makes no sense. -/
def Token.IsWhole : Token → Prop
  | .broken _ => False
  | _ => True

section

variable {text : List Char} {c : Cursor}

/-! ## Names, tags and directives -/

theorem name_scans (h : c.In text) : Scans text (name c) := by
  unfold name
  dsimp only
  split
  · exact scans_invalid text
  · exact h.span _

theorem anchorName_scans (h : c.In text) : Scans text (anchorName c) := by
  unfold anchorName
  exact (name_scans h.next).bind fun _ hAfter => .ite hAfter (scans_invalid text)

theorem tagHandle_scans (h : c.In text) : Scans text (tagHandle c) := by
  unfold tagHandle
  split
  · exact scans_invalid text
  split
  · exact h.next
  dsimp only
  split
  · exact (h.next.span _).next
  · exact scans_invalid text

theorem tagChars_scans {fuel : Nat} (h : c.In text) : Scans text (tagChars fuel c) := by
  induction fuel generalizing c with
  | zero => exact h
  | succ fuel ih =>
    unfold tagChars
    split
    next =>
      split
      next => exact scans_invalid text
      next =>
        split
        next => exact scans_invalid text
        next => exact (ih (h.advance _)).bind fun _ hLast => hLast
    next =>
      split
      next => exact (ih h.next).bind fun _ hLast => hLast
      next => exact h
    next => exact h

theorem tagText_scans (h : c.In text) : Scans text (tagText c) := by
  unfold tagText
  refine (tagChars_scans h).bind fun read hAfter => ?_
  dsimp only
  split
  · exact scans_invalid text
  · exact hAfter

/-- A reader step yields a whole token, and ends at a place of the text. -/
def Tokens (text : List Char) (outcome : Read (Token × Cursor)) : Prop :=
  Ends (fun read => read.1.IsWhole ∧ read.2.In text) (Stop.ShownIn text) outcome

theorem tag_tokens (h : c.In text) : Tokens text (tag c) := by
  have hEnd {token : Token} {after : Cursor} (hWhole : token.IsWhole) (hAfter : after.In text) :
      Tokens text (if isGapWithoutTab after.peek then .ok (token, after) else .error .invalid) :=
    .ite ⟨hWhole, hAfter⟩ (shownIn_invalid text)
  have hSuffix {handle : String} {start : Cursor} (hStart : start.In text) : Tokens text
      (tagText start >>= fun read =>
        if isGapWithoutTab read.2.peek then .ok (.tag (some handle) read.1, read.2)
        else .error .invalid) :=
    (tagText_scans hStart).bind fun _ hAfter => hEnd trivial hAfter
  unfold tag
  dsimp only
  split
  next =>
    exact (tagText_scans (h.advance 2)).bind fun _ hAfter =>
      .ite (hEnd trivial hAfter.next) (shownIn_invalid text)
  next =>
    refine .ite (hEnd trivial h.next) (.ite ?_ (hSuffix h.next))
    exact (tagHandle_scans h).bind fun _ hAfter => hSuffix hAfter

theorem versionNumber_scans (h : c.In text) : Scans text (versionNumber c) := by
  unfold versionNumber
  dsimp only
  split
  next => exact scans_invalid text
  next =>
    split
    next hLong =>
      -- the digits that are too many are the run that the text has
      have hPrefix : (c.span Number.isAsciiDigit).1 <+: c.rest := List.takeWhile_prefix _
      have hDigits : ∀ d ∈ (c.span Number.isAsciiDigit).1, Number.isAsciiDigit d = true :=
        fun d hd => List.mem_takeWhile_imp hd
      exact .inr ⟨rfl, .inr ⟨_, hPrefix.isInfix.trans h.isInfix, hDigits, hLong⟩⟩
    next => exact h.span _

theorem atGap_scans {α : Type} {step : Read (α × Cursor)} (h : Scans text step) :
    Scans text (atGap step) := by
  unfold atGap
  refine h.bind fun read hAfter => ?_
  dsimp only
  split
  · exact hAfter
  · exact scans_invalid text

theorem versionDirective_scans (h : c.In text) : Scans text (versionDirective c) := by
  unfold versionDirective
  refine atGap_scans ((versionNumber_scans h.skipSpaces).bind fun read hPoint => ?_)
  dsimp only
  split
  · exact scans_invalid text
  · exact (versionNumber_scans hPoint.next).bind fun _ hAfter => hAfter

theorem handleDirective_scans (h : c.In text) : Scans text (handleDirective c) := by
  unfold handleDirective
  refine (tagHandle_scans h.skipSpaces).bind fun read hGap => ?_
  dsimp only
  split
  · exact scans_invalid text
  · exact (atGap_scans (tagText_scans hGap.skipSpaces)).bind fun _ hAfter => hAfter

theorem directive_tokens (h : c.In text) : Tokens text (directive c) := by
  have hEnd {d : Directive} {place : Cursor} (hPlace : place.In text) : Tokens text
      (place.ignoreLine >>= fun after => .ok (.directive d, after)) :=
    hPlace.ignoreLine.bind fun after hAfter => ⟨trivial, hAfter⟩
  unfold directive
  refine (atGap_scans (name_scans h.next)).bind fun read hGap => ?_
  refine .ite ?_ (.ite ?_ (hEnd (hGap.skip _)))
  · exact (versionDirective_scans hGap).bind fun _ hPlace => hEnd hPlace
  · exact (handleDirective_scans hGap).bind fun _ hPlace => hEnd hPlace

end

/-! ## The lexer -/

namespace Lexer

/-- The lexer is at a place of the text, and its tokens are whole. -/
structure Sound (l : Lexer) (text : List Char) : Prop where
  place : l.cursor.In text
  whole : ∀ t ∈ l.emitted, t.IsWhole

/-- A step of the lexer keeps it sound. -/
def Steps (text : List Char) (outcome : Read Lexer) : Prop :=
  Ends (fun l => l.Sound text) (Stop.ShownIn text) outcome

section

variable {text : List Char} {l : Lexer}

namespace Sound

theorem emit (h : l.Sound text) {t : Token} (ht : t.IsWhole) : (l.emit t).Sound text :=
  ⟨h.place, List.forall_mem_cons.mpr ⟨ht, h.whole⟩⟩

theorem insert (h : l.Sound text) (back : Nat) {ts : List Token} (hts : ∀ t ∈ ts, t.IsWhole) :
    (l.insert back ts).Sound text := by
  refine ⟨h.place, fun t ht => ?_⟩
  simp only [Lexer.insert, List.mem_append, List.mem_reverse] at ht
  rcases ht with (hTaken | hNew) | hDropped
  · exact h.whole t (List.mem_of_mem_take hTaken)
  · exact hts t hNew
  · exact h.whole t (List.mem_of_mem_drop hDropped)

/-- A token is taken; what else the lexer remembers does not matter. -/
theorem takes {l' : Lexer} {t : Token} {width : Nat} (h : l.Sound text)
    (hCursor : l'.cursor = l.cursor) (hEmitted : l'.emitted = l.emitted) (ht : t.IsWhole) :
    Steps text (.ok (l'.take t width)) := by
  refine ⟨?_, List.forall_mem_cons.mpr ⟨ht, ?_⟩⟩
  · show (l'.cursor.advance width).In text
    rw [hCursor]
    exact h.place.advance width
  · rw [hEmitted]
    exact h.whole

theorem unwind (h : l.Sound text) (column : Int) : (l.unwind column).Sound text := by
  unfold Lexer.unwind
  split
  · exact h
  · refine ⟨h.place, fun t ht => ?_⟩
    rcases List.mem_append.mp ht with hClosed | hOld
    · obtain ⟨_, _, rfl⟩ := List.mem_map.mp hClosed
      trivial
    · exact h.whole t hOld

theorem deepen (h : l.Sound text) (column : Nat) : (l.deepen column).2.Sound text := by
  unfold Lexer.deepen
  split
  · exact ⟨h.place, h.whole⟩
  · exact h

theorem skipToToken (h : l.Sound text) (fuel : Nat) : (l.skipToToken fuel).Sound text := by
  induction fuel generalizing l with
  | zero => exact h
  | succ fuel ih =>
    -- a comment goes on to the end of its line
    have hPlace : (if l.cursor.skipSpaces.isAt '#' then
        l.cursor.skipSpaces.skip fun ch => !isBreak ch else l.cursor.skipSpaces).In text := by
      split
      · exact h.place.skipSpaces.skip _
      · exact h.place.skipSpaces
    unfold Lexer.skipToToken
    dsimp only
    split
    next hBreak => exact ih ⟨hPlace.lineBreak hBreak, h.whole⟩
    next => exact ⟨hPlace, h.whole⟩

theorem forgetStale (h : l.Sound text) : Steps text l.forgetStale := by
  unfold Lexer.forgetStale
  dsimp only
  split
  · exact shownIn_invalid text
  · exact ⟨h.place, h.whole⟩

theorem dropCandidate (h : l.Sound text) : Steps text l.dropCandidate := by
  unfold Lexer.dropCandidate
  split
  · exact shownIn_invalid text
  · exact ⟨h.place, h.whole⟩

theorem noteCandidate (h : l.Sound text) : Steps text l.noteCandidate := by
  unfold Lexer.noteCandidate
  split
  · exact h
  · exact h.dropCandidate.bind fun _ hNext => ⟨hNext.place, hNext.whole⟩

theorem closeAll (h : l.Sound text) : Steps text l.closeAll := by
  unfold Lexer.closeAll
  exact (h.unwind (-1)).dropCandidate.bind fun _ hNext => ⟨hNext.place, hNext.whole⟩

theorem documentMarker (h : l.Sound text) {t : Token} (ht : t.IsWhole) :
    Steps text (l.documentMarker t) :=
  h.closeAll.bind fun _ hNext => hNext.takes rfl rfl ht

theorem openFlow (h : l.Sound text) {t : Token} (ht : t.IsWhole) : Steps text (l.openFlow t) :=
  h.noteCandidate.bind fun _ hNext => hNext.takes rfl rfl ht

theorem closeFlow (h : l.Sound text) {t : Token} (ht : t.IsWhole) : Steps text (l.closeFlow t) := by
  unfold Lexer.closeFlow
  refine h.dropCandidate.bind fun next hNext => ?_
  split
  · exact shownIn_invalid text
  · exact hNext.takes rfl rfl ht

theorem flowComma (h : l.Sound text) : Steps text l.flowComma :=
  h.dropCandidate.bind fun _ hNext => hNext.takes rfl rfl trivial

theorem openBlock (h : l.Sound text) {t : Token} (ht : t.IsWhole) : Steps text (l.openBlock t) := by
  unfold Lexer.openBlock
  refine .ite h (.ite (shownIn_invalid text) ?_)
  have hDeeper := h.deepen l.cursor.column
  dsimp only
  split
  · exact hDeeper.emit ht
  · exact hDeeper

theorem dash (h : l.Sound text) : Steps text l.dash :=
  (h.openBlock (by trivial)).bind fun _ hOpened => hOpened.dropCandidate.bind fun _ hNext =>
    hNext.takes rfl rfl trivial

theorem questionMark (h : l.Sound text) : Steps text l.questionMark :=
  (h.openBlock (by trivial)).bind fun _ hOpened => hOpened.dropCandidate.bind fun _ hNext =>
    hNext.takes rfl rfl trivial

theorem colon (h : l.Sound text) : Steps text l.colon := by
  unfold Lexer.colon
  split
  next candidate _ =>
    -- what is known now to be a key gets its sign in front, where it began
    have hOpened :
        (if l.inFlow then (false, l) else l.deepen candidate.place.column).2.Sound text := by
      split
      · exact h
      · exact h.deepen _
    have hInserted (opened : Bool) : ∀ t ∈ if opened then [Token.blockMapStart, .key] else [.key],
        t.IsWhole := by
      intro t ht
      split at ht
      · simp only [List.mem_cons, List.not_mem_nil, or_false] at ht
        rcases ht with rfl | rfl
        · trivial
        · trivial
      · obtain rfl := List.mem_singleton.mp ht
        trivial
    dsimp only
    exact (hOpened.insert _ (hInserted _)).takes rfl rfl trivial
  next => exact (h.openBlock (by trivial)).bind fun _ hNext => hNext.takes rfl rfl trivial

theorem content (h : l.Sound text) {read : Cursor → Read (Token × Cursor)}
    (hRead : ∀ c : Cursor, c.In text → Tokens text (read c)) : Steps text (l.content read) := by
  unfold Lexer.content
  refine h.noteCandidate.bind fun next hNext => ?_
  exact (hRead _ hNext.place).bind fun _ hRead => ⟨hRead.2, (hNext.emit hRead.1).whole⟩

theorem blockScalar (h : l.Sound text) (folded : Bool) : Steps text (l.blockScalar folded) := by
  unfold Lexer.blockScalar
  refine h.dropCandidate.bind fun next hNext => ?_
  exact (block_scans folded next.indent hNext.place).bind fun _ hAfter =>
    ⟨hAfter, (hNext.emit (by trivial)).whole⟩

theorem plainScalar (h : l.Sound text) : Steps text l.plainScalar := by
  unfold Lexer.plainScalar
  refine h.noteCandidate.bind fun next hNext => ?_
  exact ⟨plain_in next.inFlow next.indent hNext.place, (hNext.emit (by trivial)).whole⟩

/-- Whatever token begins here, it is whole. -/
theorem token (h : l.Sound text) (ch : Char) : Steps text (l.token ch) := by
  have hName {read : Cursor → Read (String × Cursor)} (wrap : String → Token)
      (hRead : ∀ c : Cursor, c.In text → Scans text (read c)) (hWrap : ∀ s, (wrap s).IsWhole)
      (c : Cursor) (hc : c.In text) :
      Tokens text ((read c).map fun found => (wrap found.1, found.2)) :=
    (hRead c hc).map fun found hFound => ⟨hWrap found.1, hFound⟩
  -- the cases are those of the lexer, in its order; those that read a word are left for later
  unfold Lexer.token
  refine .ite ?_ <| .ite (h.documentMarker trivial) <| .ite (h.documentMarker trivial) <|
    .ite (h.openFlow trivial) <| .ite (h.openFlow trivial) <| .ite (h.closeFlow trivial) <|
    .ite (h.closeFlow trivial) <| .ite h.flowComma <| .ite h.dash <| .ite h.questionMark <|
    .ite h.colon <| .ite ?_ <| .ite ?_ <| .ite ?_ <| .ite (h.blockScalar false) <|
    .ite (h.blockScalar true) <| .ite ?_ <| .ite h.plainScalar (shownIn_invalid text)
  · refine h.closeAll.bind fun next hNext => ?_
    exact (directive_tokens hNext.place).bind fun _ hRead =>
      ⟨hRead.2, (hNext.emit hRead.1).whole⟩
  · exact h.content (hName _ (fun _ hc => anchorName_scans hc) fun _ => trivial)
  · exact h.content (hName _ (fun _ hc => anchorName_scans hc) fun _ => trivial)
  · exact h.content fun _ hc => tag_tokens hc
  · refine h.content fun c hc => (quoted_scans hc).map fun found hFound => ?_
    exact ⟨trivial, hFound⟩

theorem step (h : l.Sound text) :
    Ends (fun next => next.2.Sound text) (Stop.ShownIn text) l.step := by
  unfold Lexer.step
  refine (h.skipToToken _).forgetStale.bind fun next hNext => ?_
  have hHere := hNext.unwind next.cursor.column
  dsimp only
  split
  next => exact hHere.closeAll.bind fun _ hClosed => hClosed.emit trivial
  next ch _ => exact (hHere.token ch).bind fun _ hAfter => hAfter

/-- Of the tokens in front of a break all are whole. -/
theorem broken (h : l.Sound text) {last stop : Stop} (hBroken : .broken stop ∈ l.broken last) :
    stop = last := by
  have hSettled : ∀ n, .broken stop ∉ l.emitted.reverse.take n := fun n hMem =>
    h.whole _ (List.mem_reverse.mp (List.mem_of_mem_take hMem))
  unfold Lexer.broken at hBroken
  rcases List.mem_append.mp hBroken with hEarlier | hLast
  · split at hEarlier
    · exact absurd hEarlier (hSettled _)
    · exact (h.whole _ (List.mem_reverse.mp hEarlier)).elim
  · exact Token.broken.inj (List.mem_singleton.mp hLast)

/-- Whatever breaks the tokens shows in the text. -/
theorem run (h : l.Sound text) {fuel : Nat} {stop : Stop} (hBroken : .broken stop ∈ l.run fuel) :
    stop.ShownIn text := by
  -- each step emits whole tokens, so the one at the break is the last
  induction fuel generalizing l with
  | zero =>
    obtain rfl := h.broken hBroken
    exact shownIn_invalid text
  | succ fuel ih =>
    have hStep := h.step
    unfold Lexer.run at hBroken
    split at hBroken
    next hStop =>
      rw [hStop] at hStep
      obtain rfl := h.broken hBroken
      exact hStep
    next hEnd =>
      rw [hEnd] at hStep
      exact (hStep.whole _ (List.mem_reverse.mp hBroken)).elim
    next hMore =>
      rw [hMore] at hStep
      exact ih hStep hBroken

end Sound

end

end Lexer

end IntegrationCompiler.Yaml
