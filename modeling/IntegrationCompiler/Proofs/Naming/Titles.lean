import IntegrationCompiler.Naming.Label
import IntegrationCompiler.Proofs.Text.Case
import IntegrationCompiler.Proofs.Text.Cutting

/-!
# Titles

A title differs from its text in letter case and in spacing only. How a word is spelled depends on
its letters, not on their case, so that spelling a title once more changes nothing.

* `titleSpelling` — how the part of a word before its final punctuation is spelled;
* `lower_titleWord`, `titleWord_lower` — a word keeps its letters, whose case makes no difference;
* `titleWords_map_lower`, `words_titleCase` — the same for the words of a text;
* `titleCase_respells` — what becomes of a text.
-/

namespace IntegrationCompiler

open Text

/-! ## Final punctuation -/

section

variable {c : Char} {word : List Char}

theorem withoutMarks_append_trailingMarks (word : List Char) :
    withoutMarks word ++ trailingMarks word = word := by
  rw [withoutMarks, trailingMarks, ← List.reverse_append, List.takeWhile_append_dropWhile,
    List.reverse_reverse]

theorem isAscii_withoutMarks (h : IsAscii word) : IsAscii (withoutMarks word) := by
  rw [← withoutMarks_append_trailingMarks word] at h
  exact (isAscii_append.mp h).1

theorem isAscii_trailingMarks (h : IsAscii word) : IsAscii (trailingMarks word) := by
  rw [← withoutMarks_append_trailingMarks word] at h
  exact (isAscii_append.mp h).2

/-- Punctuation has no case. -/
theorem toLower_of_isTrailingMark (h : isTrailingMark c = true) : c.toLower = c := by
  have hEach : ['.', ',', '!', '?', ';', ':'].all (fun mark => mark.toLower == mark) = true := by
    decide
  exact beq_iff_eq.mp (List.all_eq_true.mp hEach c (List.contains_iff_mem.mp h))

/-- A letter does not become punctuation. -/
theorem isTrailingMark_toLower (c : Char) : isTrailingMark c.toLower = isTrailingMark c := by
  by_cases hAscii : c.toNat < 0x80
  · exact of_ascii (P := fun c => isTrailingMark c.toLower = isTrailingMark c) (by decide) hAscii
  · have hSame : c.toLower = c := by
      refine dif_neg fun hCapital => hAscii ?_
      have hZ : c.val.toNat ≤ 90 := hCapital.2
      exact Nat.lt_of_le_of_lt hZ (by decide)
    rw [hSame]

theorem isTrailingMark_comp_toLower : isTrailingMark ∘ Char.toLower = isTrailingMark :=
  funext isTrailingMark_toLower

theorem withoutMarks_lower (h : IsAscii word) :
    withoutMarks (lower word) = lower (withoutMarks word) := by
  rw [lower_of_ascii h, lower_of_ascii (isAscii_withoutMarks h), withoutMarks, withoutMarks,
    ← List.map_reverse, List.dropWhile_map, isTrailingMark_comp_toLower, List.map_reverse]

theorem map_toLower_trailingMarks (word : List Char) :
    (trailingMarks word).map Char.toLower = trailingMarks word := by
  refine (List.map_congr_left fun c hc => ?_).trans (List.map_id _)
  exact toLower_of_isTrailingMark (List.mem_takeWhile_imp (List.mem_reverse.mp hc))

theorem trailingMarks_lower (h : IsAscii word) :
    trailingMarks (lower word) = trailingMarks word := by
  rw [lower_of_ascii h, trailingMarks, ← List.map_reverse, List.takeWhile_map,
    isTrailingMark_comp_toLower, ← List.map_reverse]
  exact map_toLower_trailingMarks word

end

/-! ## The spelling of a word -/

/-- How the part of a word before its final punctuation is spelled in a title. -/
def titleSpelling (first : Bool) (body : List Char) : List Char :=
  match acronyms.lookup (String.ofList (lower body)) with
  | some spelling => spelling.toList
  | none =>
    if !first && minorWords.contains (String.ofList (lower body)) then lower body
    else capitalize body

section

variable {first : Bool} {body word : List Char}

theorem titleWord_eq (first : Bool) (word : List Char) :
    titleWord first word = titleSpelling first (withoutMarks word) ++ trailingMarks word := by
  unfold titleWord
  dsimp only
  split
  · next hEmpty =>
    -- what is nothing but punctuation has nothing to be spelled
    have hNone : withoutMarks word = [] := List.isEmpty_iff.mp hEmpty
    have hSpelling : titleSpelling first [] = [] := by
      revert first
      decide
    have hMarks := withoutMarks_append_trailingMarks word
    rw [hNone, List.nil_append] at hMarks
    rw [hNone, hSpelling, List.nil_append, hMarks]
  · unfold titleSpelling
    cases acronyms.lookup (String.ofList (lower (withoutMarks word))) with
    | some spelling => rfl
    | none =>
      dsimp only
      split
      · rfl
      · rfl

/-- The spelling of an abbreviation has the letters of the abbreviation. -/
theorem acronyms_letters {small spelling : String} (h : acronyms.lookup small = some spelling) :
    lower spelling.toList = small.toList ∧ IsAscii spelling.toList := by
  have hEach : ∀ e ∈ acronyms, lower e.2.toList = e.1.toList ∧ IsAscii e.2.toList := by decide
  obtain ⟨before, after, hSplit, -⟩ := List.lookup_eq_some_iff.mp h
  refine hEach (small, spelling) ?_
  rw [hSplit]
  exact List.mem_append_right _ List.mem_cons_self

theorem isAscii_titleSpelling (h : IsAscii body) : IsAscii (titleSpelling first body) := by
  unfold titleSpelling
  split
  · next spelling hFound => exact (acronyms_letters hFound).2
  · split
    · exact isAscii_lower h
    · exact isAscii_capitalize h

/-- **Spelling keeps the letters**, whichever way a word is spelled. -/
theorem lower_titleSpelling (h : IsAscii body) : lower (titleSpelling first body) = lower body := by
  unfold titleSpelling
  split
  · next spelling hFound =>
    rw [(acronyms_letters hFound).1, String.toList_ofList]
  · split
    · exact lower_lower h
    · exact lower_capitalize h

/-- The case of the letters makes no difference to the spelling. -/
theorem titleSpelling_lower (h : IsAscii body) :
    titleSpelling first (lower body) = titleSpelling first body := by
  unfold titleSpelling
  rw [lower_lower h, capitalize_lower h]

theorem isAscii_titleWord (h : IsAscii word) : IsAscii (titleWord first word) := by
  rw [titleWord_eq]
  exact isAscii_append.mpr
    ⟨isAscii_titleSpelling (isAscii_withoutMarks h), isAscii_trailingMarks h⟩

theorem lower_titleWord (h : IsAscii word) : lower (titleWord first word) = lower word := by
  have hBody := isAscii_withoutMarks h
  have hMarks := isAscii_trailingMarks h
  rw [titleWord_eq, lower_append (isAscii_titleSpelling hBody) hMarks, lower_titleSpelling hBody,
    ← lower_append hBody hMarks, withoutMarks_append_trailingMarks]

theorem titleWord_lower (h : IsAscii word) :
    titleWord first (lower word) = titleWord first word := by
  rw [titleWord_eq, titleWord_eq, withoutMarks_lower h, trailingMarks_lower h,
    titleSpelling_lower (isAscii_withoutMarks h)]

end

/-! ## The words of a title -/

section

variable {cs : List Char} {pieces : List (List Char)} {t : String}

theorem isAscii_joinWith (h : ∀ piece ∈ pieces, IsAscii piece) :
    IsAscii (joinWith [' '] pieces) := by
  intro c hc
  rcases mem_joinWith hc with rfl | ⟨piece, hPiece, hc⟩
  · decide
  · exact h piece hPiece c hc

theorem map_lower_of_ascii (h : ∀ piece ∈ pieces, IsAscii piece) :
    pieces.map lower = pieces.map (List.map Char.toLower) :=
  List.map_congr_left fun piece hPiece => lower_of_ascii (h piece hPiece)

theorem lower_joinWith (h : ∀ piece ∈ pieces, IsAscii piece) :
    lower (joinWith [' '] pieces) = joinWith [' '] (pieces.map lower) := by
  rw [lower_of_ascii (isAscii_joinWith h), map_joinWith (by decide), map_lower_of_ascii h]

theorem isAscii_of_mem_words (h : IsAscii cs) : ∀ word ∈ words cs, IsAscii word :=
  fun _ hWord => h.of_subset (subset_of_mem_words hWord)

theorem words_lower (h : IsAscii cs) : words (lower cs) = (words cs).map lower := by
  rw [lower_of_ascii h, words_map fun c hc => isBlank_toLower (h c hc),
    map_lower_of_ascii (isAscii_of_mem_words h)]

theorem isAscii_of_mem_titleWords (h : ∀ piece ∈ pieces, IsAscii piece) :
    ∀ word ∈ titleWords pieces, IsAscii word := by
  cases pieces with
  | nil => exact h
  | cons piece rest =>
    obtain ⟨hPiece, hRest⟩ := List.forall_mem_cons.mp h
    refine List.forall_mem_cons.mpr ⟨isAscii_titleWord hPiece, fun word hWord => ?_⟩
    obtain ⟨other, hOther, rfl⟩ := List.mem_map.mp hWord
    exact isAscii_titleWord (hRest other hOther)

theorem map_lower_titleWords (h : ∀ piece ∈ pieces, IsAscii piece) :
    (titleWords pieces).map lower = pieces.map lower := by
  cases pieces with
  | nil => rfl
  | cons piece rest =>
    obtain ⟨hPiece, hRest⟩ := List.forall_mem_cons.mp h
    rw [titleWords, List.map_cons, List.map_cons, List.map_map, lower_titleWord hPiece]
    congr 1
    exact List.map_congr_left fun other hOther => lower_titleWord (hRest other hOther)

theorem titleWords_map_lower (h : ∀ piece ∈ pieces, IsAscii piece) :
    titleWords (pieces.map lower) = titleWords pieces := by
  cases pieces with
  | nil => rfl
  | cons piece rest =>
    obtain ⟨hPiece, hRest⟩ := List.forall_mem_cons.mp h
    rw [List.map_cons, titleWords, titleWords, List.map_map, titleWord_lower hPiece]
    congr 1
    exact List.map_congr_left fun other hOther => titleWord_lower (hRest other hOther)

/-! ## Titles -/

theorem toList_titleCase (t : String) :
    (titleCase t).toList = joinWith [' '] (titleWords (words t.toList)) :=
  String.toList_ofList

theorem isAscii_titleCase (h : IsAscii t.toList) : IsAscii (titleCase t).toList := by
  rw [toList_titleCase]
  exact isAscii_joinWith (isAscii_of_mem_titleWords (isAscii_of_mem_words h))

/-- A title has the words of its text. -/
theorem lower_titleCase (h : IsAscii t.toList) :
    lower (titleCase t).toList = joinWith [' '] (words (lower t.toList)) := by
  have hWords := isAscii_of_mem_words h
  rw [toList_titleCase, lower_joinWith (isAscii_of_mem_titleWords hWords),
    map_lower_titleWords hWords, words_lower h]

/-- The case of the letters makes no difference to a title. -/
theorem titleCase_lower (h : IsAscii t.toList) :
    titleCase (String.ofList (lower t.toList)) = titleCase t := by
  rw [titleCase, titleCase, String.toList_ofList, words_lower h,
    titleWords_map_lower (isAscii_of_mem_words h)]

/-- Neither does the space around the words. -/
theorem titleCase_joinWith_words (cs : List Char) :
    titleCase (String.ofList (joinWith [' '] (words cs))) = titleCase (String.ofList cs) := by
  have hWords : ∀ word ∈ words cs, IsWord word := fun _ hWord => isWord_of_mem_words hWord
  rw [titleCase, titleCase, String.toList_ofList, String.toList_ofList, words_joinWith hWords]

/-- **A title differs from its text in letter case and spacing only, and its title is itself.** In
lower case it consists of the words of the text in lower case, one space apart. -/
theorem titleCase_respells {t : String} (h : IsAscii t.toList) :
    lower (titleCase t).toList = joinWith [' '] (words (lower t.toList)) ∧
      titleCase (titleCase t) = titleCase t := by
  refine ⟨lower_titleCase h, ?_⟩
  calc
    titleCase (titleCase t) = titleCase (String.ofList (lower (titleCase t).toList)) :=
      (titleCase_lower (isAscii_titleCase h)).symm
    _ = titleCase (String.ofList (joinWith [' '] (words (lower t.toList)))) := by
      rw [lower_titleCase h]
    _ = titleCase (String.ofList (lower t.toList)) := titleCase_joinWith_words _
    _ = titleCase t := titleCase_lower h

/-- A sentence with a minor word in front, abbreviations in both cases, and punctuation. -/
theorem titleCase_respells_sentence :
    let t := "the  oAuth2 TOKENS of a user, by ID."
    titleCase t = "The OAuth2 Tokens of a User, by ID." ∧ IsAscii t.toList ∧
      lower (titleCase t).toList = joinWith [' '] (words (lower t.toList)) ∧
      titleCase (titleCase t) = titleCase t := by
  intro t
  have hAscii : IsAscii t.toList := by decide
  exact ⟨by decide, hAscii, titleCase_respells hAscii⟩

end

end IntegrationCompiler
