import IntegrationCompiler.Text.Blank
import Mathlib.Data.List.TakeWhile

/-!
# Cutting texts

What is cut off a text at its ends, and the pieces and words that a text is cut into. Pieces that
were joined are found again.

* `trimRight_append_of_blank`, `trimRight_append_of_not_blank`, `suffix_trim` — what is cut off a
  text that is put together from two parts;
* `splitAt_append`, `splitAt_intercalate` — cutting at every separator;
* `IsWord`, `isWord_of_mem_words` — words have characters, and no blanks;
* `words_map` — a change of characters under which blanks stay blank changes each word;
* `words_joinWith` — words that were joined by spaces.
-/

namespace IntegrationCompiler.Text

/-! ## Blanks at the ends -/

section

variable {xs ys : List Char}

theorem trimRight_append_of_blank (h : ∀ c ∈ ys, isBlank c = true) :
    trimRight (xs ++ ys) = trimRight xs := by
  have hGone : ys.reverse.dropWhile isBlank = [] :=
    List.dropWhile_eq_nil_iff.mpr fun c hc => h c (List.mem_reverse.mp hc)
  rw [trimRight, List.reverse_append, List.dropWhile_append, hGone]
  rfl

/-- What stands before a character that is not blank is not at the end. -/
theorem trimRight_append_of_not_blank (h : ∃ c ∈ ys, isBlank c = false) :
    trimRight (xs ++ ys) = xs ++ trimRight ys := by
  obtain ⟨c, hc, hBlank⟩ := h
  have hStays : (ys.reverse.dropWhile isBlank).isEmpty = false := by
    rw [List.isEmpty_eq_false_iff, ne_eq, List.dropWhile_eq_nil_iff]
    intro hAll
    rw [hAll c (List.mem_reverse.mpr hc)] at hBlank
    cases hBlank
  rw [trimRight, List.reverse_append, List.dropWhile_append, hStays, if_neg Bool.false_ne_true,
    List.reverse_append, List.reverse_reverse, trimRight]

theorem suffix_trim (hStays : trim ys = ys) (h : ∃ c ∈ ys.head?, isBlank c = false) :
    ys <:+ trim (xs ++ ys) := by
  obtain ⟨first, hFirst, hBlank⟩ := h
  cases ys with
  | nil => cases hFirst
  | cons c rest =>
    cases hFirst
    have hLeft (zs : List Char) : trimLeft (zs ++ first :: rest) = trimLeft zs ++ first :: rest := by
      rw [trimLeft, List.dropWhile_append, List.dropWhile_cons_of_neg (Bool.eq_false_iff.mp hBlank)]
      split
      · next hNil => rw [trimLeft, List.isEmpty_iff.mp hNil, List.nil_append]
      · rfl
    have hRight : trimRight (first :: rest) = first :: rest := by
      rw [trim] at hStays
      rwa [show trimLeft (first :: rest) = first :: rest from hLeft []] at hStays
    rw [trim, hLeft, trimRight_append_of_not_blank ⟨first, List.mem_cons_self, hBlank⟩, hRight]
    exact List.suffix_append _ _

end

/-! ## Pieces -/

section

variable {sep : Char} {cs : List Char}

theorem splitAt_of_not_mem (h : sep ∉ cs) : splitAt sep cs = [cs] := by
  induction cs with
  | nil => rfl
  | cons c rest ih =>
    obtain ⟨hNe, hRest⟩ := not_or.mp fun hMem => h (List.mem_cons.mpr hMem)
    rw [splitAt, if_neg (Ne.symm hNe), ih hRest]

theorem splitAt_append (front : List Char) :
    splitAt sep (front ++ sep :: cs) = splitAt sep front ++ splitAt sep cs := by
  induction front with
  | nil =>
    show splitAt sep (sep :: cs) = [] :: splitAt sep cs
    rw [splitAt, if_pos rfl]
  | cons c rest ih =>
    rw [List.cons_append, splitAt, splitAt, ih]
    split
    · rfl
    · cases hPieces : splitAt sep rest with
      | nil => exact absurd hPieces (splitAt_ne_nil sep rest)
      | cons piece pieces => rfl

/-- Pieces that were joined are found again. There has to be one, since a text without separators is
one piece. -/
theorem splitAt_intercalate {pieces : List (List Char)} (hSome : pieces ≠ [])
    (h : ∀ piece ∈ pieces, sep ∉ piece) : splitAt sep ([sep].intercalate pieces) = pieces := by
  induction pieces with
  | nil => exact absurd rfl hSome
  | cons piece rest ih =>
    obtain ⟨hFirst, hRest⟩ := List.forall_mem_cons.mp h
    cases rest with
    | nil => rw [List.intercalate_singleton, splitAt_of_not_mem hFirst]
    | cons next others =>
      rw [List.intercalate_cons_cons, List.append_assoc, List.singleton_append, splitAt_append,
        splitAt_of_not_mem hFirst, ih (List.cons_ne_nil next others) hRest, List.singleton_append]

end

/-! ## Words -/

/-- A word is not empty, and has no blanks in it. -/
structure IsWord (word : List Char) : Prop where
  ne_nil : word ≠ []
  unbroken : ∀ c ∈ word, isBlank c = false

section

variable {keep : Char → Bool} {run cs word : List Char}

/-- A run goes on through characters that are kept. -/
theorem runsFrom_append (hWord : ∀ c ∈ word, keep c = true) (rest : List Char) :
    runsFrom keep run (word ++ rest) = runsFrom keep (word.reverse ++ run) rest := by
  induction word generalizing run with
  | nil => rfl
  | cons c word ih =>
    have hc : keep c = true := hWord c List.mem_cons_self
    have hRest : ∀ d ∈ word, keep d = true := fun d hd => hWord d (List.mem_cons_of_mem _ hd)
    rw [List.cons_append, runsFrom, if_pos hc, ih hRest]
    simp

/-- A run is what has been read of it, and is not empty; its characters are kept. -/
theorem of_mem_runsFrom (hRun : ∀ c ∈ run, keep c = true) (h : word ∈ runsFrom keep run cs) :
    word ≠ [] ∧ (∀ c ∈ word, keep c = true) ∧ word ⊆ run ++ cs := by
  induction cs generalizing run with
  | nil =>
    rw [runsFrom] at h
    split at h
    · cases h
    · next hSome =>
      rw [List.mem_singleton] at h
      subst h
      refine ⟨by simpa using hSome, fun c hc => hRun c (List.mem_reverse.mp hc), ?_⟩
      intro c hc
      simpa using hc
  | cons c rest ih =>
    rw [runsFrom] at h
    split at h
    · next hKeep =>
      obtain ⟨hSome, hAll, hSubset⟩ := ih (List.forall_mem_cons.mpr ⟨hKeep, hRun⟩) h
      refine ⟨hSome, hAll, fun d hd => ?_⟩
      have hMem := hSubset hd
      rw [List.mem_append, List.mem_cons] at hMem ⊢
      exact or_left_comm.mp (or_assoc.mp hMem)
    · -- the run ends here, and what follows starts another one
      have hLater (hMem : word ∈ runsFrom keep [] rest) :
          word ≠ [] ∧ (∀ c ∈ word, keep c = true) ∧ word ⊆ run ++ c :: rest := by
        obtain ⟨hSome, hAll, hSubset⟩ := ih (by simp) hMem
        refine ⟨hSome, hAll, fun d hd => ?_⟩
        exact List.mem_append_right _ (List.mem_cons_of_mem _ (hSubset hd))
      split at h
      · exact hLater h
      · next hSome =>
        rcases List.mem_cons.mp h with rfl | h
        · refine ⟨by simpa using hSome, fun d hd => hRun d (List.mem_reverse.mp hd), ?_⟩
          intro d hd
          exact List.mem_append_left _ (List.mem_reverse.mp hd)
        · exact hLater h

/-- A change of characters that keeps those that are kept changes each run. -/
theorem runsFrom_map {f : Char → Char} (h : ∀ c ∈ cs, keep (f c) = keep c) :
    runsFrom keep (run.map f) (cs.map f) = (runsFrom keep run cs).map (List.map f) := by
  induction cs generalizing run with
  | nil => cases run <;> simp [runsFrom]
  | cons c rest ih =>
    have hc : keep (f c) = keep c := h c List.mem_cons_self
    have hRest : ∀ d ∈ rest, keep (f d) = keep d := fun d hd => h d (List.mem_cons_of_mem _ hd)
    have hLater : runsFrom keep [] (rest.map f) = (runsFrom keep [] rest).map (List.map f) :=
      @ih [] hRest
    rw [List.map_cons, runsFrom, runsFrom, hc, List.isEmpty_map]
    split
    · exact @ih (c :: run) hRest
    · split
      · exact hLater
      · rw [hLater, List.map_cons, List.map_reverse]

end

section

variable {cs word : List Char} {pieces : List (List Char)}

theorem isWord_of_mem_words (h : word ∈ words cs) : IsWord word := by
  obtain ⟨hSome, hAll, -⟩ := of_mem_runsFrom (by simp) h
  exact ⟨hSome, fun c hc => by simpa using hAll c hc⟩

theorem subset_of_mem_words (h : word ∈ words cs) : word ⊆ cs :=
  (of_mem_runsFrom (by simp) h).2.2

/-- A change of characters under which blanks stay blank, and nothing else becomes one, changes each
word. -/
theorem words_map {f : Char → Char} (h : ∀ c ∈ cs, isBlank (f c) = isBlank c) :
    words (cs.map f) = (words cs).map (List.map f) := by
  have hKeep : ∀ c ∈ cs, (!isBlank (f c)) = !isBlank c := fun c hc => congrArg not (h c hc)
  exact @runsFrom_map (fun c => !isBlank c) [] cs f hKeep

/-- A word at the front, with a space behind it. -/
theorem words_append_space (hWord : IsWord word) :
    words (word ++ ' ' :: cs) = word :: words cs := by
  have hKeep : ∀ c ∈ word, (!isBlank c) = true := fun c hc => by simp [hWord.unbroken c hc]
  have hSpace : (!isBlank ' ') = false := by decide
  have hSome : word.reverse.isEmpty = false := by simp [hWord.ne_nil]
  rw [words, runsFrom_append hKeep, List.append_nil, runsFrom, hSpace, if_neg Bool.false_ne_true,
    hSome, if_neg Bool.false_ne_true, List.reverse_reverse, words]

theorem words_of_isWord (hWord : IsWord word) : words word = [word] := by
  have hKeep : ∀ c ∈ word, (!isBlank c) = true := fun c hc => by simp [hWord.unbroken c hc]
  have hRun := @runsFrom_append _ [] word hKeep []
  have hSome : word.reverse.isEmpty = false := by simp [hWord.ne_nil]
  rw [List.append_nil, List.append_nil] at hRun
  rw [words, hRun, runsFrom, hSome, if_neg Bool.false_ne_true, List.reverse_reverse]

/-- **Joined words are found again.** -/
theorem words_joinWith (h : ∀ word ∈ pieces, IsWord word) :
    words (joinWith [' '] pieces) = pieces := by
  induction pieces with
  | nil => rfl
  | cons word rest ih =>
    obtain ⟨hWord, hRest⟩ := List.forall_mem_cons.mp h
    cases rest with
    | nil => exact words_of_isWord hWord
    | cons next others =>
      rw [joinWith, List.append_assoc, List.singleton_append, words_append_space hWord, ih hRest]
      exact List.cons_ne_nil next others

/-- A change of characters that leaves spaces alone goes into each piece. -/
theorem map_joinWith {f : Char → Char} (hSpace : f ' ' = ' ') (pieces : List (List Char)) :
    (joinWith [' '] pieces).map f = joinWith [' '] (pieces.map (List.map f)) := by
  induction pieces with
  | nil => rfl
  | cons piece rest ih =>
    cases rest with
    | nil => rfl
    | cons next others =>
      rw [joinWith, List.map_append, List.map_append, ih, List.map_singleton, hSpace]
      · rfl
      · exact List.cons_ne_nil next others

/-- The characters of joined pieces. -/
theorem mem_joinWith {c : Char} (h : c ∈ joinWith [' '] pieces) :
    c = ' ' ∨ ∃ piece ∈ pieces, c ∈ piece := by
  induction pieces with
  | nil => cases h
  | cons piece rest ih =>
    cases rest with
    | nil => exact .inr ⟨piece, List.mem_cons_self, h⟩
    | cons next others =>
      rw [joinWith, List.append_assoc, List.mem_append, List.singleton_append, List.mem_cons] at h
      · rcases h with h | rfl | h
        · exact .inr ⟨piece, List.mem_cons_self, h⟩
        · exact .inl rfl
        · exact (ih h).imp_right fun ⟨other, hMem, hc⟩ => ⟨other, List.mem_cons_of_mem _ hMem, hc⟩
      · exact List.cons_ne_nil next others

end

end IntegrationCompiler.Text
