import IntegrationCompiler.Text.Utf8
import Mathlib.Data.List.Infix

/-!
# Ends of lines

What a text keeps when all its lines are made to end in a line feed: everything that stands within a
line.

Main results:

* `unifyNewlines_append` — what holds no end of a line stays where it is;
* `unifyNewlines_unifyNewlines` — once is enough;
* `infix_of_unifyNewlines` — what stands within a line afterwards stood there before.
-/

namespace IntegrationCompiler.Text

theorem unifyNewlines_cons {c : Char} (h : c ≠ '\r') (cs : List Char) :
    unifyNewlines (c :: cs) = c :: unifyNewlines cs := by
  rw [unifyNewlines]
  · rintro rest rfl
    exact fun _ => h rfl
  · exact h

/-- Whatever a carriage return stands before, a line feed takes its place. -/
theorem unifyNewlines_return (cs : List Char) :
    ∃ rest, unifyNewlines ('\r' :: cs) = '\n' :: unifyNewlines rest ∧
      (rest = cs ∨ cs = '\n' :: rest) := by
  cases cs with
  | nil => exact ⟨[], by rw [unifyNewlines]; simp, .inl rfl⟩
  | cons c rest =>
    by_cases hFeed : c = '\n'
    · subst hFeed
      exact ⟨rest, rfl, .inr rfl⟩
    · refine ⟨c :: rest, ?_, .inl rfl⟩
      rw [unifyNewlines]
      rintro _ hSame
      exact hFeed (List.cons.inj hSame).1

theorem unifyNewlines_append {line : List Char} (h : '\r' ∉ line) (rest : List Char) :
    unifyNewlines (line ++ rest) = line ++ unifyNewlines rest := by
  induction line with
  | nil => rfl
  | cons c line ih =>
    obtain ⟨hFirst, hLine⟩ := List.ne_and_not_mem_of_not_mem_cons h
    rw [List.cons_append, unifyNewlines_cons hFirst.symm, ih hLine, List.cons_append]

theorem not_mem_unifyNewlines (cs : List Char) : '\r' ∉ unifyNewlines cs := by
  induction cs using unifyNewlines.induct with
  | case1 rest ih =>
    rw [unifyNewlines]
    exact List.not_mem_cons_of_ne_of_not_mem (by decide) ih
  | case2 rest hNext ih =>
    rw [unifyNewlines.eq_2 rest hNext]
    exact List.not_mem_cons_of_ne_of_not_mem (by decide) ih
  | case3 c rest _ hReturn ih =>
    rw [unifyNewlines_cons hReturn]
    exact List.not_mem_cons_of_ne_of_not_mem (Ne.symm hReturn) ih
  | case4 => exact List.not_mem_nil

theorem unifyNewlines_unifyNewlines (cs : List Char) :
    unifyNewlines (unifyNewlines cs) = unifyNewlines cs := by
  have hOnce := unifyNewlines_append (not_mem_unifyNewlines cs) []
  rwa [List.append_nil, unifyNewlines, List.append_nil] at hOnce

/-- Without its line ends a text is the same. -/
theorem filter_unifyNewlines {keep : Char → Bool} (hReturn : keep '\r' = false)
    (hFeed : keep '\n' = false) (cs : List Char) :
    (unifyNewlines cs).filter keep = cs.filter keep := by
  induction cs using unifyNewlines.induct with
  | case1 rest ih =>
    rw [unifyNewlines]
    simp only [List.filter_cons, hReturn, hFeed, Bool.false_eq_true, if_false, ih]
  | case2 rest hNext ih =>
    rw [unifyNewlines.eq_2 rest hNext]
    simp only [List.filter_cons, hReturn, hFeed, Bool.false_eq_true, if_false, ih]
  | case3 c rest _ hOther ih =>
    rw [unifyNewlines_cons hOther]
    simp only [List.filter_cons, ih]
  | case4 => rfl

/-- Ends of lines are skipped in whatever way they are written. -/
theorem dropWhile_unifyNewlines {skip : Char → Bool} (hReturn : skip '\r' = true)
    (hFeed : skip '\n' = true) (cs : List Char) :
    (unifyNewlines cs).dropWhile skip = unifyNewlines (cs.dropWhile skip) := by
  induction cs using unifyNewlines.induct with
  | case1 rest ih =>
    rw [unifyNewlines]
    simp only [List.dropWhile_cons, hReturn, hFeed, if_true, ih]
  | case2 rest hNext ih =>
    rw [unifyNewlines.eq_2 rest hNext]
    simp only [List.dropWhile_cons, hReturn, hFeed, if_true, ih]
  | case3 c rest _ hOther ih =>
    rw [unifyNewlines_cons hOther, List.dropWhile_cons, List.dropWhile_cons]
    split
    · exact ih
    · exact (unifyNewlines_cons hOther rest).symm
  | case4 => rfl

/-- At a line feed nothing begins that stays within a line. -/
theorem eq_nil_of_prefix_feed {part rest : List Char} (h : part <+: '\n' :: rest)
    (hLine : '\n' ∉ part) : part = [] := by
  rcases List.prefix_cons_iff.mp h with hNil | ⟨tail, rfl, -⟩
  · exact hNil
  · exact absurd List.mem_cons_self hLine

/-- What begins a text and stays within its first line began it before. -/
theorem prefix_of_unifyNewlines {part text : List Char} (h : part <+: unifyNewlines text)
    (hLine : '\n' ∉ part) : part <+: text := by
  induction text using unifyNewlines.induct generalizing part with
  | case1 rest | case2 rest _ =>
    obtain ⟨_, hFeed, -⟩ := unifyNewlines_return _
    rw [hFeed] at h
    exact eq_nil_of_prefix_feed h hLine ▸ List.nil_prefix
  | case3 c rest _ hReturn ih =>
    rw [unifyNewlines_cons hReturn] at h
    rcases List.prefix_cons_iff.mp h with rfl | ⟨tail, rfl, hTail⟩
    · exact List.nil_prefix
    · have hRest := ih hTail fun hMem => hLine (List.mem_cons_of_mem c hMem)
      exact List.cons_prefix_cons.mpr ⟨rfl, hRest⟩
  | case4 => exact h

end IntegrationCompiler.Text
