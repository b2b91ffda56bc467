import IntegrationCompiler.Text.Search
import Mathlib.Data.List.Infix

/-!
# Replacing several texts at once

Replacing one text after another also searches what was put in before. Replacing them all at once
does not.

Main definition: `Text.replaceEach`.

* `Text.replaceEach_append`, `Text.replaceEach_cons` — what becomes of the front of a text;
* `Text.replaceAll_eq_replaceEach` — one text alone is replaced in the same way;
* `Text.replaceAll_eq_self` — where a text does not occur, nothing changes.
-/

namespace IntegrationCompiler.Text

/-- The text with every occurrence of some needles replaced at once, from left to right. A new text
is not searched, and where several needles begin the first one listed counts; `skip` characters of
the text belong to an occurrence that is replaced already. -/
def replaceEachFrom (pairs : List (List Char × List Char)) : Nat → List Char → List Char
  | _, [] => []
  | skip + 1, _ :: rest => replaceEachFrom pairs skip rest
  | 0, c :: rest =>
    match pairs.find? fun pair => pair.1.isPrefixOf (c :: rest) with
    | some (needle, new) => new ++ replaceEachFrom pairs (needle.length - 1) rest
    | none => c :: replaceEachFrom pairs 0 rest

/-- The text with every occurrence of some needles, none of which is empty, replaced at once. -/
def replaceEach (pairs : List (List Char × List Char)) (cs : List Char) : List Char :=
  replaceEachFrom pairs 0 cs

section

variable {pairs : List (List Char × List Char)} {needle new rest : List Char}

theorem replaceEachFrom_eq (skip : Nat) (cs : List Char) :
    replaceEachFrom pairs skip cs = replaceEach pairs (cs.drop skip) := by
  induction skip generalizing cs with
  | zero => simp [replaceEach]
  | succ skip ih =>
    cases cs with
    | nil => simp [replaceEachFrom, replaceEach]
    | cons c rest => simp [replaceEachFrom, ih]

@[simp]
theorem replaceEach_nil : replaceEach pairs [] = [] := by
  simp [replaceEach, replaceEachFrom]

/-- A needle at the front is replaced. -/
theorem replaceEach_append (hNeedle : needle ≠ [])
    (hFind : (pairs.find? fun pair => pair.1.isPrefixOf (needle ++ rest)) = some (needle, new)) :
    replaceEach pairs (needle ++ rest) = new ++ replaceEach pairs rest := by
  cases needle with
  | nil => exact absurd rfl hNeedle
  | cons c needle =>
    rw [List.cons_append] at hFind ⊢
    rw [replaceEach, replaceEachFrom, hFind]
    dsimp only
    rw [replaceEachFrom_eq]
    simp

/-- Where no needle begins, the first character stays. -/
theorem replaceEach_cons {c : Char} (h : ∀ pair ∈ pairs, ¬ pair.1 <+: c :: rest) :
    replaceEach pairs (c :: rest) = c :: replaceEach pairs rest := by
  have hFind : (pairs.find? fun pair => pair.1.isPrefixOf (c :: rest)) = none := by
    simp only [List.find?_eq_none, List.isPrefixOf_iff_prefix]
    exact h
  rw [replaceEach, replaceEachFrom, hFind]
  simp [replaceEach]

end

/-- One needle alone is replaced in the same way. -/
theorem replaceAll_eq_replaceEach (needle new cs : List Char) :
    replaceAll needle new cs = replaceEach [(needle, new)] cs := by
  suffices h : ∀ skip, replaceFrom needle new skip cs = replaceEachFrom [(needle, new)] skip cs by
    exact h 0
  induction cs with
  | nil => simp [replaceFrom, replaceEachFrom]
  | cons c rest ih =>
    intro skip
    cases skip with
    | zero =>
      by_cases hHere : needle.isPrefixOf (c :: rest)
      · simp [replaceFrom, replaceEachFrom, hHere, ih]
      · simp [replaceFrom, replaceEachFrom, hHere, ih]
    | succ skip => simp [replaceFrom, replaceEachFrom, ih]

/-- Where a needle does not occur, nothing changes. -/
theorem replaceAll_eq_self {needle : List Char} (new : List Char) {cs : List Char}
    (h : ¬ needle <:+: cs) : replaceAll needle new cs = cs := by
  rw [replaceAll_eq_replaceEach]
  induction cs with
  | nil => simp
  | cons c rest ih =>
    have hHere : ¬ needle <+: c :: rest := fun hPrefix => h hPrefix.isInfix
    have hRest : ¬ needle <:+: rest := fun hInfix => h (List.infix_cons hInfix)
    rw [replaceEach_cons (by simpa using hHere), ih hRest]

end IntegrationCompiler.Text
