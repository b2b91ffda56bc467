import IntegrationCompiler.Proofs.Operation.Queries
import IntegrationCompiler.Proofs.Text.Cutting

/-!
# Descriptions

A description has a greatest length, to which it is cut. The description of a visible trigger is its
title as a sentence: blanks at its ends go, and a period is put where there is none. A title has to
start with certain words and a space; where nothing but blanks comes after them, the space goes too.

* `TitleGoesOn` — a title that says more than the words it has to start with;
* `length_truncate_le`, `truncate_ends`, `truncate_starts` — what a cut text keeps;
* `descriptions_tell_when` — the descriptions of the operations of a document.
-/

namespace IntegrationCompiler

open Logged

/-! ## Sentences and cut texts -/

theorem asSentence_ends (title : String) : (asSentence title).toList.getLast? = some '.' := by
  unfold asSentence
  dsimp only
  split
  · next hPeriod => exact eq_of_beq hPeriod
  · rw [String.toList_append]
    exact List.getLast?_concat

theorem length_truncate_le (s : String) : (truncate s).length ≤ maxDescriptionLength := by
  unfold truncate
  split
  · next hLong =>
    rw [String.length_append, String.length_ofList, List.length_take]
    have hDots : "...".length = 3 := rfl
    have hMax : maxDescriptionLength = 1000 := rfl
    omega
  · next hShort => exact Nat.not_lt.mp hShort

/-- The dots that stand for what is cut off end with a period as well. -/
theorem truncate_ends {s : String} (h : s.toList.getLast? = some '.') :
    (truncate s).toList.getLast? = some '.' := by
  unfold truncate
  split
  · rw [String.toList_append, List.getLast?_append]
    rfl
  · exact h

theorem truncate_starts {s : String} {start : List Char} (h : start <+: s.toList)
    (hShort : start.length ≤ maxDescriptionLength - 3) : start <+: (truncate s).toList := by
  unfold truncate
  split
  · rw [String.toList_append, String.toList_ofList]
    have hKept : start <+: s.toList.take (maxDescriptionLength - 3) :=
      List.prefix_take_iff.mpr ⟨h, hShort⟩
    exact hKept.trans (List.prefix_append _ _)
  · exact h

/-! ## The description of a visible trigger -/

/-- After the words that a title has to start with, something comes that is not blank. -/
def TitleGoesOn (title : String) : Prop :=
  ∃ said, title.toList = triggerTitlePrefix.toList ++ said ∧ ∃ c ∈ said, Text.isBlank c = false

/-- The words with which a title starts have no blanks before them. -/
theorem trimLeft_prefix (said : List Char) :
    Text.trimLeft (triggerTitlePrefix.toList ++ said) = triggerTitlePrefix.toList ++ said := rfl

theorem asSentence_starts {title : String} (h : TitleGoesOn title) :
    triggerTitlePrefix.toList <+: (asSentence title).toList := by
  obtain ⟨said, hTitle, hSaid⟩ := h
  have hTrimmed : (trimmed title).toList = triggerTitlePrefix.toList ++ Text.trimRight said := by
    rw [trimmed, String.toList_ofList, Text.trim, hTitle, trimLeft_prefix,
      Text.trimRight_append_of_not_blank hSaid]
  unfold asSentence
  dsimp only
  split
  · rw [hTrimmed]
    exact List.prefix_append _ _
  · rw [String.toList_append, hTrimmed, List.append_assoc]
    exact List.prefix_append _ _

/-- Where nothing comes after these words, the space at their end is cut off. -/
theorem asSentence_of_not_goesOn {title : String} {said : List Char}
    (hTitle : title.toList = triggerTitlePrefix.toList ++ said) (h : ¬ TitleGoesOn title) :
    asSentence title = "Triggers when." := by
  have hBlank : ∀ c ∈ said, Text.isBlank c = true := by
    intro c hc
    by_contra hNot
    exact h ⟨said, hTitle, c, hc, Bool.not_eq_true _ ▸ hNot⟩
  have hTrimmed : trimmed title = "Triggers when" := by
    rw [trimmed, Text.trim, hTitle, trimLeft_prefix, Text.trimRight_append_of_blank hBlank]
    decide
  rw [asSentence, hTrimmed]
  decide

/-- What the description of a trigger is when there is one. -/
theorem triggerDescription_ok {key : String} {c : TriggerConfig} {description : String}
    (h : triggerDescription key c = .ok description) : ∃ title said, c.title = some title ∧
      title.toList = triggerTitlePrefix.toList ++ said ∧ description = truncate (asSentence title) := by
  unfold triggerDescription at h
  dsimp only at h
  split at h
  · cases h
  · next hPresent =>
    split at h
    · next hStarts =>
      have hText := (Except.ok.inj h).symm
      obtain ⟨said, hSaid⟩ := List.isPrefixOf_iff_prefix.mp hStarts
      cases hTitle : c.title with
      | none =>
        rw [hTitle] at hPresent
        exact absurd rfl hPresent
      | some title =>
        rw [hTitle] at hSaid hText
        exact ⟨title, said, rfl, hSaid.symm, hText⟩
    · cases h

/-! ## The descriptions of operations -/

theorem Action.ofEndpoint_description {s : Surroundings} {e : Endpoint} {key : String} {a : Action}
    (h : (Action.ofEndpoint s e key).Returns a) : ∃ text, a.head.description = truncate text := by
  unfold ofEndpoint at h
  dsimp only at h
  obtain ⟨fields, -, h⟩ := returns_bind h
  obtain ⟨request, -, h⟩ := returns_bind h
  obtain ⟨response, -, h⟩ := returns_bind h
  -- an action without content differs in its samples only
  split at h
  all_goals
    obtain ⟨raw, -, h⟩ := returns_bind h
    obtain ⟨d, -, h⟩ := returns_bind h
    obtain ⟨sample, -, h⟩ := returns_bind h
    cases returns_pure h
    exact ⟨_, rfl⟩

theorem Trigger.ofEndpoint_description {s : Surroundings} {e : Endpoint} {key : String}
    {c : TriggerConfig} {t : Trigger} (h : (Trigger.ofEndpoint s e key c).Returns t) :
    c.describe key = .ok t.head.description ∧ t.hidden = c.hidden := by
  unfold ofEndpoint at h
  dsimp only at h
  obtain ⟨description, hDescription, h⟩ := returns_bind h
  obtain ⟨own, -, h⟩ := returns_bind h
  obtain ⟨request, -, h⟩ := returns_bind h
  obtain ⟨extraction, -, h⟩ := returns_bind h
  obtain ⟨pagination, -, h⟩ := returns_bind h
  obtain ⟨raw, -, h⟩ := returns_bind h
  obtain ⟨sample, -, h⟩ := returns_bind h
  cases returns_pure h
  exact ⟨returns_liftExcept hDescription, rfl⟩

/-- Hidden or not, a trigger has a description of the length that it may have. -/
theorem length_describe_le {c : TriggerConfig} {key description : String}
    (h : c.describe key = .ok description) : description.length ≤ maxDescriptionLength := by
  unfold TriggerConfig.describe at h
  split at h
  · cases h
    decide
  · obtain ⟨title, said, -, -, hText⟩ := triggerDescription_ok h
    exact hText ▸ length_truncate_le _

/-- **Descriptions have at most 1000 characters, and those of visible triggers are sentences.** A
visible trigger has a title in the configuration that starts with the words and the space that it has
to start with. However long the title is, and whatever stands at its end, the description ends with a
period. It starts with those words and the space exactly if something follows them in the title that
is not blank, and otherwise it is the words with the period after them. -/
theorem descriptions_tell_when {document : ApiDocument} {config : GeneratorConfig}
    {onlyPath : Option String} {operations : List Operation}
    (h : (compile document config onlyPath).run.1 = .ok operations) :
    (∀ o ∈ operations, o.head.description.length ≤ 1000) ∧
    ∀ t, .trigger t ∈ operations → t.hidden = false →
      ∃ c title, (t.head.key, c) ∈ config.triggers ∧ c.title = some title ∧
        "Triggers when ".toList <+: title.toList ∧
        t.head.description.toList.getLast? = some '.' ∧
        ("Triggers when ".toList <+: t.head.description.toList ↔ TitleGoesOn title) ∧
        (¬ TitleGoesOn title → t.head.description = "Triggers when.") := by
  obtain ⟨hidden, selected, hCompiles⟩ := compile_returns (returns_of_run h)
  constructor
  · refine hCompiles.forall_operations (fun e a _ ha => ?_) fun hidden e key c t _ ht => ?_
    · obtain ⟨text, hText⟩ := Action.ofEndpoint_description ha
      exact hText ▸ length_truncate_le text
    · exact length_describe_le (Trigger.ofEndpoint_description ht).1
  · intro t ht hVisible
    obtain ⟨hidden', e, c, -, hConfigured, -, hBuilt⟩ := hCompiles.of_trigger_mem ht
    obtain ⟨hDescribe, hFlag⟩ := Trigger.ofEndpoint_description hBuilt
    rw [TriggerConfig.describe, ← hFlag, hVisible, if_neg Bool.false_ne_true] at hDescribe
    obtain ⟨title, said, hTitle, hSaid, hDescription⟩ := triggerDescription_ok hDescribe
    have hBare : ¬ TitleGoesOn title → t.head.description = "Triggers when." := by
      intro hNot
      rw [hDescription, asSentence_of_not_goesOn hSaid hNot]
      decide
    refine ⟨c, title, hConfigured, hTitle, hSaid ▸ List.prefix_append _ _, ?_, ⟨?_, ?_⟩, hBare⟩
    · rw [hDescription]
      exact truncate_ends (asSentence_ends title)
    · intro hStarts
      by_contra hNot
      rw [hBare hNot] at hStarts
      exact absurd hStarts (by decide)
    · intro hGoesOn
      rw [hDescription]
      exact truncate_starts (asSentence_starts hGoesOn) (by decide)

/-- The reports of a project. -/
def reportList : ApiDocument where
  endpoints := [{ path := "/reports", method := .get, operationId := some "list_reports" }]

/-- Reports are polled under a title. -/
def reportsTitled (title : String) : GeneratorConfig where
  triggers := [("new_report", { endpoint := "/reports", title := some title })]

/-- Blanks at the end of a title make room for the period. -/
theorem descriptions_tell_when_newReport : ∃ operations t,
    (compile reportList (reportsTitled "Triggers when a report is opened \t") none).run.1 =
      .ok operations ∧
    .trigger t ∈ operations ∧ t.hidden = false ∧
    "Triggers when ".toList <+: t.head.description.toList ∧
    t.head.description.toList.getLast? = some '.' ∧
    ∀ o ∈ operations, o.head.description.length ≤ 1000 := by
  obtain ⟨operations, t, h, ht, hVisible⟩ : ∃ operations t,
      (compile reportList (reportsTitled "Triggers when a report is opened \t") none).run.1 =
        .ok operations ∧ .trigger t ∈ operations ∧ t.hidden = false :=
    ⟨_, _, by with_unfolding_all rfl, List.mem_cons_of_mem _ List.mem_cons_self,
      by with_unfolding_all rfl⟩
  obtain ⟨hLength, hTriggers⟩ := descriptions_tell_when h
  obtain ⟨c, title, hConfigured, hTitle, -, hEnds, hStarts, -⟩ := hTriggers t ht hVisible
  cases congrArg Prod.snd (List.mem_singleton.mp hConfigured)
  cases hTitle
  refine ⟨operations, t, h, ht, hVisible, hStarts.mpr ?_, hEnds, hLength⟩
  exact ⟨"a report is opened \t".toList, by decide, 'a', by decide, by decide⟩

/-- A title that says nothing after the words it has to start with is accepted, and its description
does not start with the space that is asked of the title. -/
theorem description_says_nothing : ∃ operations t,
    (compile reportList (reportsTitled "Triggers when ") none).run.1 = .ok operations ∧
    .trigger t ∈ operations ∧ t.hidden = false ∧ t.head.description = "Triggers when." ∧
    ¬ "Triggers when ".toList <+: t.head.description.toList :=
  ⟨_, _, by with_unfolding_all rfl, List.mem_cons_of_mem _ List.mem_cons_self,
    by with_unfolding_all rfl, by with_unfolding_all rfl, by with_unfolding_all decide⟩

end IntegrationCompiler
