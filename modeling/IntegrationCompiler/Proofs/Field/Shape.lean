import IntegrationCompiler.Proofs.Diagnostics.Fails
import IntegrationCompiler.Proofs.Field.OfSchema
import IntegrationCompiler.Proofs.Field.Tree

/-!
# The rule of shapes

A field has either a type or children, and a default only if it holds text.

* `Field.WellShaped` — the rule; `Field.checked_of_wellShaped` — what the check says of it;
* `Field.WellShaped.withDefault`, `Field.WellShaped.withChild`, … — changes that keep the rule;
* `Field.read_record` — a field that is made from the parts of a schema keeps the rule, and only its
  help text can be refused;
* `Field.error_of_ofSchema` — so the rule is never what a schema breaks.
-/

namespace IntegrationCompiler

namespace Field

/-! ## The rule -/

/-- The rule of shapes: a field has a type if and only if it has no children, and a default only if
it holds text. -/
structure WellShaped (f : Field) : Prop where
  kind : f.type.isSome = f.children.isEmpty
  default_text : f.default.isSome → f.type = some .string

theorem shapeFault?_eq_none {f : Field} : f.shapeFault? = none ↔ f.WellShaped := by
  unfold shapeFault?
  constructor
  · intro h
    split at h
    · cases h
    · split at h
      · cases h
      · split at h
        · cases h
        · next hGroup hEmpty hDefault =>
          refine ⟨?_, fun hSome => ?_⟩
          · cases hType : f.type <;> cases hChildren : f.children <;> simp_all
          · simpa [hSome] using hDefault
  · rintro ⟨hKind, hDefault⟩
    cases hType : f.type with
    | none =>
      have hSome : f.children.isEmpty = false := by rw [← hKind, hType]; rfl
      have hNone : f.default.isSome = false := by
        rw [Bool.eq_false_iff]
        exact fun h => nomatch (hDefault h).symm.trans hType
      simp [hSome, hNone]
    | some type =>
      have hEmpty : f.children.isEmpty = true := by rw [← hKind, hType]; rfl
      have hText : f.default.isSome = true → type = .string := fun h =>
        Option.some.inj (hType.symm.trans (hDefault h))
      simpa [hEmpty] using hText

instance (f : Field) : Decidable f.WellShaped :=
  decidable_of_iff _ shapeFault?_eq_none

theorem checked_of_wellShaped {f : Field} (h : f.WellShaped) : f.checked = .ok f := by
  rw [checked, shapeFault?_eq_none.mpr h]

theorem wellShaped_of_checked {f g : Field} (h : f.checked = .ok g) : g.WellShaped := by
  cases checked_eq_ok h
  unfold checked at h
  split at h
  · cases h
  · next hNone => exact shapeFault?_eq_none.mp hNone

/-! ## Changes that keep the rule -/

/-- The rule asks only whether there are children. -/
theorem keptByChildren_wellShaped : KeptByChildren WellShaped :=
  fun _ _ hEmpty hf => ⟨hf.kind.trans hEmpty.symm, hf.default_text⟩

namespace WellShaped

variable {f : Field}

/-- Only a field without children holds text. -/
theorem children_eq (h : f.WellShaped) {type : FieldType} (hType : f.type = some type) :
    f.children = [] := by
  have hKind := h.kind
  rw [hType, Option.isSome_some] at hKind
  exact List.isEmpty_iff.mp hKind.symm

theorem withDefault (h : f.WellShaped) (hText : f.type = some .string) (default : Option String) :
    WellShaped { f with default := default } :=
  ⟨h.kind, fun _ => hText⟩

theorem withDynamic (h : f.WellShaped) (dynamic : Option Binding) :
    WellShaped { f with dynamic := dynamic } :=
  ⟨h.kind, h.default_text⟩

/-- A group may get one more child. -/
theorem withChild (h : f.WellShaped) (hGroup : f.children ≠ []) (child : Field) :
    WellShaped { f with children := f.children ++ [child] } := by
  refine keptByChildren_wellShaped f _ ?_ h
  cases hChildren : f.children with
  | nil => exact absurd hChildren hGroup
  | cons c rest => rfl

end WellShaped

/-- A group around some fields. -/
theorem wellShaped_group {key label : String} {children : List Field} (h : children ≠ []) :
    WellShaped { key := key, label := label, required := true, children := children } where
  kind := (Bool.eq_false_iff.mpr fun hEmpty => h (List.isEmpty_iff.mp hEmpty)).symm
  default_text := nofun

/-! ## Fields from schemas -/

theorem read_object (fields : List (String × Value)) :
    ∃ readChild, Field.read (.object fields) = readWith readChild (.object fields) := by
  rw [read, Value.object, Value.depth, readTo]
  exact ⟨_, rfl⟩

/-- The field that holds a value, has the given parts and nothing else. -/
def ofParts (key : String) (type : FieldType) (required : Bool) (choices : Option (List String))
    (default placeholder help : Option String) : Field where
  key := key
  label := formatLabel key
  type := some type
  helpText := help
  required := required
  choices := choices
  default := default
  placeholder := placeholder

section

variable {key : String} {type : FieldType} {help : Value} {required : Bool}

/-- Of the parts of a plain field only the help text can be refused. -/
theorem read_plainRecord : Field.read (.object [
      ("key", .str key), ("label", .str (formatLabel key)), ("type", .str type.name),
      ("help_text", help), ("required", .bool required)]) =
    ofParts key type required none none none <$>
      (Value.asOptional Value.asText help).under (.key "help_text") := by
  obtain ⟨readChild, hRead⟩ := read_object [
    ("key", .str key), ("label", .str (formatLabel key)), ("type", .str type.name),
    ("help_text", help), ("required", .bool required)]
  have hParts (text : Checked (Option String)) :
      (Field.mk <$> .ok key <*> .ok (formatLabel key) <*> .ok (some type) <*> .ok [] <*> text
        <*> .ok required <*> .ok none <*> .ok none <*> .ok none <*> .ok none).andThen checked =
      ofParts key type required none none none <$> text := by
    cases text <;> rfl
  rw [hRead, ← hParts]
  cases type <;> rfl

/-- The same where choices, a default and a placeholder are there too. -/
theorem read_record {choices default placeholder : Value} {choices' : Option (List String)}
    {default' placeholder' : Option String}
    (hChoices : Value.asOptional (Value.asList Value.asText) choices = .ok choices')
    (hDefault : Value.asOptional Value.asText default = .ok default')
    (hPlaceholder : Value.asOptional Value.asText placeholder = .ok placeholder')
    (hText : default'.isSome → type = .string) :
    Field.read (.object ([
      ("key", .str key), ("label", .str (formatLabel key)), ("type", .str type.name),
      ("help_text", help), ("required", .bool required)] ++ [
      ("choices", choices), ("default", default), ("placeholder", placeholder)])) =
    ofParts key type required choices' default' placeholder' <$>
      (Value.asOptional Value.asText help).under (.key "help_text") := by
  obtain ⟨readChild, hRead⟩ := read_object ([
    ("key", .str key), ("label", .str (formatLabel key)), ("type", .str type.name),
    ("help_text", help), ("required", .bool required)] ++ [
    ("choices", choices), ("default", default), ("placeholder", placeholder)])
  have hShape (text : Option String) :
      (ofParts key type required choices' default' placeholder' text).WellShaped :=
    ⟨rfl, fun hSome => congrArg some (hText hSome)⟩
  have hParts (text : Checked (Option String)) :
      (Field.mk <$> .ok key <*> .ok (formatLabel key) <*> .ok (some type) <*> .ok [] <*> text
        <*> .ok required
        <*> (Value.asOptional (Value.asList Value.asText) choices).under (.key "choices")
        <*> (Value.asOptional Value.asText default).under (.key "default")
        <*> (Value.asOptional Value.asText placeholder).under (.key "placeholder")
        <*> .ok none).andThen checked =
      ofParts key type required choices' default' placeholder' <$> text := by
    rw [hChoices, hDefault, hPlaceholder]
    cases text with
    | ok text => exact checked_of_wellShaped (hShape text)
    | bad issues => rfl
  rw [hRead, ← hParts]
  cases type <;> rfl

end

theorem checkItems_texts (ss : List String) (i : Nat) :
    Value.checkItems Value.asText i (ss.map .str) = .ok ss := by
  induction ss generalizing i with
  | nil => rfl
  | cons s rest ih =>
    rw [List.map_cons, Value.checkItems, ih]
    rfl

theorem asOptional_texts (ss : List String) :
    Value.asOptional (Value.asList Value.asText) (.list (ss.map .str)) = .ok (some ss) := by
  have hItems : Value.asList Value.asText (.list (ss.map .str)) = .ok ss := checkItems_texts ss 0
  have hSome : Value.asOptional (Value.asList Value.asText) (.list (ss.map .str)) =
      some <$> Value.asList Value.asText (.list (ss.map .str)) := rfl
  rw [hSome, hItems]
  rfl

theorem choicesOf_ok {schema choices : Value} (h : choicesOf schema = .ok choices) :
    ∃ texts, Value.asOptional (Value.asList Value.asText) choices = .ok texts := by
  unfold choicesOf at h
  split at h
  · cases h
    exact ⟨none, rfl⟩
  · obtain ⟨items, -, h⟩ := ok_of_bind h
    obtain ⟨texts, -, h⟩ := ok_of_bind h
    cases h
    exact ⟨_, asOptional_texts texts⟩

theorem noted_ok {help : Value} {note said : String} (h : noted help note = .ok said) :
    ∃ text, said = text ++ note := by
  obtain ⟨text, -, h⟩ := ok_of_bind h
  cases h
  exact ⟨text, rfl⟩

theorem formOf_ok {schema help : Value} {form : Form} (h : formOf schema help = .ok form) :
    (∃ texts, Value.asOptional (Value.asList Value.asText) form.choices = .ok texts) ∧
      ∃ text, Value.asOptional Value.asText form.placeholder = .ok text := by
  have hNone : ∃ texts, Value.asOptional (Value.asList Value.asText) .null = .ok texts :=
    ⟨none, rfl⟩
  unfold formOf at h
  split at h
  · obtain ⟨help, -, h⟩ := ok_of_bind h
    cases h
    exact ⟨hNone, some dateFormat, rfl⟩
  split at h
  · cases h
    exact ⟨hNone, none, rfl⟩
  split at h
  · obtain ⟨choices, hChoices, h⟩ := ok_of_bind h
    cases h
    exact ⟨choicesOf_ok hChoices, none, rfl⟩
  split at h
  · obtain ⟨choices, hChoices, h⟩ := ok_of_bind h
    cases h
    exact ⟨choicesOf_ok hChoices, none, rfl⟩
  -- the other types have neither choices nor a placeholder
  split at h
  · cases h
    exact ⟨hNone, none, rfl⟩
  split at h
  · obtain ⟨said, -, h⟩ := ok_of_bind h
    cases h
    exact ⟨hNone, none, rfl⟩
  split at h
  · obtain ⟨said, -, h⟩ := ok_of_bind h
    cases h
    exact ⟨hNone, none, rfl⟩
  · cases h
    exact ⟨hNone, none, rfl⟩

theorem defaultOf_ok {schema default : Value} {type : FieldType}
    (h : defaultOf schema type = .ok default) :
    ∃ text, Value.asOptional Value.asText default = .ok text ∧ (text.isSome → type = .string) := by
  unfold defaultOf at h
  split at h
  · next hText =>
    split at h
    · cases h
      exact ⟨none, rfl, nofun⟩
    · cases hDefault : defaultText (Schema.entry schema "default") with
      | error e =>
        rw [hDefault] at h
        cases h
      | ok text =>
        rw [hDefault] at h
        cases h
        exact ⟨some text, rfl, fun _ => hText⟩
  · cases h
    exact ⟨none, rfl, nofun⟩

theorem error_of_defaultText {v : Value} {e : Failure} (h : defaultText v = .error e) :
    e = .malformed := by
  unfold defaultText at h
  split at h
  · cases h
  · exact (error_of_orMalformed h).2

theorem error_of_choicesOf {schema : Value} {e : Failure} (h : choicesOf schema = .error e) :
    e = .malformed := by
  unfold choicesOf at h
  split at h
  · cases h
  · rcases error_of_bind h with hItems | ⟨items, -, h⟩
    · exact (error_of_orMalformed hItems).2
    rcases error_of_bind h with hTexts | ⟨texts, -, h⟩
    · obtain ⟨item, -, hText⟩ := error_of_mapM hTexts
      exact (error_of_orMalformed hText).2
    · cases h

theorem error_of_noted {help : Value} {note : String} {e : Failure}
    (h : noted help note = .error e) : e = .malformed := by
  rcases error_of_bind h with hText | ⟨text, -, h⟩
  · exact (error_of_orMalformed hText).2
  · cases h

theorem error_of_dateHelp {help : Value} {e : Failure} (h : dateHelp help = .error e) :
    e = .malformed := by
  unfold dateHelp at h
  split at h
  · rcases error_of_bind h with hSaid | ⟨said, -, h⟩
    · exact (error_of_orMalformed hSaid).2
    split at h
    · cases h
    · exact error_of_noted (error_of_map h)
  · cases h

theorem error_of_formOf {schema help : Value} {e : Failure} (h : formOf schema help = .error e) :
    e = .malformed := by
  have hChoices {make : Value → Form}
      (h : (do let choices ← choicesOf schema; .ok (make choices)) = .error e) :
      e = .malformed := by
    rcases error_of_bind h with hChoices | ⟨choices, -, h⟩
    · exact error_of_choicesOf hChoices
    · cases h
  unfold formOf at h
  split at h
  · rcases error_of_bind h with hHelp | ⟨help, -, h⟩
    · exact error_of_dateHelp hHelp
    · cases h
  split at h
  · cases h
  split at h
  · exact hChoices h
  split at h
  · exact hChoices h
  -- the other types look at the help alone, or at nothing
  split at h
  · cases h
  split at h
  · rcases error_of_bind h with hSaid | ⟨said, -, h⟩
    · exact error_of_noted hSaid
    · cases h
  split at h
  · rcases error_of_bind h with hSaid | ⟨said, -, h⟩
    · exact error_of_noted hSaid
    · cases h
  · cases h

theorem error_of_defaultOf {schema : Value} {type : FieldType} {e : Failure}
    (h : defaultOf schema type = .error e) : e = .malformed := by
  unfold defaultOf at h
  split at h
  · split at h
    · cases h
    · exact error_of_defaultText (error_of_map h)
  · cases h

theorem bad_of_help {α : Type} {f : Option String → α} {help : Value} {issues : List Issue}
    (h : f <$> (Value.asOptional Value.asText help).under (.key "help_text") = .bad issues) :
    issues = [⟨[.key "help_text"], .text⟩] := by
  cases help with
  | scalar s => cases s <;> cases h <;> rfl
  | _ =>
    cases h
    rfl

/-- What may be wrong with the field for a schema: a part of the schema is of a kind that nobody
planned for, or what should be a help text is none. The rule of shapes is never broken. -/
theorem error_of_ofSchema {schema description : Value} {key : String} {required : Bool}
    {e : Failure} (h : ofSchema schema key required description = .error e) :
    e = .malformed ∨ e = .invalid [⟨[.key "help_text"], .text⟩] := by
  have hRead {c : Checked Field} (hBad : ∀ issues, c = .bad issues →
      issues = [⟨[.key "help_text"], .text⟩]) (h : (c.orFail : Except Failure Field) = .error e) :
      e = .malformed ∨ e = .invalid [⟨[.key "help_text"], .text⟩] := by
    obtain ⟨issues, hIssues, rfl⟩ := error_of_orFail h
    exact Or.inr (congrArg Failure.invalid (hBad issues hIssues))
  -- A schema that is empty or absent asks for nothing but the help to be text.
  unfold ofSchema at h
  dsimp only at h
  split at h
  · refine hRead (fun issues hIssues => ?_) h
    rw [read_plainRecord] at hIssues
    exact bad_of_help hIssues
  · split at h
    · rcases error_of_bind h with hForm | ⟨form, hForm, h⟩
      · exact Or.inl (error_of_formOf hForm)
      rcases error_of_bind h with hDefault | ⟨default, hDefault, h⟩
      · exact Or.inl (error_of_defaultOf hDefault)
      refine hRead (fun issues hIssues => ?_) h
      obtain ⟨⟨texts, hTexts⟩, text, hText⟩ := formOf_ok hForm
      obtain ⟨given, hGiven, hString⟩ := defaultOf_ok hDefault
      rw [read_record hTexts hGiven hText hString] at hIssues
      exact bad_of_help hIssues
    · exact Or.inl (Except.error.inj h).symm

/-- The field for a schema keeps the rule of shapes. -/
theorem ofSchema_wellShaped {schema description : Value} {key : String} {required : Bool}
    {f : Field} (h : ofSchema schema key required description = .ok f) : f.WellShaped := by
  have hRead {v : Value} (h : ((Field.read v).orFail : Except Failure Field) = .ok f) :
      f.WellShaped := by
    have hTo := ok_of_orFail h
    unfold read at hTo
    cases hDepth : v.depth with
    | zero => exact absurd hDepth (Nat.ne_of_gt (Value.depth_pos v))
    | succ n =>
      rw [hDepth, readTo] at hTo
      obtain ⟨g, -, hChecked⟩ := Checked.andThen_eq_ok.mp hTo
      exact wellShaped_of_checked hChecked
  -- Both ways end with a record that is read, and reading checks the rule.
  unfold ofSchema at h
  dsimp only at h
  split at h
  · exact hRead h
  · split at h
    · obtain ⟨form, -, h⟩ := ok_of_bind h
      obtain ⟨default, -, h⟩ := ok_of_bind h
      exact hRead h
    · cases h

end Field

end IntegrationCompiler
