import IntegrationCompiler.Proofs.Field.Typed
import IntegrationCompiler.Proofs.Text.Cutting

/-!
# Fields and the kinds of their values

A schema decides twice: what the field looks like in which a value is entered, and how what is
entered there is read. The two decisions go through types and formats in orders of their own.

* `Field.Fits` — a field looks as it should for the kind of value that is read from it;
* `Field.Form.Shows`, `Field.formOf_shows` — the form for a schema, and those for each kind;
* `Field.ofSchema_made` — the field for a schema takes over its form;
* `Field.ofSchema_fits` — the two decisions agree.
-/

namespace IntegrationCompiler.Field

open Value Schema

/-! ## Fields that fit -/

/-- At its end, the help of a text field says that JSON is to be entered. -/
def AsksJson (f : Field) (note : String) : Prop :=
  f.type = some .string ∧ ∃ help, f.helpText = some help ∧ note.toList <:+ help.toList

/-- A field looks as it should for the kind of value that is read from it. -/
structure Fits (f : Field) (kind : ValueKind) : Prop where
  number : kind = .number ↔ f.type = some .number
  boolean : kind = .boolean ↔ f.type = some .boolean
  date : kind = .date ↔ f.placeholder = some dateFormat
  array : kind = .array → f.AsksJson "(JSON array format)"
  object : kind = .object → f.AsksJson "(JSON object format)"
  rest : kind ∉ [.number, .boolean, .date, .array, .object] → kind = .string ∧
    (f.type = some .datetime ∨ f.type = some .string ∧ f.placeholder ≠ some dateFormat)

/-! ## The form for a kind -/

/-- The forms of the fields for each kind of value. -/
inductive Form.Shows : Form → ValueKind → Prop
  | date (help : Value) : Shows { help := help, placeholder := .str dateFormat } .date
  | moment (help : Value) : Shows { type := .datetime, help := help } .string
  | text (help choices : Value) : Shows { help := help, choices := choices } .string
  | number (help choices : Value) :
    Shows { type := .number, help := help, choices := choices } .number
  | boolean (help : Value) : Shows { type := .boolean, help := help } .boolean
  | array (said : String) : Shows { help := .str (trimmed (said ++ " (JSON array format)")) } .array
  | object (said : String) :
    Shows { help := .str (trimmed (said ++ " (JSON object format)")) } .object

variable {schema description : Value} {key : String} {required : Bool} {f : Field}

/-- A schema has no two types. -/
theorem hasType_of_ne {name : String} (h : hasType schema name = true) (other : String)
    (hNe : name ≠ other) : hasType schema other = false := by
  unfold hasType isText at h ⊢
  split at h
  · next s hType =>
    rw [eq_of_beq h]
    exact beq_false_of_ne hNe
  · cases h

/-- A schema for texts that are no dates is read as one for texts. -/
theorem valueKind_of_string (h : hasType schema "string" = true)
    (hNoDate : isTextOf schema "date" = false) : valueKind schema = .string := by
  unfold valueKind isNumeric
  rw [hNoDate, hasType_of_ne h "integer" (by decide), hasType_of_ne h "number" (by decide),
    hasType_of_ne h "boolean" (by decide), hasType_of_ne h "array" (by decide),
    hasType_of_ne h "object" (by decide)]
  rfl

/-- **The form of a field and the kind of its value are decided alike.** -/
theorem formOf_shows {help : Value} {form : Form} (h : formOf schema help = .ok form) :
    form.Shows (valueKind schema) := by
  unfold formOf at h
  split at h
  · next hDate =>
    obtain ⟨said, -, h⟩ := ok_of_bind h
    cases h
    rw [valueKind, if_pos hDate]
    exact .date said
  next hNoDate =>
  split at h
  · next hMoment =>
    cases h
    rw [valueKind_of_string (Bool.and_eq_true_iff.mp hMoment).1 (Bool.eq_false_iff.mpr hNoDate)]
    exact .moment help
  split at h
  · next hText =>
    obtain ⟨choices, -, h⟩ := ok_of_bind h
    cases h
    rw [valueKind_of_string hText (Bool.eq_false_iff.mpr hNoDate)]
    exact .text help choices
  -- from here on the two ask the same questions
  rw [valueKind, if_neg hNoDate]
  split at h
  · next hNumeric =>
    obtain ⟨choices, -, h⟩ := ok_of_bind h
    cases h
    rw [if_pos hNumeric]
    exact .number help choices
  next hNotNumeric =>
  rw [if_neg hNotNumeric]
  split at h
  · next hBoolean =>
    cases h
    rw [if_pos hBoolean]
    exact .boolean help
  next hNotBoolean =>
  rw [if_neg hNotBoolean]
  split at h
  · next hArray =>
    obtain ⟨said, hSaid, h⟩ := ok_of_bind h
    obtain ⟨text, rfl⟩ := noted_ok hSaid
    cases h
    rw [if_pos hArray]
    exact .array text
  next hNotArray =>
  rw [if_neg hNotArray]
  split at h
  · next hObject =>
    obtain ⟨said, hSaid, h⟩ := ok_of_bind h
    obtain ⟨text, rfl⟩ := noted_ok hSaid
    cases h
    rw [if_pos hObject]
    exact .object text
  · next hNotObject =>
    cases h
    rw [if_neg hNotObject]
    exact .text help .null

/-! ## The field for a form -/

/-- A field takes over its type, its help and its placeholder from a form. -/
structure TakesOver (f : Field) (form : Form) : Prop where
  type : f.type = some form.type
  help : asOptional asText form.help = .ok f.helpText
  placeholder : asOptional asText form.placeholder = .ok f.placeholder

theorem ofParts_of_ok {type : FieldType} {choices : Option (List String)}
    {default placeholder : Option String} {help : Value}
    (h : (ofParts key type required choices default placeholder <$>
      (asOptional asText help).under (.key "help_text")).orFail = (.ok f : Except Failure Field)) :
    ∃ text, asOptional asText help = .ok text ∧
      f = ofParts key type required choices default placeholder text := by
  have hMade := ok_of_orFail h
  cases hHelp : asOptional asText help with
  | ok text =>
    rw [hHelp] at hMade
    cases hMade
    exact ⟨text, rfl, rfl⟩
  | bad issues =>
    rw [hHelp] at hMade
    cases hMade

/-- A schema that is not present is read as one for texts. -/
theorem valueKind_of_not_truthy (h : schema.truthy = false) : valueKind schema = .string := by
  cases schema with
  | map es =>
    cases es with
    | nil => rfl
    | cons e rest => cases h
  | _ => rfl

/-- A field takes over what the form for its schema has; where there is no schema, the form is that
of texts. -/
theorem ofSchema_made (h : ofSchema schema key required description = .ok f) :
    ∃ form : Form, form.Shows (valueKind schema) ∧ f.TakesOver form := by
  unfold ofSchema at h
  dsimp only at h
  split at h
  · next hNone =>
    rw [read_plainRecord] at h
    obtain ⟨text, hText, rfl⟩ := ofParts_of_ok h
    rw [valueKind_of_not_truthy (Bool.not_eq_true' _ ▸ hNone)]
    exact ⟨_, .text _ .null, rfl, hText, rfl⟩
  · split at h
    · obtain ⟨form, hForm, h⟩ := ok_of_bind h
      obtain ⟨default, hDefault, h⟩ := ok_of_bind h
      obtain ⟨⟨choices, hChoices⟩, placeholder, hPlaceholder⟩ := formOf_ok hForm
      obtain ⟨given, hGiven, hString⟩ := defaultOf_ok hDefault
      rw [read_record hChoices hGiven hPlaceholder hString] at h
      obtain ⟨text, hText, rfl⟩ := ofParts_of_ok h
      exact ⟨form, formOf_shows hForm, rfl, hText, hPlaceholder⟩
    · cases h

/-- What is put at the end of the help stays there. -/
theorem TakesOver.asksJson {said note : String} {choices placeholder : Value}
    (h : f.TakesOver ⟨.string, .str (trimmed (said ++ note)), choices, placeholder⟩)
    (shown : String) (hNote : note.toList = ' ' :: shown.toList)
    (hStays : Text.trim shown.toList = shown.toList)
    (hStart : ∃ c ∈ shown.toList.head?, Text.isBlank c = false) : f.AsksJson shown := by
  have hHelp : f.helpText = some (trimmed (said ++ note)) := (Checked.ok.inj h.help).symm
  refine ⟨h.type, _, hHelp, ?_⟩
  rw [trimmed, String.toList_ofList, String.toList_append, hNote, List.append_cons]
  exact Text.suffix_trim hStays hStart

theorem TakesOver.fits {form : Form} {kind : ValueKind} (h : f.TakesOver form)
    (hShows : form.Shows kind) : f.Fits kind := by
  obtain ⟨hType, -, hPlaceholder⟩ := id h
  cases hShows with
  | date help =>
    replace hPlaceholder : f.placeholder = some dateFormat := (Checked.ok.inj hPlaceholder).symm
    constructor <;> simp [hType, hPlaceholder]
  | array said =>
    have hJson := h.asksJson "(JSON array format)" rfl (by decide) ⟨'(', rfl, by decide⟩
    replace hPlaceholder : f.placeholder = none := (Checked.ok.inj hPlaceholder).symm
    constructor <;> simp [hType, hPlaceholder, hJson]
  | object said =>
    have hJson := h.asksJson "(JSON object format)" rfl (by decide) ⟨'(', rfl, by decide⟩
    replace hPlaceholder : f.placeholder = none := (Checked.ok.inj hPlaceholder).symm
    constructor <;> simp [hType, hPlaceholder, hJson]
  | moment | text | number | boolean =>
    replace hPlaceholder : f.placeholder = none := (Checked.ok.inj hPlaceholder).symm
    constructor <;> simp [hType, hPlaceholder]

/-- **The field for a schema and the kind of value that is read from it agree**: for each schema, or
none, whatever its types, its formats and its choices are. A schema whose keywords have their types
has such a field; choices and defaults have theirs if they can be written, since a field is not made
otherwise. -/
theorem ofSchema_fits (schema : Value) (key : String) (required : Bool) (description : Value) :
    (∀ f, ofSchema schema key required description = .ok f → f.Fits (valueKind schema)) ∧
    (schema.Typed → (description = .null ∨ ∃ s, description = .str s) →
      ∃ f, ofSchema schema key required description = .ok f) := by
  constructor
  · intro f hf
    obtain ⟨form, hShows, hTakes⟩ := ofSchema_made hf
    exact hTakes.fits hShows
  · exact fun hTyped hDescription => ofSchema_typed hTyped key required hDescription

/-- A deadline is a date of three, or there is none. -/
def deadline : Value := .object [("type", .texts ["null", "string"]), ("format", .str "date"),
  ("enum", .texts ["2024-03-31", "2024-06-30", "2024-09-30"])]

/-- Other types that a schema lists and the choices that it offers change nothing about dates. -/
theorem ofSchema_fits_deadline : ∃ f, ofSchema deadline "due_on" true .null = .ok f ∧
    f.placeholder = some "YYYY-MM-DD" ∧ f.type ≠ some .number ∧ valueKind deadline = .date := by
  obtain ⟨hFits, hMade⟩ := ofSchema_fits deadline "due_on" true .null
  have hChoices : TypedEntry (.str "enum") (.texts ["2024-03-31", "2024-06-30", "2024-09-30"]) := by
    constructor <;> simp [Value.texts]
  have hTyped : deadline.Typed := by
    refine .schema ?_ (by simp)
    simp (disch := decide) [typedEntry_of_name, hChoices, List.forall_mem_cons, -Prod.forall,
      -List.mem_cons]
  obtain ⟨f, hf⟩ := hMade hTyped (.inl rfl)
  have hDate : valueKind deadline = .date := by decide
  have hFit := hFits f hf
  refine ⟨f, hf, hFit.date.mp hDate, fun hNumber => ?_, hDate⟩
  exact nomatch hDate.symm.trans (hFit.number.mpr hNumber)

end IntegrationCompiler.Field
