import IntegrationCompiler.Proofs.Draft.Failures
import IntegrationCompiler.Proofs.Draft.Stages
import IntegrationCompiler.Proofs.Field.Typed
import IntegrationCompiler.Proofs.Json.RoundTrip
import IntegrationCompiler.Proofs.Request.Placed

/-!
# Texts that fields offer

A field shows its default as text, and its choices too. What the user sends back is such a text, and
it has to be read as the value that the text was made from.

Main definitions:

* `Value.Exact` — the values that a text keeps;
* `ValueKind.Holds` — which of them are read where lists or objects are expected;
* `Restores` — an input gets back to a value, in the body as well as in a flattened item.

Main results:

* `readInput?_defaultText`, `readInput?_intText` — reading the texts back;
* `Field.ofSchema_restores` — the default of a schema gets back;
* `Draft.addDefaults_restores` — so does a configured default;
* `Field.ofSchema_choices` — choices are the texts of their integers;
* `offered_restored` — what a field offers gets back to the value that it came from.
-/

namespace IntegrationCompiler

/-! ## Values that a text keeps -/

/-- The values that JSON has and a text keeps: without doubles, and without integers that are too
long to be written. -/
structure Value.Exact (v : Value) : Prop where
  json : v.IsJson
  noFloat : ∀ x, ¬ Within (.float x) v
  short : ∀ n, Within (.int n) v → n.natAbs < 10 ^ Number.maxIntegerDigits

namespace Value.Exact

variable {v : Value}

/-- Such a value has a text, which is read as the value. -/
theorem exists_text (h : v.Exact) (style : Json.Style) :
    ∃ text, Json.render? style v = some text ∧ Json.parse text = .ok v := by
  obtain ⟨text, hText⟩ := Option.isSome_iff_exists.mp ((Json.render?_isSome_iff h.json).mpr h.short)
  exact ⟨text, hText, Json.parse_render h.json (fun x hx => absurd hx (h.noFloat x)) hText⟩

end Value.Exact

/-- The text of a list stands between brackets. -/
theorem Json.render?_list {style : Style} {items : List Value} {text : String}
    (h : render? style (.list items) = some text) :
    text.toList.head? = some '[' ∧ text.toList.getLast? = some ']' := by
  rw [render?, renderAt?, Option.map_eq_some_iff] at h
  obtain ⟨pieces, -, rfl⟩ := h
  cases pieces with
  | nil =>
    rw [enclose_nil]
    exact ⟨rfl, rfl⟩
  | cons piece pieces =>
    rw [enclose_cons (a := '[') (b := ']') rfl rfl, ← List.append_assoc, ← List.append_assoc,
      ← List.cons_append]
    exact ⟨rfl, List.getLast?_concat⟩

/-! ## Reading a text back -/

/-- The values that a text is read as where lists or objects are expected: an object may turn out to
be a list, a list is one. -/
inductive ValueKind.Holds : ValueKind → Value → Prop where
  | list (items : List Value) : Holds .array (.list items)
  | object (es : Entries) : Holds .object (.map es)
  | listForObject (items : List Value) : Holds .object (.list items)

/-- The text of a list is taken for JSON. -/
theorem listOfText_render {items : List Value} {text : String}
    (hText : Json.render? .compact (.list items) = some text)
    (hParse : Json.parse text = .ok (.list items)) : listOfText text = items := by
  obtain ⟨hFirst, hLast⟩ := Json.render?_list hText
  have hTrim : Text.trim text.toList = text.toList := by
    refine Text.trim_of_ends ?_ ?_
    · rw [hFirst]
      rintro _ ⟨rfl⟩
      decide
    · rw [hLast]
      rintro _ ⟨rfl⟩
      decide
  unfold listOfText
  simp only [hTrim, hFirst, beq_self_eq_true, if_true, String.ofList_toList, hParse]

/-- **The text of a value is read as the value**, where the field is for a list or an object. -/
theorem readInput?_defaultText {kind : ValueKind} {v : Value} (hKind : kind.Holds v)
    (h : v.Exact) : ∃ text, defaultText v = .ok text ∧
      ∀ dynamic, readInput? kind (.str text) dynamic = some v := by
  obtain ⟨text, hText, hParse⟩ := h.exists_text .compact
  have hProvided : isUnprovided (.str text) = false := by
    refine Bool.eq_false_iff.mpr fun hEmpty => ?_
    obtain rfl := String.isEmpty_iff.mp hEmpty
    cases hParse
  have hObject : ofJsonText text = v := by
    unfold ofJsonText
    rw [hParse]
  have hCompact : (orMalformed (Json.render? .compact v) : Except Failure String) = .ok text := by
    rw [hText]
    rfl
  -- a list is read item by item, an object as one JSON text
  refine ⟨text, ?_, fun dynamic => ?_⟩
  · cases hKind with
    | list | object | listForObject => exact hCompact
  · unfold readInput?
    rw [hProvided, if_neg Bool.false_ne_true]
    cases hKind with
    | list items =>
      change some (Value.list (listOfText text)) = _
      rw [listOfText_render hText hParse]
    | object | listForObject => exact congrArg some hObject

/-- The text of an integer is read as the integer; a dropdown's zero means that nothing was chosen. -/
theorem readInput?_intText {n : Int} (h : n.natAbs < 10 ^ Number.maxIntegerDigits) {dynamic : Bool}
    (hChosen : dynamic = true → n ≠ 0) :
    readInput? .number (.str (intText n)) dynamic = some (.int n) := by
  have hNumber : toNumber? (.str (intText n)) = some (.int n) := by
    unfold toNumber?
    dsimp only
    rw [Number.ofNumeral?_intText h]
    rfl
  have hProvided : isUnprovided (.str (intText n)) = false := by
    refine Bool.eq_false_iff.mpr fun hEmpty => ?_
    have hNil : (intText n).toList = [] := by rw [String.isEmpty_iff.mp hEmpty, String.toList_empty]
    rw [intText_toList] at hNil
    split at hNil
    · cases hNil
    · exact Nat.toDigits_ne_nil hNil
  have hZero : (dynamic && Number.isZero (.int n)) = false := by
    cases dynamic with
    | false => rfl
    | true => exact beq_eq_false_iff_ne.mpr (hChosen rfl)
  unfold readInput? readNumber?
  rw [hProvided, hNumber, if_neg Bool.false_ne_true]
  dsimp only
  rw [hZero, if_neg Bool.false_ne_true]
  rfl

/-! ## Defaults of schemas -/

/-- An input that was submitted under a key gets back to the value that its text stands for, in the
body as well as in a flattened item. -/
structure Restores (key : String) (kind : ValueKind) (text : String) (v : Value) : Prop where
  read : ∀ dynamic, readInput? kind (.str text) dynamic = some v
  body : ∀ (b : BodyPlan) (p : PropertyPlan) (inputs : Entries), p.name = key → p.kind = kind →
    b.Owns p → inputs.get? key = some (.str text) → Entries.get? (b.build inputs) key = some v
  item : ∀ (b : BodyPlan) (flatten : FlattenPlan) (p : PropertyPlan) (inputs : Entries),
    p.name = key → p.kind = kind → b.OwnsInItem flatten p →
    inputAt inputs key flatten.groupKey = .str text →
    ∃ item, Entries.get? (b.build inputs) flatten.arrayField = some (.list [.map item]) ∧
      Entries.get? item key = some v

theorem restores_of_read {key text : String} {kind : ValueKind} {v : Value}
    (h : ∀ dynamic, readInput? kind (.str text) dynamic = some v) : Restores key kind text v where
  read := h
  body := by
    rintro b p inputs rfl rfl hOwns hInput
    refine b.get?_build hOwns ?_
    rw [Entries.getOrNull, hInput]
    exact h p.dynamic
  item := by
    rintro b flatten p inputs rfl rfl hOwns hInput
    refine b.get?_build_item hOwns ?_
    rw [hInput]
    exact h p.dynamic

namespace Field

variable {schema : Value}

theorem type_of_hasType {name : String} (h : Schema.hasType schema name = true) :
    Schema.type schema = .str name := by
  unfold Schema.hasType Value.isText at h
  split at h
  · next s hType => rw [hType, eq_of_beq h]
  · cases h

/-- A schema for lists or objects says so. -/
theorem type_of_valueKind (h : Schema.valueKind schema = .array ∨ Schema.valueKind schema = .object) :
    Schema.type schema = .str "array" ∨ Schema.type schema = .str "object" := by
  unfold Schema.valueKind at h
  split at h
  · rcases h with h | h <;> cases h
  split at h
  · rcases h with h | h <;> cases h
  split at h
  · rcases h with h | h <;> cases h
  split at h
  · next hArray => exact Or.inl (type_of_hasType hArray)
  split at h
  · next hObject => exact Or.inr (type_of_hasType hObject)
  · rcases h with h | h <;> cases h

/-- Only a mapping has a type. -/
theorem map_of_type (h : Schema.type schema = .str "array" ∨ Schema.type schema = .str "object") :
    ∃ es, schema = .map es := by
  cases schema with
  | map es => exact ⟨es, rfl⟩
  | _ => rcases h with h | h <;> cases h

/-- The help of a field: what is said where it is used wins over what its schema says. -/
def helpOf (schema description : Value) : Value :=
  (description.present?).getD (((Schema.entry schema "description").present?).getD (.str ""))

/-- A note can be put behind a help that can be written. -/
theorem noted_isOk_iff {help : Value} {note : String} :
    (∃ said, noted help note = .ok said) ↔ help.hasText = true := by
  unfold noted Value.text?
  constructor
  · rintro ⟨said, hSaid⟩
    split at hSaid
    · assumption
    · cases hSaid
  · intro hText
    rw [if_pos hText]
    exact ⟨_, rfl⟩

/-- The form of a field for lists or objects holds text; all it takes from the help is what is said,
with a note behind it. -/
theorem formOf_collection
    (h : Schema.type schema = .str "array" ∨ Schema.type schema = .str "object") (help : Value) :
    ∃ note, formOf schema help =
      (noted help note).map fun said => { help := .str (trimmed said) } := by
  unfold formOf Schema.isTextOf Schema.isNumeric Schema.hasType
  rcases h with h | h
  · rw [h]
    exact ⟨_, rfl⟩
  · rw [h]
    exact ⟨_, rfl⟩

/-- **A list or an object that is the default of a schema gets back**, and there is a field for it
when its help can be written. -/
theorem ofSchema_restores {v : Value} (hKind : (Schema.valueKind schema).Holds v)
    (hDefault : Schema.entry schema "default" = v) (hv : v.Exact) (key : String) (required : Bool)
    (description : Value) :
    (∀ f, ofSchema schema key required description = .ok f →
      ∃ text, f.type = some .string ∧ f.default = some text ∧
        Restores key (Schema.valueKind schema) text v) ∧
      ((∃ f, ofSchema schema key required description = .ok f) ↔
        (helpOf schema description).hasText = true) := by
  obtain ⟨text, hText, hRead⟩ := readInput?_defaultText hKind hv
  have hType : Schema.type schema = .str "array" ∨ Schema.type schema = .str "object" := by
    refine type_of_valueKind ?_
    generalize Schema.valueKind schema = kind at hKind
    cases hKind with
    | list => exact Or.inl rfl
    | object | listForObject => exact Or.inr rfl
  -- a field for texts has its default as JSON
  have hGiven : defaultOf schema .string = .ok (.str text) := by
    unfold defaultOf
    rw [if_pos rfl, hDefault]
    split
    · generalize Schema.valueKind schema = kind at hKind
      cases hKind
    · rw [hText]
      rfl
  obtain ⟨es, rfl⟩ := map_of_type hType
  have hThere : (Value.map es).truthy = true := by
    cases es with
    | nil => rcases hType with h | h <;> cases h
    | cons e rest => rfl
  obtain ⟨note, hForm⟩ := formOf_collection hType (helpOf (.map es) description)
  have hNoChoices : Value.asOptional (Value.asList Value.asText) .null = .ok none := rfl
  have hDefaultText : Value.asOptional Value.asText (.str text) = .ok (some text) := rfl
  have hNoPlaceholder : Value.asOptional Value.asText .null = .ok none := rfl
  -- with the form and the default known, the note is all that can fail
  have hField : ofSchema (.map es) key required description =
      (noted (helpOf (.map es) description) note).map fun said =>
        ofParts key .string required none (some text) none (some (trimmed said)) := by
    unfold ofSchema
    dsimp only
    rw [hThere]
    show (formOf (.map es) (helpOf (.map es) description) >>= _) = _
    rw [hForm]
    cases noted (helpOf (.map es) description) note with
    | error e => rfl
    | ok said =>
      dsimp only [Except.map, bind, Except.bind]
      rw [hGiven]
      dsimp only
      rw [read_record hNoChoices hDefaultText hNoPlaceholder fun _ => rfl]
      rfl
  rw [hField, ← noted_isOk_iff]
  cases noted (helpOf (.map es) description) note with
  | error e => exact ⟨nofun, iff_of_false nofun nofun⟩
  | ok said =>
    refine ⟨?_, iff_of_true ⟨_, rfl⟩ ⟨_, rfl⟩⟩
    rintro _ ⟨rfl⟩
    exact ⟨text, rfl, rfl, restores_of_read hRead⟩

/-! ## Choices -/

theorem type_of_isNumeric (h : Schema.isNumeric schema = true) :
    Schema.type schema = .str "integer" ∨ Schema.type schema = .str "number" :=
  (Bool.or_eq_true _ _ ▸ h : _ ∨ _).imp type_of_hasType type_of_hasType

theorem valueKind_of_isNumeric (h : Schema.isNumeric schema = true) :
    Schema.valueKind schema = .number := by
  have hText : Schema.isTextOf schema "date" = false := by
    unfold Schema.isTextOf Schema.hasType
    rcases type_of_isNumeric h with hType | hType <;> (rw [hType]; rfl)
  unfold Schema.valueKind
  rw [hText, if_neg Bool.false_ne_true, if_pos h]

/-- The texts of the integers of an enumeration. -/
theorem choicesOf_ints {ns : List Int} (h : Schema.entry schema "enum" = .list (ns.map .int))
    (hShort : ∀ n ∈ ns, n.natAbs < 10 ^ Number.maxIntegerDigits) :
    ∃ choices texts, choicesOf schema = .ok choices ∧
      Value.asOptional (Value.asList Value.asText) choices = .ok texts ∧
        texts.getD [] = ns.map intText := by
  cases ns with
  | nil =>
    refine ⟨.null, none, ?_, rfl, rfl⟩
    unfold choicesOf
    rw [h]
    rfl
  | cons n rest =>
    have hTexts : ∀ item ∈ (n :: rest).map Value.int, item.hasText = true := by
      rintro _ hItem
      obtain ⟨m, hm, rfl⟩ := List.mem_map.mp hItem
      exact intText?_isSome_iff.mpr (hShort m hm)
    have hSame : ((n :: rest).map Value.int).map Value.text = (n :: rest).map intText :=
      List.map_map
    refine ⟨_, _, choicesOf_list h (by simp) hTexts, asOptional_texts _, ?_⟩
    rw [hSame]
    rfl

/-- The field for numbers has the choices of its schema, and fails only by its help. -/
theorem ofSchema_numeric {ns : List Int} (hNumeric : Schema.isNumeric schema = true)
    (hEnum : Schema.entry schema "enum" = .list (ns.map .int))
    (hShort : ∀ n ∈ ns, n.natAbs < 10 ^ Number.maxIntegerDigits) (key : String) (required : Bool)
    (description : Value) : ∃ texts, texts.getD [] = ns.map intText ∧
      ofSchema schema key required description =
        (ofParts key .number required texts none none <$>
          (Value.asOptional Value.asText (helpOf schema description)).under
            (.key "help_text")).orFail := by
  obtain ⟨choices, texts, hChoices, hTexts, hInts⟩ := choicesOf_ints hEnum hShort
  refine ⟨texts, hInts, ?_⟩
  have hType := type_of_isNumeric hNumeric
  have hForm (help : Value) :
      formOf schema help = .ok { type := .number, help := help, choices := choices } := by
    unfold formOf Schema.isTextOf Schema.isNumeric Schema.hasType
    rw [hChoices]
    rcases hType with hType | hType <;> (rw [hType]; rfl)
  -- only fields for texts have defaults
  have hNone : defaultOf schema .number = .ok .null := rfl
  have hAbsent : Value.asOptional Value.asText .null = .ok none := rfl
  obtain ⟨es, rfl⟩ : ∃ es, schema = .map es := by
    cases schema with
    | map es => exact ⟨es, rfl⟩
    | _ => cases hNumeric
  have hThere : (Value.map es).truthy = true := by
    cases es with
    | nil => cases hNumeric
    | cons e rest => rfl
  unfold ofSchema
  dsimp only
  rw [hThere, hForm]
  dsimp only [bind, Except.bind]
  rw [hNone]
  dsimp only
  rw [read_record hTexts hAbsent hAbsent nofun]
  rfl

/-- **The choices of an enumeration get back to its integers.** -/
theorem ofSchema_choices {ns : List Int} (hNumeric : Schema.isNumeric schema = true)
    (hEnum : Schema.entry schema "enum" = .list (ns.map .int))
    (hShort : ∀ n ∈ ns, n.natAbs < 10 ^ Number.maxIntegerDigits) (key : String) (required : Bool)
    (description : Value) :
    (∀ f, ofSchema schema key required description = .ok f → f.choices.getD [] = ns.map intText) ∧
      ((∃ help, helpOf schema description = .str help) →
        ∃ f, ofSchema schema key required description = .ok f) := by
  obtain ⟨texts, hTexts, hField⟩ := ofSchema_numeric hNumeric hEnum hShort key required description
  rw [hField]
  constructor
  · intro f hf
    obtain ⟨help, -, rfl⟩ := Checked.map_eq_ok.mp (ok_of_orFail hf)
    exact hTexts
  · rintro ⟨help, hHelp⟩
    rw [hHelp]
    exact ⟨_, rfl⟩

end Field

/-! ## Configured defaults -/

namespace Draft

open Logged

variable {scope : Scope} {d d' : Draft} {key : String}

/-- A field's type and its default, the parts of a field that defaults are about. -/
def typeAndDefault (f : Field) : Option FieldType × Option String :=
  (f.type, f.default)

/-- A default for another key leaves a field its type and its default. -/
theorem setDefault_other {other : String} {v : Value} (hOther : other ≠ key)
    (h : (setDefault scope d key v).Returns d') :
    (Field.find? d'.fields other).map typeAndDefault =
      (Field.find? d.fields other).map typeAndDefault := by
  rcases setDefault_returns h with rfl | ⟨default, rfl⟩ | rfl
  · rfl
  · refine Field.find?_updateFirst_of_ne hOther ?_ ?_ ?_ d.fields
    · exact fun _ => rfl
    · exact fun _ => rfl
    · exact fun _ _ => rfl
  · rfl

/-- A default for a field that holds text becomes its text. -/
theorem setDefault_text {f : Field} {v : Value} {text : String}
    (hFound : Field.find? d.fields key = some f) (hType : f.type = some .string)
    (hText : defaultText v = .ok text) (hv : v ≠ .null)
    (h : (setDefault scope d key v).Returns d') :
    (Field.find? d'.fields key).map typeAndDefault = some (some .string, some text) := by
  unfold setDefault at h
  rw [hFound] at h
  dsimp only at h
  rw [if_pos hType] at h
  split at h
  · exact absurd rfl hv
  · obtain ⟨default, hDefault, h⟩ := returns_bind h
    obtain ⟨-, -, h⟩ := returns_bind h
    obtain ⟨text', hText', rfl⟩ := returns_map hDefault
    cases (returns_liftExcept hText').symm.trans hText
    cases returns_pure h
    dsimp only
    rw [Field.find?_updateFirst, hFound]
    · exact congrArg (fun type => some (type, some text)) hType
    · exact fun _ => rfl

/-- Defaults for other keys leave a field its type and its default. -/
theorem setDefaults_other {defaults : Entries} (hOther : ∀ e ∈ defaults, key ≠ e.1.text)
    (h : (defaults.foldlM
      (fun d (e : Scalar × Value) => setDefault scope d e.1.text e.2) d).Returns d') :
    (Field.find? d'.fields key).map typeAndDefault =
      (Field.find? d.fields key).map typeAndDefault :=
  returns_foldlM
    (I := fun e => (Field.find? e.fields key).map typeAndDefault =
      (Field.find? d.fields key).map typeAndDefault) rfl
    (fun e he _ _ hSame hStep => (setDefault_other (hOther e he) hStep).trans hSame) h

/-- A configured default for a field that holds text becomes its text, if no other one is for the
same key. -/
theorem addDefaults_text {f : Field} {v : Value} {text : String}
    (hDistinct : (scope.config.fieldDefaults.map (·.1.text)).Nodup)
    (hMem : (.str key, v) ∈ scope.config.fieldDefaults)
    (hFound : Field.find? d.fields key = some f) (hType : f.type = some .string)
    (hText : defaultText v = .ok text) (hv : v ≠ .null) (h : (d.addDefaults scope).Returns d') :
    (Field.find? d'.fields key).map typeAndDefault = some (some .string, some text) := by
  unfold addDefaults at h
  dsimp only at h
  split at h
  · obtain ⟨before, after, hSplit⟩ := List.append_of_mem hMem
    rw [hSplit] at h hDistinct
    rw [List.map_append, List.map_cons, List.nodup_append', List.nodup_cons] at hDistinct
    obtain ⟨-, ⟨hLater, -⟩, hApart⟩ := hDistinct
    have hBefore : ∀ e ∈ before, key ≠ e.1.text := by
      rintro e he hSame
      exact hApart (List.mem_map.mpr ⟨e, he, hSame.symm⟩) List.mem_cons_self
    have hAfter : ∀ e ∈ after, key ≠ e.1.text := fun e he hSame =>
      hLater (List.mem_map.mpr ⟨e, he, hSame.symm⟩)
    rw [List.foldlM_append] at h
    obtain ⟨d₁, h₁, h⟩ := returns_bind h
    rw [List.foldlM_cons] at h
    obtain ⟨d₂, h₂, h₃⟩ := returns_bind h
    -- The field holds text up to its own default, and keeps it from there on.
    have hStart := setDefaults_other hBefore h₁
    rw [hFound] at hStart
    obtain ⟨f₁, hFound₁, hSame⟩ := Option.map_eq_some_iff.mp hStart
    have hType₁ : f₁.type = some .string := (congrArg Prod.fst hSame).trans hType
    rw [setDefaults_other hAfter h₃, setDefault_text hFound₁ hType₁ hText hv h₂]
  · exact absurd h not_returns_throw

/-- Defaults can be set if each belongs to an input and can be written. -/
theorem exists_addDefaults (hShapes : Field.Throughout Field.WellShaped d.fields)
    (hKnown : ∀ key ∈ scope.config.fieldDefaults.names, (Field.find? d.fields key).isSome)
    (hWritten : ∀ e ∈ scope.config.fieldDefaults, e.2.HasJson) :
    ∃ d', (d.addDefaults scope).Returns d' := by
  have hUnknown : (scope.config.fieldDefaults.names.filter
      fun key => (Field.find? d.fields key).isNone) = [] := by
    refine List.filter_eq_nil_iff.mpr fun key hKey => ?_
    rw [← Option.not_isSome, hKnown key hKey]
    exact Bool.false_ne_true
  refine returns_of_not_fails fun e hFails => ?_
  unfold addDefaults at hFails
  dsimp only at hFails
  rw [hUnknown, List.isEmpty_nil, if_pos rfl] at hFails
  obtain ⟨done, entry, left, d₁, hSplit, hDone, hStep⟩ := fails_foldlM hFails
  have hShapes₁ := returns_foldlM (I := fun d => Field.Throughout Field.WellShaped d.fields) hShapes
    (fun _ _ _ _ hStart hStep => setDefault_shaped hStart hStep) hDone
  obtain ⟨text, hText⟩ := defaultText_of_hasJson
    (hWritten entry (hSplit ▸ List.mem_append_right _ List.mem_cons_self))
  exact nomatch hText.symm.trans (setDefault_fails hShapes₁ hStep)

/-- **A list or an object that is configured as a default gets back.** -/
theorem addDefaults_restores {f : Field} {kind : ValueKind} {v : Value}
    (hDistinct : (scope.config.fieldDefaults.map (·.1.text)).Nodup)
    (hMem : (.str key, v) ∈ scope.config.fieldDefaults)
    (hFound : Field.find? d.fields key = some f) (hType : f.type = some .string)
    (hKind : kind.Holds v) (hv : v.Exact) (h : (d.addDefaults scope).Returns d') :
    ∃ g text, Field.find? d'.fields key = some g ∧ g.default = some text ∧
      Restores key kind text v := by
  obtain ⟨text, hText, hRead⟩ := readInput?_defaultText hKind hv
  have hNull : v ≠ .null := by
    rintro rfl
    cases hKind
  obtain ⟨g, hg, hSame⟩ := Option.map_eq_some_iff.mp
    (addDefaults_text hDistinct hMem hFound hType hText hNull h)
  exact ⟨g, text, hg, congrArg Prod.snd hSame, restores_of_read hRead⟩

end Draft

/-! ## What fields offer -/

/-- **What a field offers gets back to the value that it came from**: the default of a schema for
lists or objects, a default that is configured for such a field, and the choices of an enumeration
of integers. Only a dropdown's zero does not, since there it means that nothing is chosen. A field
is missing only where its help cannot be written. -/
theorem offered_restored :
    (∀ (schema description v : Value) (key : String) (required : Bool),
      (Schema.valueKind schema).Holds v → Schema.entry schema "default" = v → v.Exact →
      (∀ f, Field.ofSchema schema key required description = .ok f →
        ∃ text, f.type = some .string ∧ f.default = some text ∧
          Restores key (Schema.valueKind schema) text v) ∧
      ((∃ f, Field.ofSchema schema key required description = .ok f) ↔
        (Field.helpOf schema description).hasText = true)) ∧
    (∀ (scope : Scope) (d : Draft) (schema v : Value) (key : String) (f : Field),
      (scope.config.fieldDefaults.map (·.1.text)).Nodup →
      (.str key, v) ∈ scope.config.fieldDefaults → Field.find? d.fields key = some f →
      f.type = some .string → (Schema.valueKind schema).Holds v → v.Exact →
      (Field.Throughout Field.WellShaped d.fields →
        (∀ key ∈ scope.config.fieldDefaults.names, (Field.find? d.fields key).isSome) →
        (∀ e ∈ scope.config.fieldDefaults, e.2.HasJson) →
        ∃ d', (d.addDefaults scope).Returns d') ∧
      ∀ d', (d.addDefaults scope).Returns d' →
        ∃ g text, Field.find? d'.fields key = some g ∧ g.default = some text ∧
          Restores key (Schema.valueKind schema) text v) ∧
    (∀ (schema description : Value) (key : String) (required : Bool) (ns : List Int),
      Schema.isNumeric schema = true → Schema.entry schema "enum" = .list (ns.map .int) →
      (∀ n ∈ ns, n.natAbs < 10 ^ Number.maxIntegerDigits) →
      (∀ f, Field.ofSchema schema key required description = .ok f →
        f.choices.getD [] = ns.map intText) ∧
      ((∃ help, Field.helpOf schema description = .str help) →
        ∃ f, Field.ofSchema schema key required description = .ok f) ∧
      ∀ n ∈ ns, ∀ dynamic : Bool, (dynamic = true → n ≠ 0) →
        readInput? (Schema.valueKind schema) (.str (intText n)) dynamic = some (.int n)) := by
  refine ⟨?_, ?_, ?_⟩
  · intro schema description v key required hKind hDefault hv
    exact Field.ofSchema_restores hKind hDefault hv key required description
  · intro scope d schema v key f hDistinct hMem hFound hType hKind hv
    exact ⟨Draft.exists_addDefaults,
      fun d' => Draft.addDefaults_restores hDistinct hMem hFound hType hKind hv⟩
  · intro schema description key required ns hNumeric hEnum hShort
    obtain ⟨hChoices, hMade⟩ := Field.ofSchema_choices hNumeric hEnum hShort key required description
    rw [Field.valueKind_of_isNumeric hNumeric]
    exact ⟨hChoices, hMade, fun n hn dynamic => readInput?_intText (hShort n hn)⟩

/-- Tags of several kinds, with characters that JSON escapes. -/
def someTags : Value :=
  .list [.int 1, .str "né \"5\"", .object [("tag", .null)]]

/-- A list of tags. -/
def tagsSchema : Value :=
  .object [("type", .str "array"), ("default", someTags)]

/-- A rating from zero to two. -/
def ratingSchema : Value :=
  .object [("type", .str "integer"), ("enum", .list ([0, 1, 2].map .int))]

/-- An action with one input for tags, for which a default is configured. -/
def tagsScope : Scope where
  key := "add_note"
  endpoint := { path := "/notes", method := .post }
  config := { fieldDefaults := [(.str "tags", someTags)] }

/-- Its draft. -/
def tagsDraft : Draft where
  fields := [{ key := "tags", label := "Tags", type := some .string }]
  request := { method := .post, urlTemplate := "/notes" }
  sample := .null

theorem someTags_exact : someTags.Exact where
  json := by
    refine .list (List.forall_mem_cons.mpr ⟨.int 1, List.forall_mem_cons.mpr ⟨.str _,
      List.forall_mem_singleton.mpr (Value.isJson_object (by decide) ?_)⟩⟩)
    exact List.forall_mem_singleton.mpr .null
  noFloat := by simp [someTags, Value.object]
  short := by
    have hOne : Int.natAbs 1 < 10 ^ Number.maxIntegerDigits :=
      Number.length_toDigits_le_iff.mp (by decide)
    simpa [someTags, Value.object] using hOne

/-- The tags get back from either default, and the ratings from their choices. -/
theorem offered_restored_tags :
    (∃ f text, Field.ofSchema tagsSchema "tags" false .null = .ok f ∧ f.type = some .string ∧
      f.default = some text ∧ Restores "tags" .array text someTags) ∧
    (∃ d' g text, (tagsDraft.addDefaults tagsScope).Returns d' ∧
      Field.find? d'.fields "tags" = some g ∧ g.default = some text ∧
        Restores "tags" .array text someTags) ∧
    ∃ f, Field.ofSchema ratingSchema "rating" false .null = .ok f ∧
      f.choices.getD [] = ["0", "1", "2"] ∧
      readInput? .number (.str "0") false = some (.int 0) ∧
      readInput? .number (.str "2") true = some (.int 2) := by
  obtain ⟨hSchemas, hDrafts, hChoices⟩ := offered_restored
  refine ⟨?_, ?_, ?_⟩
  · obtain ⟨hRestores, hMade⟩ :=
      hSchemas tagsSchema .null someTags "tags" false (.list _) rfl someTags_exact
    obtain ⟨f, hf⟩ := hMade.mpr rfl
    obtain ⟨text, hType, hDefault, hRestored⟩ := hRestores f hf
    exact ⟨f, text, hf, hType, hDefault, hRestored⟩
  · obtain ⟨hReturns, hRestores⟩ := hDrafts tagsScope tagsDraft tagsSchema someTags "tags" _
      (by decide) List.mem_cons_self rfl rfl (.list _) someTags_exact
    have hShapes : Field.Throughout Field.WellShaped tagsDraft.fields :=
      Field.throughout_of_leaves (by decide) (by decide)
    obtain ⟨d', hd'⟩ := hReturns hShapes (by decide) (by decide)
    obtain ⟨g, text, hRestored⟩ := hRestores d' hd'
    exact ⟨d', g, text, hd', hRestored⟩
  · have hShort : ∀ n ∈ [(0 : Int), 1, 2], n.natAbs < 10 ^ Number.maxIntegerDigits := fun n hn =>
      Number.length_toDigits_le_iff.mp (by revert n; decide)
    obtain ⟨hTexts, hMade, hRead⟩ := hChoices ratingSchema .null "rating" false [0, 1, 2] rfl rfl hShort
    obtain ⟨f, hf⟩ := hMade ⟨"", rfl⟩
    exact ⟨f, hf, hTexts f hf, hRead 0 (by decide) false nofun, hRead 2 (by decide) true (by decide)⟩

end IntegrationCompiler
