import IntegrationCompiler.Proofs.Field.Shape
import IntegrationCompiler.Proofs.Reference.Typed

/-!
# Fields from typed schemas

Looking into a schema whose keywords have their types never meets a value of an unplanned kind.

* `Value.Typed.keyword`, `Value.Typed.property_of_mem` — the keywords and the properties of a typed
  schema;
* `Field.formOf_typed`, `Field.defaultOf_typed` — the parts of its field can be made;
* `Field.ofSchema_typed`, `Field.ofProperties_typed`, … — and so can its field, and those of its
  properties.
-/

namespace IntegrationCompiler

open Value Schema

/-! ## Typed schemas -/

theorem Schema.typedEntry_null (key : Scalar) : TypedEntry key .null where
  description _ := .inl rfl
  enum _ := .inl rfl
  required _ := .inl rfl
  properties _ := .inl rfl
  given _ := rfl
  shown _ := everywhere_scalar .null

namespace Value.Typed

variable {schema : Value}

/-- A keyword of a typed schema has a value of its type; one that is absent counts as null. -/
theorem keyword (h : schema.Typed) (key : String) :
    TypedEntry (.str key) (Schema.entry schema key) := by
  cases h with
  | null => exact typedEntry_null _
  | @schema es hEntries _ =>
    rcases getOrNull_eq_null_or_mem es key with hNull | hMem
    · rw [Schema.entry, hNull]
      exact typedEntry_null _
    · exact hEntries _ hMem

/-- The properties of a typed schema have names that are texts, and typed schemas. -/
theorem property_of_mem (h : schema.Typed) {p : Scalar × Value} (hp : p ∈ Schema.properties schema) :
    (∃ s, p.1 = .str s) ∧ p.2.Typed := by
  unfold Schema.properties at hp
  split at hp
  · next inner hInner =>
    rcases (h.keyword "properties").properties rfl with hNull | ⟨inner', hMap, hNames⟩
    · exact nomatch hNull.symm.trans hInner
    · cases hMap.symm.trans hInner
      refine ⟨hNames p hp, ?_⟩
      cases h with
      | null => cases hInner
      | @schema es _ hProperties =>
        rcases getOrNull_eq_null_or_mem es "properties" with hNone | hMem
        · exact nomatch hNone.symm.trans hInner
        · have hSame : Entries.getOrNull es "properties" = .map inner := hInner
          rw [hSame] at hMem
          exact hProperties inner hMem p hp
  · cases hp

end Value.Typed

/-- A schema that is not there is typed. -/
theorem typed_optionalEntries {schema : Option Entries} (h : (schemaValue schema).Typed) :
    (Value.optionalEntries schema).Typed := by
  cases schema with
  | none => exact .null
  | some es => exact h

/-- A description is a text, or one that stands for it is. -/
theorem text_of_present? {description fallback : Value}
    (h : description = .null ∨ ∃ s, description = .str s) (hFallback : ∃ s, fallback = .str s) :
    ∃ s, (description.present?).getD fallback = .str s := by
  cases hPresent : description.present? with
  | none => exact hFallback
  | some v =>
    obtain rfl := eq_of_present? hPresent
    rcases h with rfl | hText
    · cases hPresent
    · exact hText

/-- A value that JSON can write can be the text of a field. -/
theorem defaultText_of_hasJson {v : Value} (h : v.HasJson) : ∃ s, defaultText v = .ok s := by
  obtain ⟨s, hs⟩ := Option.isSome_iff_exists.mp h
  unfold defaultText
  split
  · exact ⟨_, rfl⟩
  · rw [hs]
    exact ⟨s, rfl⟩

namespace Field

variable {schema : Value}

/-! ## The parts of a field -/

theorem dateHelp_text (s : String) : ∃ t, dateHelp (.str s) = .ok (.str t) := by
  unfold dateHelp
  split
  · have hAsked : (Value.str s).contains? dateFormat =
        some (Text.hasInfix dateFormat.toList s.toList) := rfl
    rw [hAsked]
    cases Text.hasInfix dateFormat.toList s.toList with
    | true => exact ⟨_, rfl⟩
    | false => exact ⟨_, rfl⟩
  · exact ⟨_, rfl⟩

/-- What can be written has its texts. -/
theorem mapM_text? {items : List Value} (h : ∀ item ∈ items, item.hasText = true) :
    (items.mapM fun item => (orMalformed item.text? : Except Failure String)) =
      .ok (items.map Value.text) := by
  induction items with
  | nil => rfl
  | cons item rest ih =>
    obtain ⟨hFirst, hRest⟩ := List.forall_mem_cons.mp h
    rw [List.mapM_cons, ih hRest, Value.text?, if_pos hFirst]
    rfl

/-- The choices of an enumeration are the texts of its items. -/
theorem choicesOf_list {items : List Value} (hEnum : Schema.entry schema "enum" = .list items)
    (hSome : items ≠ []) (hTexts : ∀ item ∈ items, item.hasText = true) :
    choicesOf schema = .ok (.texts (items.map Value.text)) := by
  obtain ⟨item, rest, rfl⟩ := List.exists_cons_of_ne_nil hSome
  have hPresent : (Value.list (item :: rest)).present? = some (.list (item :: rest)) := rfl
  have hWalk : (Value.list (item :: rest)).walk? = some (item :: rest) := rfl
  unfold choicesOf
  rw [hEnum, hPresent]
  dsimp only
  rw [hWalk]
  show (((item :: rest).mapM fun item => orMalformed item.text? : Except Failure _) >>= _) = _
  rw [mapM_text? hTexts]
  rfl

theorem choicesOf_typed (h : schema.Typed) : ∃ choices, choicesOf schema = .ok choices := by
  rcases (h.keyword "enum").enum rfl with hNull | ⟨items, hItems, hTexts⟩
  · unfold choicesOf
    rw [hNull]
    exact ⟨_, rfl⟩
  · by_cases hSome : items = []
    · unfold choicesOf
      rw [hItems, hSome]
      exact ⟨_, rfl⟩
    · exact ⟨_, choicesOf_list hItems hSome fun item hItem => (hTexts item hItem).2⟩

/-- With a text for its help, the form of a field has one as well. -/
theorem formOf_typed (h : schema.Typed) (help : String) :
    ∃ form text, formOf schema (.str help) = .ok form ∧ form.help = .str text := by
  obtain ⟨choices, hChoices⟩ := choicesOf_typed h
  obtain ⟨said, hSaid⟩ := dateHelp_text help
  unfold formOf
  rw [hChoices, hSaid]
  split
  · exact ⟨_, _, rfl, rfl⟩
  split
  · exact ⟨_, _, rfl, rfl⟩
  split
  · exact ⟨_, _, rfl, rfl⟩
  split
  · exact ⟨_, _, rfl, rfl⟩
  split
  · exact ⟨_, _, rfl, rfl⟩
  split
  · exact ⟨_, _, rfl, rfl⟩
  split
  · exact ⟨_, _, rfl, rfl⟩
  · exact ⟨_, _, rfl, rfl⟩

theorem defaultOf_typed (h : schema.Typed) (type : FieldType) :
    ∃ default, defaultOf schema type = .ok default := by
  obtain ⟨text, hText⟩ := defaultText_of_hasJson ((h.keyword "default").given rfl)
  unfold defaultOf
  split
  · split
    · exact ⟨_, rfl⟩
    · exact ⟨.str text, by rw [hText]; rfl⟩
  · exact ⟨_, rfl⟩

/-! ## Fields -/

/-- **A field can be made from a typed schema.** -/
theorem ofSchema_typed (h : schema.Typed) (key : String) (required : Bool) {description : Value}
    (hDescription : description = .null ∨ ∃ s, description = .str s) :
    ∃ f, ofSchema schema key required description = .ok f := by
  unfold ofSchema
  dsimp only
  split
  · -- a schema that is not present makes a plain field
    obtain ⟨help, hHelp⟩ := text_of_present? hDescription ⟨"", rfl⟩
    rw [hHelp, read_plainRecord]
    exact ⟨_, rfl⟩
  · next hTruthy =>
    cases h with
    | null => exact absurd rfl hTruthy
    | @schema es hEntries hProperties =>
      have hTyped : (Value.map es).Typed := .schema hEntries hProperties
      have hOwn := text_of_present? ((hTyped.keyword "description").description rfl) ⟨"", rfl⟩
      obtain ⟨help, hHelp⟩ := text_of_present? hDescription hOwn
      obtain ⟨form, text, hForm, hText⟩ := formOf_typed hTyped help
      obtain ⟨default, hDefault⟩ := defaultOf_typed hTyped form.type
      obtain ⟨⟨texts, hTexts⟩, placeholder, hPlaceholder⟩ := formOf_ok hForm
      obtain ⟨given, hGiven, hString⟩ := defaultOf_ok hDefault
      dsimp only
      rw [hHelp, hForm]
      dsimp only [bind, Except.bind]
      rw [hDefault]
      dsimp only
      rw [hText, read_record hTexts hGiven hPlaceholder hString]
      exact ⟨_, rfl⟩

theorem ofParameters_typed {parameters : List Parameter} {exclude : List String} {e : Failure}
    (h : ∀ p ∈ parameters, (schemaValue p.schema).Typed) :
    ofParameters parameters exclude ≠ .error e := by
  intro hError
  obtain ⟨p, hp, hMade⟩ := error_of_mapM hError
  have hSchema : (Value.map (p.schema.getD [])).Typed := by
    have hTyped := h p (List.mem_of_mem_filter hp)
    cases hSome : p.schema with
    | none => exact .schema nofun nofun
    | some es =>
      rw [hSome] at hTyped
      exact hTyped
  -- The help comes from the parameter or else from its schema; it is text or absent in both.
  have hOwn : Value.optionalText p.description = .null ∨
      ∃ s, Value.optionalText p.description = .str s := by
    cases p.description with
    | none => exact .inl rfl
    | some s => exact .inr ⟨s, rfl⟩
  have hDescription (own : Value) (hOwn : own = .null ∨ ∃ s, own = .str s) :
      (if own.truthy then own else Schema.entry (.map (p.schema.getD [])) "description") = .null ∨
        ∃ s, (if own.truthy then own else Schema.entry (.map (p.schema.getD [])) "description") =
          .str s := by
    split
    · exact hOwn
    · exact (hSchema.keyword "description").description rfl
  obtain ⟨f, hf⟩ := ofSchema_typed hSchema p.name p.required (hDescription _ hOwn)
  exact nomatch hf.symm.trans hMade

theorem requiredNames_typed (h : schema.Typed) {e : Failure} : requiredNames schema ≠ .error e := by
  intro hError
  have hRequired := (h.keyword "required").required rfl
  cases h with
  | null => cases hError
  | @schema es _ _ =>
    unfold requiredNames at hError
    dsimp only at hError
    split at hError
    · cases hError
    · next v hPresent =>
      obtain rfl := eq_of_present? hPresent
      -- What is there is a list of names, and a step fails only at what is no scalar.
      rcases hRequired with hNull | ⟨names, hNames⟩
      · have hAbsent : Entries.getOrNull es "required" = .null := hNull
        rw [hAbsent] at hPresent
        cases hPresent
      · have hThere : Entries.getOrNull es "required" = .list (names.map .scalar) := hNames
        rw [hThere] at hError
        obtain ⟨item, hItem, hStep⟩ := error_of_mapM hError
        obtain ⟨s, -, rfl⟩ := List.mem_map.mp hItem
        cases hStep

theorem ofProperties_typed (h : schema.Typed) {exclude : List String} {e : Failure} :
    ofProperties schema exclude ≠ .error e := by
  intro hError
  rcases error_of_bind hError with hRequired | ⟨required, -, hError⟩
  · exact requiredNames_typed h hRequired
  · obtain ⟨⟨name, property⟩, hMem, hMade⟩ := error_of_mapM hError
    obtain ⟨⟨key, hKey⟩, hTyped⟩ := h.property_of_mem (List.mem_of_mem_filter hMem)
    dsimp only at hKey hTyped hMade
    subst hKey
    obtain ⟨f, hf⟩ := ofSchema_typed hTyped key (required.any (·.same (.str key))) (.inl rfl)
    exact nomatch hf.symm.trans hMade

end Field

end IntegrationCompiler
