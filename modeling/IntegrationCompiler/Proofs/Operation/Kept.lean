import IntegrationCompiler.Operation.Basic
import IntegrationCompiler.Proofs.Field.Shape
import IntegrationCompiler.Proofs.Json.Stored

/-!
# Operations in files

Each part of an operation is kept by the record that is written for it, and so is the operation.

Main definition: `Operation.freeForm` — the mappings of an operation that may hold any values.

Main results:

* `Field.keeps` — a field is kept if it keeps the rule of shapes at every depth;
* `RequestPlan.keeps`, `ResponsePlan.keeps`, … — plans are kept;
* `Operation.keeps` — so an operation is kept, whatever is in its free-form mappings;
* `Operation.Storable.survives` — what is written into its file is read as the operation.
-/

namespace IntegrationCompiler

open Checked (map_ok seq_ok)
open Entries (need_ok want_ok)
open Value (storable_str storable_bool)

/-! ## Request plans -/

theorem PropertyPlan.keeps (p : PropertyPlan) : Keeps read p.toValue p := by
  have hName : ValueKind.ofName? p.kind.name = some p.kind := by cases p.kind <;> rfl
  have hKind := Keeps.oneOf hName
  refine Keeps.record (by simp) ?_ ?_
  · simp only [List.forall_mem_cons]
    exact ⟨storable_str _, hKind.storable, storable_bool _, nofun⟩
  · exact seq_ok (seq_ok (map_ok (need_ok rfl (Keeps.text _).reads))
      (want_ok rfl hKind.reads)) (want_ok rfl (Keeps.bool _).reads)

theorem FlattenPlan.keeps (p : FlattenPlan) : Keeps read p.toValue p := by
  have hGroup := Keeps.optionalText p.groupKey
  have hItem := Keeps.list fun q (_ : q ∈ p.itemProperties) => q.keeps
  refine Keeps.record (by simp) ?_ ?_
  · simp only [List.forall_mem_cons]
    exact ⟨storable_str _, hGroup.storable, hItem.storable, nofun⟩
  · exact seq_ok (seq_ok (map_ok (need_ok rfl (Keeps.text _).reads))
      (want_ok rfl hGroup.reads)) (want_ok rfl hItem.reads)

theorem MergePlan.keeps (p : MergePlan) : Keeps read p.toValue p := by
  have hHelpers := Keeps.texts p.helperKeys
  refine Keeps.record (by simp) ?_ ?_
  · simp only [List.forall_mem_cons]
    exact ⟨storable_str _, hHelpers.storable, storable_bool _, storable_bool _, storable_bool _,
      nofun⟩
  · exact seq_ok (seq_ok (seq_ok (seq_ok (map_ok (need_ok rfl (Keeps.text _).reads))
      (need_ok rfl hHelpers.reads)) (want_ok rfl (Keeps.bool _).reads))
      (want_ok rfl (Keeps.bool _).reads)) (want_ok rfl (Keeps.bool _).reads)

theorem BodyPlan.keeps (p : BodyPlan) (h : (Value.map p.defaults).Storable) :
    Keeps read p.toValue p := by
  have hProperties := Keeps.list fun q (_ : q ∈ p.properties) => q.keeps
  have hFlatten := Keeps.optional FlattenPlan.toValue (fun q (_ : q ∈ p.flatten) => nofun)
    fun q _ => q.keeps
  have hMerges := Keeps.list fun q (_ : q ∈ p.helperMerges) => q.keeps
  refine Keeps.record (by simp) ?_ ?_
  · simp only [List.forall_mem_cons]
    exact ⟨hProperties.storable, hFlatten.storable, hMerges.storable, h, nofun⟩
  · exact seq_ok (seq_ok (seq_ok (map_ok (want_ok rfl hProperties.reads))
      (want_ok rfl hFlatten.reads)) (want_ok rfl hMerges.reads))
      (want_ok rfl (Keeps.entries h).reads)

theorem QueryParamPlan.keeps (p : QueryParamPlan) : Keeps read p.toValue p := by
  have hName : ValueKind.ofName? p.kind.name = some p.kind := by cases p.kind <;> rfl
  have hKind := Keeps.oneOf hName
  refine Keeps.record (by simp) ?_ ?_
  · simp only [List.forall_mem_cons]
    exact ⟨storable_str _, hKind.storable, nofun⟩
  · exact seq_ok (map_ok (need_ok rfl (Keeps.text _).reads)) (want_ok rfl hKind.reads)

theorem QueryPlan.keeps (p : QueryPlan) (h : (Value.map p.fixed).Storable) :
    Keeps read p.toValue p := by
  have hParams := Keeps.list fun q (_ : q ∈ p.params) => q.keeps
  refine Keeps.record (by simp) ?_ ?_
  · simp only [List.forall_mem_cons]
    exact ⟨hParams.storable, h, nofun⟩
  · exact seq_ok (map_ok (want_ok rfl hParams.reads)) (want_ok rfl (Keeps.entries h).reads)

/-- What is always sent, and what is sent for want of inputs, can be stored. -/
structure RequestPlan.Storable (p : RequestPlan) : Prop where
  fixed : (Value.map p.query.fixed).Storable
  defaults : ∀ b ∈ p.body, (Value.map b.defaults).Storable

theorem RequestPlan.keeps {p : RequestPlan} (h : p.Storable) : Keeps read p.toValue p := by
  have hName : Method.ofName? p.method.name = some p.method := by cases p.method <;> rfl
  have hMethod := Keeps.oneOf hName
  have hPath := Keeps.texts p.pathParams
  have hQuery := p.query.keeps h.fixed
  have hBody := Keeps.optional BodyPlan.toValue (fun b (_ : b ∈ p.body) => nofun)
    fun b hb => b.keeps (h.defaults b hb)
  refine Keeps.record (by simp) ?_ ?_
  · simp only [List.forall_mem_cons]
    exact ⟨hMethod.storable, storable_str _, hPath.storable, hQuery.storable, hBody.storable,
      storable_str _, nofun⟩
  · exact seq_ok (seq_ok (seq_ok (seq_ok (seq_ok (map_ok (need_ok rfl hMethod.reads))
      (need_ok rfl (Keeps.text _).reads)) (want_ok rfl hPath.reads))
      (want_ok rfl hQuery.reads)) (want_ok rfl hBody.reads)) (want_ok rfl (Keeps.text _).reads)

/-! ## Response plans -/

theorem ResponsePlan.keeps (p : ResponsePlan) : Keeps read p.toValue p := by
  have hName : ResponseKind.ofName? p.kind.name = some p.kind := by cases p.kind <;> rfl
  have hKind := Keeps.oneOf hName
  have hKey := Keeps.optionalText p.key
  have hArray := Keeps.optionalText p.arrayProperty
  refine Keeps.record (by simp) ?_ ?_
  · simp only [List.forall_mem_cons]
    exact ⟨hKind.storable, hKey.storable, hArray.storable, nofun⟩
  · exact seq_ok (seq_ok (map_ok (need_ok rfl hKind.reads)) (want_ok rfl hKey.reads))
      (want_ok rfl hArray.reads)

theorem ArrayExtraction.keeps (e : ArrayExtraction) : Keeps read e.toValue e := by
  have hName : ExtractionKind.ofName? e.kind.name = some e.kind := by cases e.kind <;> rfl
  have hKind := Keeps.oneOf hName
  have hProperty := Keeps.optionalText e.property
  refine Keeps.record (by simp) ?_ ?_
  · simp only [List.forall_mem_cons]
    exact ⟨hKind.storable, hProperty.storable, nofun⟩
  · exact seq_ok (map_ok (need_ok rfl hKind.reads)) (want_ok rfl hProperty.reads)

theorem PaginationPlan.keeps (p : PaginationPlan)
    (h : p.pageSize.natAbs < 10 ^ Number.maxIntegerDigits) : Keeps read p.toValue p := by
  have hExtraction := p.extraction.keeps
  have hSize := Keeps.int h
  refine Keeps.record (by simp) ?_ ?_
  · simp only [List.forall_mem_cons]
    exact ⟨storable_str _, storable_str _, storable_str _, hSize.storable, hExtraction.storable,
      nofun⟩
  · exact seq_ok (seq_ok (seq_ok (seq_ok (map_ok (want_ok rfl (Keeps.text _).reads))
      (want_ok rfl (Keeps.text _).reads)) (want_ok rfl (Keeps.text _).reads))
      (want_ok rfl hSize.reads)) (need_ok rfl hExtraction.reads)

theorem LabelPlan.keeps (p : LabelPlan) : Keeps read p.toValue p := by
  have hFallback := Keeps.optionalText p.fallback
  refine Keeps.record (by simp) ?_ ?_
  · simp only [List.forall_mem_cons]
    exact ⟨storable_str _, hFallback.storable, nofun⟩
  · exact seq_ok (map_ok (need_ok rfl (Keeps.text _).reads)) (want_ok rfl hFallback.reads)

theorem FilterPlan.keeps (p : FilterPlan) (h : (Value.map p.equals).Storable) :
    Keeps read p.toValue p := by
  have hExpression := Keeps.optionalText p.expression
  refine Keeps.record (by simp) ?_ ?_
  · simp only [List.forall_mem_cons]
    exact ⟨h, hExpression.storable, nofun⟩
  · exact seq_ok (map_ok (want_ok rfl (Keeps.entries h).reads)) (want_ok rfl hExpression.reads)

/-! ## Fields -/

theorem Binding.keeps (b : Binding) : Keeps read b.toValue b := by
  refine Keeps.record (by simp) ?_ ?_
  · simp only [List.forall_mem_cons]
    exact ⟨storable_str _, storable_str _, nofun⟩
  · exact seq_ok (map_ok (need_ok rfl (Keeps.text _).reads)) (want_ok rfl (Keeps.text _).reads)

namespace Field

theorem toValues_eq_map (fs : List Field) : toValues fs = fs.map toValue := by
  induction fs with
  | nil => rfl
  | cons f rest ih => rw [toValues, ih, List.map_cons]

theorem toValue_eq (f : Field) : f.toValue = .object [
    ("key", .str f.key), ("label", .str f.label),
    ("type", .optional (fun t => .str t.name) f.type),
    ("children", .list (f.children.map toValue)), ("help_text", .optionalText f.helpText),
    ("required", .bool f.required), ("choices", .optional .texts f.choices),
    ("default", .optionalText f.default), ("placeholder", .optionalText f.placeholder),
    ("dynamic", .optional Binding.toValue f.dynamic)] := by
  obtain ⟨key, label, type, children, help, required, choices, default, placeholder, dynamic⟩ := f
  unfold toValue
  rw [toValues_eq_map]
  cases type <;> cases choices <;> cases dynamic <;> rfl

/-- A field is kept if it keeps the rule of shapes and its children are kept. -/
theorem keeps_readWith {readChild : Value → Checked Field} {f : Field} (hShape : f.WellShaped)
    (hChildren : ∀ c ∈ f.children, Keeps readChild c.toValue c) :
    Keeps (readWith readChild) f.toValue f := by
  have hType : Keeps (Value.asOptional (Value.asOneOf FieldType.ofName?))
      (.optional (fun t => .str t.name) f.type) f.type :=
    Keeps.optional _ (fun _ _ => nofun) fun t _ => Keeps.oneOf (by cases t <;> rfl)
  have hList := Keeps.list hChildren
  have hHelp := Keeps.optionalText f.helpText
  have hChoices := Keeps.optional Value.texts (fun cs (_ : cs ∈ f.choices) => nofun)
    fun cs _ => Keeps.texts cs
  have hDefault := Keeps.optionalText f.default
  have hPlaceholder := Keeps.optionalText f.placeholder
  have hDynamic := Keeps.optional Binding.toValue (fun b (_ : b ∈ f.dynamic) => nofun)
    fun b _ => b.keeps
  rw [toValue_eq]
  constructor
  · refine Value.storable_object (by simp) ?_
    simp only [List.forall_mem_cons]
    exact ⟨storable_str _, storable_str _, hType.storable, hList.storable, hHelp.storable,
      storable_bool _, hChoices.storable, hDefault.storable, hPlaceholder.storable,
      hDynamic.storable, nofun⟩
  -- the rule of shapes is checked once all parts have been read
  · refine Checked.andThen_eq_ok.mpr ⟨f, ?_, checked_of_wellShaped hShape⟩
    cases f
    exact seq_ok (seq_ok (seq_ok (seq_ok (seq_ok (seq_ok (seq_ok (seq_ok (seq_ok
      (map_ok (need_ok rfl (Keeps.text _).reads)) (need_ok rfl (Keeps.text _).reads))
      (want_ok rfl hType.reads)) (want_ok rfl hList.reads)) (want_ok rfl hHelp.reads))
      (want_ok rfl (Keeps.bool _).reads)) (want_ok rfl hChoices.reads))
      (want_ok rfl hDefault.reads)) (want_ok rfl hPlaceholder.reads))
      (want_ok rfl hDynamic.reads)

theorem depth_toValue_lt {f c : Field} (h : c ∈ f.children) : c.toValue.depth < f.toValue.depth := by
  have hList := Value.depth_lt_of_mem_items (List.mem_map_of_mem (f := toValue) h)
  rw [toValue_eq f]
  refine Nat.lt_trans hList (Value.depth_lt_of_mem_entries (k := .str "children") ?_)
  simp

theorem keeps_readTo {f : Field} (h : f.WellShaped ∧ Throughout WellShaped f.children)
    (depth : Nat) (hDepth : f.toValue.depth ≤ depth) : Keeps (readTo depth) f.toValue f := by
  induction f using induct generalizing depth with
  | h f ih =>
    cases depth with
    | zero => exact absurd hDepth (Nat.not_le_of_gt (Value.depth_pos _))
    | succ depth =>
      refine keeps_readWith h.1 fun c hc => ?_
      have hLower := depth_toValue_lt hc
      exact ih c hc (throughout_iff_forall.mp h.2 c hc) depth (by omega)

/-- **A field is kept if it and all fields under it keep the rule of shapes.** -/
theorem keeps {f : Field} (h : f.WellShaped ∧ Throughout WellShaped f.children) :
    Keeps read f.toValue f := by
  have hDeep := keeps_readTo h _ (Nat.le_refl _)
  exact ⟨hDeep.storable, hDeep.reads⟩

end Field

/-! ## Operations -/

/-- The fields keep the rule of shapes at every depth, and what may hold any values can be stored. -/
structure Head.Storable (h : Head) : Prop where
  shapes : Field.Throughout Field.WellShaped h.inputFields
  sample : (Value.map h.sample).Storable
  request : h.request.Storable

/-- What all operations have is storable, and is read whatever stands behind it. -/
theorem Head.keeps {h : Head} (hStorable : h.Storable) :
    (∀ e ∈ h.fields, e.2.Storable) ∧ ∀ more : List (String × Value),
      Head.read ((h.fields ++ more).map fun (k, v) => (.str k, v)) = .ok h := by
  have hId := Keeps.optionalText h.operationId
  have hInputs := Keeps.list fun f hf =>
    Field.keeps (Field.throughout_iff_forall.mp hStorable.shapes f hf)
  have hSample := Keeps.entries hStorable.sample
  have hPlan := RequestPlan.keeps hStorable.request
  rw [← Field.toValues_eq_map] at hInputs
  -- the fields are written and read in the same order
  constructor
  · simp only [fields, List.forall_mem_cons]
    exact ⟨storable_str _, storable_str _, storable_str _, storable_str _, hId.storable,
      storable_str _, hInputs.storable, hSample.storable, hPlan.storable, nofun⟩
  · intro more
    exact seq_ok (seq_ok (seq_ok (seq_ok (seq_ok (seq_ok (seq_ok (seq_ok
      (map_ok (need_ok rfl (Keeps.text _).reads)) (need_ok rfl (Keeps.text _).reads))
      (need_ok rfl (Keeps.text _).reads)) (need_ok rfl (Keeps.text _).reads))
      (want_ok rfl hId.reads)) (need_ok rfl (Keeps.text _).reads)) (want_ok rfl hInputs.reads))
      (need_ok rfl hSample.reads)) (need_ok rfl hPlan.reads)

/-- What the parts of a trigger have to be for the trigger to be stored. -/
structure Trigger.Storable (t : Trigger) : Prop where
  head : t.head.Storable
  filter : ∀ p ∈ t.filter, (Value.map p.equals).Storable
  pages : ∀ p ∈ t.pagination, p.pageSize.natAbs < 10 ^ Number.maxIntegerDigits

namespace Operation

/-- The mappings of an operation that may hold any values: its sample, the fixed part of the query,
the defaults of the body, and what a trigger compares its items with. -/
def freeForm (o : Operation) : List Entries :=
  [o.head.sample, o.head.request.query.fixed] ++ o.head.request.body.toList.map BodyPlan.defaults ++
    match o with
    | .action _ => []
    | .trigger t => t.filter.toList.map FilterPlan.equals

/-- How the operation pages: only triggers do. -/
def pagination? : Operation → Option PaginationPlan
  | .action _ => none
  | .trigger t => t.pagination

/-- The fields of the operation keep the rule of shapes at every depth, its free-form mappings hold
values of JSON whose numbers have texts that are read back, and the size of its pages has a text. -/
structure Storable (o : Operation) : Prop where
  shapes : Field.Throughout Field.WellShaped o.head.inputFields
  freeForm : ∀ es ∈ o.freeForm, (Value.map es).Storable
  pages : ∀ p ∈ o.pagination?, p.pageSize.natAbs < 10 ^ Number.maxIntegerDigits

theorem storable_action_iff {a : Action} : (action a).Storable ↔ a.head.Storable := by
  constructor
  · rintro ⟨hShapes, hFree, -⟩
    simp only [freeForm, head, List.forall_mem_append, List.forall_mem_cons, List.forall_mem_map,
      Option.mem_toList] at hFree
    obtain ⟨⟨⟨hSample, hFixed, -⟩, hDefaults⟩, -⟩ := hFree
    exact ⟨hShapes, hSample, hFixed, hDefaults⟩
  · rintro ⟨hShapes, hSample, hFixed, hDefaults⟩
    refine ⟨hShapes, ?_, fun p hp => absurd hp (Option.not_mem_none p)⟩
    simp only [freeForm, head, List.forall_mem_append, List.forall_mem_cons, List.forall_mem_map,
      Option.mem_toList]
    exact ⟨⟨⟨hSample, hFixed, List.forall_mem_nil _⟩, hDefaults⟩, List.forall_mem_nil _⟩

theorem storable_trigger_iff {t : Trigger} : (trigger t).Storable ↔ t.Storable := by
  constructor
  · rintro ⟨hShapes, hFree, hPages⟩
    simp only [freeForm, head, List.forall_mem_append, List.forall_mem_cons, List.forall_mem_map,
      Option.mem_toList] at hFree
    obtain ⟨⟨⟨hSample, hFixed, -⟩, hDefaults⟩, hEquals⟩ := hFree
    exact ⟨⟨hShapes, hSample, hFixed, hDefaults⟩, hEquals, hPages⟩
  · rintro ⟨⟨hShapes, hSample, hFixed, hDefaults⟩, hEquals, hPages⟩
    refine ⟨hShapes, ?_, hPages⟩
    simp only [freeForm, head, List.forall_mem_append, List.forall_mem_cons, List.forall_mem_map,
      Option.mem_toList]
    exact ⟨⟨⟨hSample, hFixed, List.forall_mem_nil _⟩, hDefaults⟩, hEquals⟩

theorem keeps_action {a : Action} (h : a.head.Storable) :
    Keeps read (action a).toValue (action a) := by
  obtain ⟨hStored, hRead⟩ := Head.keeps h
  have hResponse := a.response.keeps
  constructor
  · refine Value.storable_object (by simp [Head.fields]) ?_
    simp only [List.forall_mem_append, List.forall_mem_cons]
    exact ⟨hStored, storable_str _, hResponse.storable, nofun⟩
  · refine Checked.under_eq_ok.mpr (map_ok ?_)
    exact Checked.seq_eq_ok.mpr ⟨_, _, seq_ok (map_ok (hRead _)) (want_ok rfl rfl),
      need_ok rfl hResponse.reads, rfl⟩

theorem keeps_trigger {t : Trigger} (h : t.Storable) :
    Keeps read (trigger t).toValue (trigger t) := by
  obtain ⟨hStored, hRead⟩ := Head.keeps h.head
  have hExtraction := t.extraction.keeps
  have hPagination := Keeps.optional PaginationPlan.toValue
    (fun p (_ : p ∈ t.pagination) => nofun) fun p hp => p.keeps (h.pages p hp)
  have hLabel := Keeps.optional LabelPlan.toValue (fun p (_ : p ∈ t.label) => nofun)
    fun p _ => p.keeps
  have hEquals := Keeps.optional FilterPlan.toValue (fun p (_ : p ∈ t.filter) => nofun)
    fun p hp => p.keeps (h.filter p hp)
  constructor
  · refine Value.storable_object (by simp [Head.fields]) ?_
    simp only [List.forall_mem_append, List.forall_mem_cons]
    exact ⟨hStored, storable_str _, storable_bool _, hExtraction.storable, hPagination.storable,
      hLabel.storable, hEquals.storable, storable_bool _, nofun⟩
  · refine Checked.under_eq_ok.mpr (map_ok ?_)
    exact Checked.seq_eq_ok.mpr ⟨_, _, seq_ok (seq_ok (seq_ok (seq_ok (seq_ok (seq_ok
      (map_ok (hRead _)) (want_ok rfl rfl)) (want_ok rfl (Keeps.bool _).reads))
      (need_ok rfl hExtraction.reads)) (want_ok rfl hPagination.reads)) (want_ok rfl hLabel.reads))
      (want_ok rfl hEquals.reads), want_ok rfl (Keeps.bool _).reads, rfl⟩

/-- **An operation that can be stored is kept.** -/
theorem keeps {o : Operation} (h : o.Storable) : Keeps read o.toValue o := by
  cases o with
  | action a => exact keeps_action (storable_action_iff.mp h)
  | trigger t => exact keeps_trigger (storable_trigger_iff.mp h)

/-- The operation has a text for its file, and what is read from the text is the operation. -/
def Survives (o : Operation) : Prop :=
  ∃ text v, o.jsonText = .ok text ∧ Json.parse text = .ok v ∧ read v = .ok o

/-- **An operation that can be stored survives.** -/
theorem Storable.survives {o : Operation} (h : o.Storable) : o.Survives := by
  obtain ⟨hStorable, hReads⟩ := keeps h
  obtain ⟨text, hText, hParse⟩ := parse_jsonFileText hStorable
  exact ⟨text, _, hText, hParse, hReads⟩

end Operation

end IntegrationCompiler
