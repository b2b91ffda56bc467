import IntegrationCompiler.Proofs.Request.Placed

/-!
# What is sent of inputs

Query parameters, properties of the body and properties of its item all take an input, read it, and
store what it is read as under their names. What a request has there can so be told from the
readings, whatever these are said to be like.

Main definitions:

* `ReadsAs` — what a provided input of each kind is read as;
* `RequestPlan.Takes`, `RequestPlan.Reads` — which inputs a plan takes, and what they are read as;
* `RequestPlan.Sends` — what holds of all that a request has of its inputs;
* `RequestPlan.Apart` — no two places of a plan write to the same entry.

Main results:

* `readsAs_of_readInput?` — an input that is read was provided, and is read by its kind;
* `RequestPlan.sends_of_reads`, `RequestPlan.reads_of_sends` — what is sent is what is read.
-/

namespace IntegrationCompiler

/-! ## One input -/

/-- What a provided input of each kind is read as. -/
inductive ReadsAs : ValueKind → Value → Value → Prop where
  | string (v : Value) : ReadsAs .string v v
  | date (v : Value) : ReadsAs .date v (.str (datePart v))
  | number (v : Value) : ReadsAs .number v (((toNumber? v).map Value.ofNumber).getD v)
  | boolean (v : Value) : ReadsAs .boolean v (.bool (readBoolean v))
  | array (v : Value) : ReadsAs .array v (.list (asListInput v))
  | json {s : String} {w : Value} : Json.parse s = .ok w → ReadsAs .object (.str s) w
  | text {s : String} {e : Json.ReadError} : Json.parse s = .error e →
    ReadsAs .object (.str s) (.str s)
  | other {v : Value} : (∀ s, v ≠ .str s) → ReadsAs .object v v

/-- **An input that is read was provided, and is read by its kind.** A dropdown may leave it out, but
does not change it. -/
theorem readsAs_of_readInput? {kind : ValueKind} {v w : Value} {dynamic : Bool}
    (h : readInput? kind v dynamic = some w) : isUnprovided v = false ∧ ReadsAs kind v w := by
  unfold readInput? at h
  split at h
  · cases h
  next hProvided =>
  refine ⟨Bool.eq_false_iff.mpr hProvided, ?_⟩
  cases kind with
  | string =>
    cases h
    exact .string v
  | date =>
    cases h
    exact .date v
  | boolean =>
    cases h
    exact .boolean v
  | array =>
    cases h
    exact .array v
  | number =>
    have hNumber : w = ((toNumber? v).map Value.ofNumber).getD v := by
      dsimp only at h
      unfold readNumber? at h
      split at h
      all_goals
        next hRead =>
        split at h
        · cases h
        · rw [hRead]
          exact (Option.some.inj h).symm
    rw [hNumber]
    exact .number v
  | object =>
    dsimp only at h
    split at h
    · next s =>
      cases h
      unfold ofJsonText
      cases hParse : Json.parse s with
      | ok parsed => exact .json hParse
      | error _ => exact .text hParse
    · next hNoText =>
      cases h
      exact .other hNoText

/-- A provided input is read, unless a dropdown has nothing chosen. -/
theorem exists_readInput? {kind : ValueKind} {v : Value} {dynamic : Bool}
    (hProvided : isUnprovided v = false)
    (hChosen : kind = .number → ∃ n, toNumber? v = some n ∧ n.isZero = false) :
    ∃ w, readInput? kind v dynamic = some w := by
  have hSome : ¬ isUnprovided v = true := Bool.eq_false_iff.mp hProvided
  unfold readInput?
  rw [if_neg hSome]
  cases kind with
  | number =>
    obtain ⟨n, hNumber, hNonzero⟩ := hChosen rfl
    refine ⟨.ofNumber n, ?_⟩
    simp only [readNumber?, hNumber, hNonzero, Bool.and_false, Bool.false_eq_true, if_false]
  | object =>
    dsimp only
    split <;> exact ⟨_, rfl⟩
  | _ => exact ⟨_, rfl⟩

/-! ## Places of a plan -/

/-- What a property of the body stores: its input as it is read, or its default. -/
def BodyPlan.stored? (b : BodyPlan) (inputs : Entries) (p : PropertyPlan) : Option Value :=
  (readInput? p.kind (Entries.getOrNull inputs p.name) p.dynamic).or (Entries.get? b.defaults p.name)

theorem RequestPlan.queryOf_eq_setEach (plan : RequestPlan) (inputs : Entries) :
    plan.queryOf inputs = Entries.setEach (·.name)
      (fun p => readInput? p.kind (Entries.getOrNull inputs p.name) false)
      plan.query.params plan.query.fixed := rfl

theorem BodyPlan.foldl_addProperty_eq_setEach (b : BodyPlan) (inputs : Entries) :
    b.properties.foldl (b.addProperty inputs) [] =
      Entries.setEach (·.name) (b.stored? inputs) b.properties [] := by
  refine List.foldl_ext _ _ _ fun acc p _ => ?_
  rw [addProperty, stored?]
  cases readInput? p.kind (Entries.getOrNull inputs p.name) p.dynamic with
  | some v => rfl
  | none => cases Entries.get? b.defaults p.name <;> rfl

namespace RequestPlan

/-- A plan takes an input for a value of some kind, with a dropdown or without. -/
inductive Takes (plan : RequestPlan) (inputs : Entries) : ValueKind → Value → Bool → Prop where
  | query {p : QueryParamPlan} : p ∈ plan.query.params →
    Takes plan inputs p.kind (Entries.getOrNull inputs p.name) false
  | body {b : BodyPlan} {p : PropertyPlan} : plan.body = some b → p ∈ b.properties →
    Takes plan inputs p.kind (Entries.getOrNull inputs p.name) p.dynamic
  | item {b : BodyPlan} {flatten : FlattenPlan} {p : PropertyPlan} : plan.body = some b →
    b.flatten = some flatten → p ∈ flatten.itemProperties →
    Takes plan inputs p.kind (inputAt inputs p.name flatten.groupKey) p.dynamic

/-- What an input that a plan takes is read as. -/
def Reads (plan : RequestPlan) (inputs : Entries) (w : Value) : Prop :=
  ∃ kind v dynamic, plan.Takes inputs kind v dynamic ∧ readInput? kind v dynamic = some w

/-- What holds of all that a request has of its inputs: of the query parameters for which there is
one, of the properties of the body, and of those of the item, which stands in its list. -/
structure Sends (plan : RequestPlan) (inputs : Entries) (P : Value → Prop) (r : PreparedRequest) :
    Prop where
  query : ∀ p ∈ plan.query.params,
    (readInput? p.kind (Entries.getOrNull inputs p.name) false).isSome = true →
    ∀ v, Entries.get? r.params p.name = some v → P v
  body : ∀ b ∈ plan.body, ∃ es, r.jsonBody = .map es ∧
    ∀ p ∈ b.properties, ∀ v, Entries.get? es p.name = some v → P v
  item : ∀ b ∈ plan.body, ∀ flatten ∈ b.flatten, ∃ es item, r.jsonBody = .map es ∧
    Entries.get? es flatten.arrayField = some (.list [.map item]) ∧
    ∀ p ∈ flatten.itemProperties, ∀ v, Entries.get? item p.name = some v → P v

/-- No two places of a plan write to the same entry of a request. -/
structure Apart (plan : RequestPlan) : Prop where
  query : (plan.query.params.map (·.name)).Nodup
  body : ∀ b ∈ plan.body, b.propertyNames.Nodup
  item : ∀ b ∈ plan.body, ∀ flatten ∈ b.flatten, (flatten.itemProperties.map (·.name)).Nodup
  beside : ∀ b ∈ plan.body, ∀ flatten ∈ b.flatten, flatten.arrayField ∉ b.propertyNames

end RequestPlan

/-! ## Without merges -/

namespace BodyPlan

variable {b : BodyPlan} {flatten : FlattenPlan}

theorem item_eq_setEach (hMerges : b.helperMerges = []) (inputs : Entries) :
    b.item flatten inputs = Entries.setEach (·.name)
      (fun p => readInput? p.kind (inputAt inputs p.name flatten.groupKey) p.dynamic)
      flatten.itemProperties [] := by
  unfold item
  rw [hMerges]
  rfl

/-- A body has its list of one item, and beside it what its properties store. -/
theorem get?_build_setEach (hMerges : b.helperMerges = []) (inputs : Entries) (key : String) :
    Entries.get? (b.build inputs) key =
      if ∃ flatten ∈ b.flatten, flatten.arrayField = key
      then (b.flatten.map fun flatten => .list [.map (b.item flatten inputs)])
      else Entries.get? (Entries.setEach (·.name) (b.stored? inputs) b.properties []) key := by
  unfold build
  rw [hMerges, foldl_addProperty_eq_setEach]
  cases b.flatten with
  | none => simp
  | some flatten =>
    show Entries.get? (Entries.set _ flatten.arrayField _) key = _
    rw [Entries.get?_set]
    simp

end BodyPlan

namespace RequestPlan

variable {plan : RequestPlan} {inputs auth : Entries} {P : Value → Prop}

theorem build_jsonBody {b : BodyPlan} (hb : plan.body = some b) :
    (plan.build inputs auth).jsonBody = .map (b.build inputs) := by
  rw [build]
  simp only [hb]

/-- **What holds of all that is read, and of defaults and lists, holds of all that is sent.** -/
theorem sends_of_reads (hMerges : ∀ b ∈ plan.body, b.helperMerges = [])
    (hLists : ∀ items, P (.list items))
    (hDefaults : ∀ b ∈ plan.body, ∀ name v, Entries.get? b.defaults name = some v → P v)
    (hReads : ∀ w, plan.Reads inputs w → P w) : plan.Sends inputs P (plan.build inputs auth) where
  query := by
    intro p hp hSome v hv
    have hQuery : (plan.build inputs auth).params = plan.queryOf inputs := rfl
    rw [hQuery, queryOf_eq_setEach] at hv
    obtain ⟨q, hq, -, hRead⟩ := Entries.exists_of_get?_setEach hp hSome hv
    exact hReads v ⟨_, _, _, .query hq, hRead⟩
  body := by
    intro b hb
    refine ⟨b.build inputs, build_jsonBody hb, fun p _ v hv => ?_⟩
    rw [BodyPlan.get?_build_setEach (hMerges b hb)] at hv
    split at hv
    · -- the list of the item has taken the place of the property
      obtain ⟨flatten, -, rfl⟩ := Option.map_eq_some_iff.mp hv
      exact hLists _
    · rcases Entries.mem_setEach (Entries.get?_eq_some_mem hv) with hNone | ⟨q, hq, -, hStored⟩
      · cases hNone
      · rcases Option.or_eq_some_iff.mp hStored with hRead | ⟨-, hDefault⟩
        · exact hReads v ⟨_, _, _, .body hb hq, hRead⟩
        · exact hDefaults b hb q.name v hDefault
  item := by
    intro b hb flatten hFlatten
    have hList : Entries.get? (b.build inputs) flatten.arrayField =
        some (.list [.map (b.item flatten inputs)]) :=
      BodyPlan.get?_build_arrayField hFlatten (by simp [hMerges b hb])
    refine ⟨_, _, build_jsonBody hb, hList, fun p _ v hv => ?_⟩
    rw [BodyPlan.item_eq_setEach (hMerges b hb)] at hv
    rcases Entries.mem_setEach (Entries.get?_eq_some_mem hv) with hNone | ⟨q, hq, -, hStored⟩
    · cases hNone
    · exact hReads v ⟨_, _, _, .item hb hFlatten hq, hStored⟩

/-- **Where no two places write to the same entry, all that is read is sent.** -/
theorem reads_of_sends (hMerges : ∀ b ∈ plan.body, b.helperMerges = []) (hApart : plan.Apart)
    (hSends : plan.Sends inputs P (plan.build inputs auth)) : ∀ w, plan.Reads inputs w → P w := by
  rintro w ⟨kind, v, dynamic, hTakes, hRead⟩
  -- in each of the three places the value that is read is the one that is found
  cases hTakes with
  | query hp =>
    refine hSends.query _ hp (by rw [hRead]; rfl) w ?_
    have hQuery : (plan.build inputs auth).params = plan.queryOf inputs := rfl
    rw [hQuery, queryOf_eq_setEach]
    exact Entries.get?_setEach_of_mem hApart.query hp hRead
  | @body b p hb hp =>
    obtain ⟨es, hBody, hAll⟩ := hSends.body b hb
    cases (build_jsonBody hb).symm.trans hBody
    refine hAll p hp w ?_
    rw [BodyPlan.get?_build_setEach (hMerges b hb), if_neg]
    · exact Entries.get?_setEach_of_mem (hApart.body b hb) hp
        (Option.or_eq_some_iff.mpr (Or.inl hRead))
    · rintro ⟨flatten, hFlatten, hSame⟩
      exact hApart.beside b hb flatten hFlatten (hSame ▸ List.mem_map_of_mem hp)
  | @item b flatten p hb hFlatten hp =>
    obtain ⟨es, item, hBody, hList, hAll⟩ := hSends.item b hb flatten hFlatten
    cases (build_jsonBody hb).symm.trans hBody
    have hItem : Entries.get? (b.build inputs) flatten.arrayField =
        some (.list [.map (b.item flatten inputs)]) :=
      BodyPlan.get?_build_arrayField hFlatten (by simp [hMerges b hb])
    cases hItem.symm.trans hList
    refine hAll p hp w ?_
    rw [BodyPlan.item_eq_setEach (hMerges b hb)]
    exact Entries.get?_setEach_of_mem (hApart.item b hb flatten hFlatten) hp hRead

end RequestPlan

end IntegrationCompiler
