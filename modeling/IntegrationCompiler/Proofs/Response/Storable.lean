import IntegrationCompiler.Proofs.Json.Stored
import IntegrationCompiler.Proofs.Response.Samples

/-!
# Samples and pages that can be stored

A sample is an example, a part of one, or made from a schema. So it can be stored, if the schemas
and the examples can be. The size of a page is made from a number, and has a text if that has one.

* `Schema.sampleTo_storable`, `sampleOf_storable` — the samples of schemas and responses;
* `actionSample_storable`, `triggerSample_storable` — the samples of operations;
* `PaginationPlan.ofEndpoint?_storable` — the sizes of pages.
-/

namespace IntegrationCompiler

open Value Logged

/-! ## Parts of values -/

theorem Entries.exists_mem_of_find? {key : Scalar} {es : Entries} {v : Value}
    (h : find? key es = some v) : ∃ k, (k, v) ∈ es := by
  induction es with
  | nil => cases h
  | cons e rest ih =>
    obtain ⟨k, w⟩ := e
    rw [find?] at h
    split at h
    · cases h
      exact ⟨k, List.mem_cons_self⟩
    · obtain ⟨k', hMem⟩ := ih h
      exact ⟨k', List.mem_cons_of_mem _ hMem⟩

/-- A mapping may get new values, made from its values one by one. -/
theorem Value.Storable.mapValues {es fields : Entries} (h : Storable (.map es))
    (hEach : List.Forall₂ (fun e field => e.2.Storable → field.1 = e.1 ∧ field.2.Storable)
      es fields) : Storable (.map fields) := by
  obtain ⟨hTexts, hDistinct, hValues⟩ := storable_map_iff.mp h
  clear h
  have hSame : fields.map Prod.fst = es.map Prod.fst ∧ ∀ field ∈ fields, field.2.Storable := by
    clear hTexts hDistinct
    induction hEach with
    | nil => exact ⟨rfl, nofun⟩
    | cons hPair _ ih =>
      rw [List.forall_mem_cons] at hValues
      obtain ⟨hKey, hValue⟩ := hPair hValues.1
      obtain ⟨hKeys, hRest⟩ := ih hValues.2
      rw [List.map_cons, List.map_cons, hKey, hKeys]
      exact ⟨rfl, List.forall_mem_cons.mpr ⟨hValue, hRest⟩⟩
  refine storable_map_iff.mpr ⟨?_, hSame.1 ▸ hDistinct, hSame.2⟩
  rw [← List.forall_mem_map (P := fun k => ∃ name, k = Scalar.str name) (f := Prod.fst), hSame.1]
  exact List.forall_mem_map.mpr hTexts

theorem Value.Storable.first? {v w : Value} (h : v.Storable) (hFirst : v.first? = some w) :
    w.Storable := by
  unfold Value.first? at hFirst
  split at hFirst
  · next items =>
    obtain ⟨rest, rfl⟩ := List.head?_eq_some_iff.mp hFirst
    exact storable_list_iff.mp h w List.mem_cons_self
  · next es =>
    obtain ⟨k, hMem⟩ := Entries.exists_mem_of_find? hFirst
    exact h.within (within_of_mem hMem)
  · obtain ⟨c, -, rfl⟩ := Option.map_eq_some_iff.mp hFirst
    exact storable_str _
  · cases h.json
  · cases hFirst

namespace Schema

variable {schema v : Value}

theorem storable_entry (h : schema.Storable) (key : String) : (entry schema key).Storable := by
  unfold entry
  split
  · rcases getOrNull_eq_null_or_mem _ key with hNull | hMem
    · rw [hNull]
      exact storable_null
    · exact h.within (within_of_mem hMem)
  · exact storable_null

theorem storable_properties (h : schema.Storable) : (Value.map (properties schema)).Storable := by
  have hEntry := storable_entry h "properties"
  unfold properties
  split
  · next es hEs => rwa [hEs] at hEntry
  · exact storable_map_iff.mpr ⟨nofun, .nil, nofun⟩

theorem plainSample_storable (h : schema.Storable) (hSample : plainSample schema = .ok v) :
    v.Storable := by
  unfold plainSample at hSample
  split at hSample
  · cases hSample
    exact storable_str _
  split at hSample
  · cases hSample
    exact storable_str _
  split at hSample
  · split at hSample
    · next members hPresent =>
      obtain rfl := eq_of_present? hPresent
      cases hFirst : (entry schema "enum").first? with
      | none =>
        rw [hFirst] at hSample
        cases hSample
      | some first =>
        rw [hFirst] at hSample
        cases hSample
        exact (storable_entry h "enum").first? hFirst
    · cases hSample
      exact storable_str _
  split at hSample
  · cases hSample
    exact storable_smallInt (by decide)
  split at hSample
  · cases hSample
    exact storable_bool _
  split at hSample
  · cases hSample
    exact storable_list_iff.mpr nofun
  · cases hSample
    exact storable_null

theorem sampleTo_storable {depth : Nat} (h : schema.Storable)
    (hSample : sampleTo depth schema = .ok v) : v.Storable := by
  induction depth generalizing schema v with
  | zero => cases hSample
  | succ depth ih =>
    rw [sampleTo, sampleWith] at hSample
    split at hSample
    · cases hSample
      exact storable_null
    obtain ⟨given, -, hSample⟩ := ok_of_bind hSample
    -- what the schema shows comes first, then its properties, then what its type has
    split at hSample
    · next es _ =>
      split at hSample
      · next shown hShown =>
        cases hSample
        exact h.get? hShown
      split at hSample
      · obtain ⟨fields, hFields, hSample⟩ := ok_of_bind hSample
        cases hSample
        refine (storable_properties h).mapValues ((ok_of_mapM hFields).imp ?_)
        intro p field hField hp
        obtain ⟨w, hw, hField⟩ := ok_of_bind hField
        cases hField
        exact ⟨rfl, ih hp hw⟩
      · exact plainSample_storable h hSample
    · split at hSample
      · cases hSample
      · cases hSample
        exact storable_null

end Schema

theorem Response.sample_storable {r : Response} {v : Value}
    (hSchema : (schemaValue r.schema).Storable) (hExamples : ∀ shown ∈ r.examples, shown.2.Storable)
    (h : r.sample = .ok v) : v.Storable := by
  have hMade (h : Schema.sample (schemaValue r.schema) = .ok v) : v.Storable :=
    Schema.sampleTo_storable hSchema h
  unfold sample at h
  split at h
  · next name es rest hShown =>
    cases h
    have hFirst : (Value.map es).Storable := hExamples (name, .map es) (by rw [hShown]; simp)
    cases hValue : Entries.get? es "value" with
    | none => exact hFirst
    | some v => exact hFirst.get? hValue
  · exact hMade h
  · exact hMade h
  · next name v rest _ _ hShown =>
    cases h
    exact hExamples (name, _) (by rw [hShown]; simp)

theorem sampleOf_storable {e : Endpoint} {v : Value} (he : e.Carries Storable Storable)
    (h : sampleOf e.successResponse? = .ok v) : v.Storable := by
  cases hResponse : e.successResponse? with
  | none =>
    rw [hResponse] at h
    cases h
    exact storable_null
  | some r =>
    rw [hResponse] at h
    obtain ⟨code, hMem⟩ := Endpoint.mem_of_successResponse? hResponse
    exact Response.sample_storable (he.responses _ hMem) (he.examples _ hMem) h

theorem storable_boxed {name : String} {v : Value} (h : v.Storable) :
    Storable (.map [(.str name, v)]) :=
  storable_map_iff.mpr ⟨List.forall_mem_singleton.mpr ⟨name, rfl⟩, List.nodup_singleton _,
    List.forall_mem_singleton.mpr h⟩

theorem storable_empty : Storable (.map []) :=
  storable_map_iff.mpr ⟨nofun, .nil, nofun⟩

theorem storable_objectOrEmpty {items : List Value} (h : Storable (.list items)) :
    Storable (.map (objectOrEmpty (items.headD .null))) := by
  cases items with
  | nil => exact storable_empty
  | cons first rest =>
    have hFirst := storable_list_iff.mp h first List.mem_cons_self
    cases first with
    | map es => exact hFirst
    | _ => exact storable_empty

theorem storable_orEmptySample {sample : Entries} (h : Storable (.map sample)) :
    Storable (.map (orEmptySample sample)) := by
  unfold orEmptySample
  split
  · exact storable_boxed (storable_smallInt (by decide))
  · exact h

theorem storable_withId {sample : Entries} (h : Storable (.map sample)) :
    Storable (.map (withId sample)) := by
  unfold withId
  split
  · exact h
  · refine h.set ?_ "id"
    cases hFound : idAliases.findSome? fun name => Entries.get? sample name with
    | none => exact storable_smallInt (by decide)
    | some v =>
      obtain ⟨name, -, hName⟩ := List.exists_of_findSome?_eq_some hFound
      exact h.get? hName

theorem actionSample_storable {raw : Value} {sample : Entries} (hRaw : raw.Storable)
    (h : actionSample raw = .ok sample) : Storable (.map sample) := by
  obtain ⟨kept, hKept, h⟩ := ok_of_bind h
  cases h
  refine storable_orEmptySample (Storable.sublist ?_ (sublist_of_filterM hKept))
  split
  · exact storable_objectOrEmpty hRaw
  · exact hRaw
  · exact storable_empty
  · exact storable_boxed hRaw

theorem triggerSample_storable {raw : Value} {sample : Entries} (hRaw : raw.Storable)
    (h : triggerSample raw = .ok sample) : Storable (.map sample) := by
  obtain ⟨kept, hKept, h⟩ := ok_of_bind h
  cases h
  refine storable_withId (storable_orEmptySample (Storable.sublist ?_ (sublist_of_filterM hKept)))
  split
  · exact storable_objectOrEmpty hRaw
  · next es =>
    have hFirst {v : Value} (h : firstListed? es = some v) : v.Storable := by
      obtain ⟨key, w, hMem, hWithin⟩ := firstListed?_within h
      exact hRaw.within (.entry hMem hWithin)
    split
    · next hListed => exact hFirst hListed
    · next hListed => exact storable_boxed (hFirst hListed)
    · exact hRaw
  · exact storable_empty
  · exact storable_boxed hRaw

/-! ## Pages -/

/-- What a value that can be stored stands for as a number is in range. -/
theorem toNumber?_inRange {v : Value} (hv : v.Storable) {n : Number} (h : toNumber? v = some n) :
    n.InRange := by
  obtain ⟨hNumber, -⟩ := Option.filter_eq_some_iff.mp h
  split at hNumber
  · cases hNumber
    exact hv.kept _ (.self _)
  · cases hNumber
    exact (hv.kept _ (.self _) : Json.ReadsBack _).inRange
  · exact Number.inRange_ofNumeral? hNumber
  · cases hNumber

theorem pageSizeOf_lt {configured : Value} (h : configured.Storable) {size : Int}
    (hSize : pageSizeOf configured = .ok size) : size.natAbs < 10 ^ Number.maxIntegerDigits := by
  have hUsual : usualPageSize.natAbs < 10 ^ Number.maxIntegerDigits :=
    Number.length_toDigits_le_iff.mp (by decide)
  unfold pageSizeOf at hSize
  split at hSize
  · cases hSize
    exact hUsual
  · next n hNumber =>
    have hRange := toNumber?_inRange h hNumber
    split at hSize
    · cases hSize
      exact hUsual
    split at hSize
    · cases hSize
      exact hRange
    · next x =>
      -- a double has far fewer digits than an integer may have
      have hTen (k : Nat) : 2 ^ k ≤ 10 ^ k := Nat.pow_le_pow_left (by decide) k
      have hWhole := Nat.lt_of_lt_of_le (hRange size (ok_of_orMalformed hSize)) (hTen _)
      exact Nat.lt_of_lt_of_le hWhole (Nat.pow_le_pow_right (by decide) (by decide))

/-- Pages have sizes that can be stored, if what is fixed in the query can be. -/
theorem PaginationPlan.ofEndpoint?_storable {e : Endpoint} {extraction : ArrayExtraction}
    {hidden : Bool} {fixed : Entries} {made : Option PaginationPlan}
    (hFixed : (Value.map fixed).Storable)
    (h : (ofEndpoint? e extraction hidden fixed).Returns made) :
    ∀ p ∈ made, p.pageSize.natAbs < 10 ^ Number.maxIntegerDigits := by
  unfold ofEndpoint? at h
  dsimp only at h
  split at h
  · cases returns_pure h
    exact nofun
  · obtain ⟨size, hSize, h⟩ := returns_bind h
    obtain ⟨-, -, h⟩ := returns_bind h
    cases returns_pure h
    rintro p ⟨rfl⟩
    refine pageSizeOf_lt ?_ (returns_liftExcept hSize)
    rcases getOrNull_eq_null_or_mem fixed "limit" with hNull | hMem
    · rw [hNull]
      exact storable_null
    · exact hFixed.within (within_of_mem hMem)

end IntegrationCompiler
