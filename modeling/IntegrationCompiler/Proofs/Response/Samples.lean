import IntegrationCompiler.Proofs.Draft.Stages
import IntegrationCompiler.Proofs.Endpoint.Places
import IntegrationCompiler.Proofs.Field.Typed
import IntegrationCompiler.Response.OfEndpoint
import IntegrationCompiler.Response.Sample

/-!
# Samples from typed schemas

A typed schema has a sample whose keys are texts, and the stages of an action keep those keys of it
that are looked at. So credentials can always be left out.

* `Schema.sample_typed`, `sampleOf_typed` — the samples of schemas and responses;
* `Value.TopKeys` — the keys that are looked at; `Draft.refine_topKeys` — the stages keep them;
* `actionSample_topKeys`, `triggerSample_textKeys` — the samples of operations.
-/

namespace IntegrationCompiler

open Value Logged

/-! ## Samples of schemas -/

namespace Schema

variable {schema : Value}

theorem plainSample_typed (h : schema.Typed) : ∃ v, plainSample schema = .ok v ∧ v.TextKeys := by
  unfold plainSample
  split
  · exact ⟨_, rfl, everywhere_scalar _⟩
  split
  · exact ⟨_, rfl, everywhere_scalar _⟩
  split
  · split
    · -- the first member of an enumeration, which is not empty
      next v hPresent =>
      obtain rfl := eq_of_present? hPresent
      rcases (h.keyword "enum").enum rfl with hNull | ⟨items, hItems, hItemsTyped⟩
      · rw [hNull] at hPresent
        cases hPresent
      · rw [hItems] at hPresent ⊢
        cases items with
        | nil => cases hPresent
        | cons first rest => exact ⟨first, rfl, (hItemsTyped first List.mem_cons_self).1⟩
    · exact ⟨_, rfl, everywhere_scalar _⟩
  split
  · exact ⟨_, rfl, everywhere_scalar _⟩
  split
  · exact ⟨_, rfl, everywhere_scalar _⟩
  split
  · exact ⟨_, rfl, everywhere_list_iff.mpr nofun⟩
  · exact ⟨_, rfl, everywhere_scalar _⟩

theorem depth_lt_of_mem_properties {p : Scalar × Value} (hp : p ∈ properties schema) :
    p.2.depth < schema.depth := by
  unfold properties at hp
  split at hp
  · next inner hInner =>
    cases schema with
    | map es =>
      have hThere : Entries.getOrNull es "properties" = .map inner := hInner
      rcases getOrNull_eq_null_or_mem es "properties" with hNull | hMem
      · exact nomatch hNull.symm.trans hThere
      · rw [hThere] at hMem
        exact Nat.lt_trans (depth_lt_of_mem_entries (k := p.1) hp) (depth_lt_of_mem_entries hMem)
    | _ => cases hInner
  · cases hp

/-- A typed schema has a sample, if no more depth is needed than there is. -/
theorem sampleTo_typed {depth : Nat} (hDepth : schema.depth ≤ depth) (h : schema.Typed) :
    ∃ v, sampleTo depth schema = .ok v ∧ v.TextKeys := by
  induction depth generalizing schema with
  | zero => exact absurd schema.depth_pos (by omega)
  | succ depth ih =>
    rw [sampleTo, sampleWith]
    cases h with
    | null => exact ⟨_, rfl, everywhere_scalar _⟩
    | @schema es hEntries hProperties =>
      have hTyped : (Value.map es).Typed := .schema hEntries hProperties
      split
      · exact ⟨_, rfl, everywhere_scalar _⟩
      have hAsked : (Value.map es).contains? "example" = some (Entries.has es "example") := rfl
      rw [hAsked]
      dsimp only [orMalformed, pure, Except.pure, bind, Except.bind]
      split
      · -- the example of the schema
        next v hExample =>
        exact ⟨v, rfl, (hEntries _ (Entries.get?_eq_some_mem hExample)).shown rfl⟩
      split
      · -- a value for each property
        cases hFields : (properties (.map es)).mapM fun p => do
            let v ← sampleTo depth p.2
            .ok (p.1, v) with
        | error e =>
          obtain ⟨p, hp, hStep⟩ := error_of_mapM hFields
          obtain ⟨v, hv, -⟩ := ih (Nat.le_of_lt_succ (Nat.lt_of_lt_of_le
            (depth_lt_of_mem_properties hp) hDepth)) (hTyped.property_of_mem hp).2
          rw [hv] at hStep
          cases hStep
        | ok fields =>
          have hEach : ∀ field ∈ fields, (∃ s, field.1 = .str s) ∧ field.2.TextKeys := by
            intro field hField
            obtain ⟨p, hp, hStep⟩ := exists_left_of_mem (ok_of_mapM hFields) hField
            obtain ⟨v, hv, hKeys⟩ := ih (Nat.le_of_lt_succ (Nat.lt_of_lt_of_le
              (depth_lt_of_mem_properties hp) hDepth)) (hTyped.property_of_mem hp).2
            rw [hv] at hStep
            cases hStep
            exact ⟨(hTyped.property_of_mem hp).1, hKeys⟩
          refine ⟨.map fields, ?_, everywhere_map_iff.mpr
            ⟨fun field hField => (hEach field hField).1, fun field hField => (hEach field hField).2⟩⟩
          exact congrArg (fun made => made.bind fun fields => Except.ok (Value.map fields)) hFields
      · exact plainSample_typed hTyped

theorem sample_typed (h : schema.Typed) : ∃ v, sample schema = .ok v ∧ v.TextKeys :=
  sampleTo_typed (Nat.le_refl _) h

end Schema

/-! ## Samples of responses -/

theorem Endpoint.mem_of_successResponse? {e : Endpoint} {r : Response}
    (h : e.successResponse? = some r) : ∃ code, (code, r) ∈ e.responses := by
  have hMem {code : String} (hFound : e.responses.lookup code = some r) :
      (code, r) ∈ e.responses := by
    obtain ⟨before, after, hSplit, -⟩ := List.lookup_eq_some_iff.mp hFound
    exact hSplit ▸ List.mem_append_right _ List.mem_cons_self
  rcases Option.or_eq_some_iff.mp h with hFound | ⟨-, hFound⟩
  · exact ⟨_, hMem hFound⟩
  · exact ⟨_, hMem hFound⟩

theorem Response.sample_typed {r : Response} (hSchema : (schemaValue r.schema).Typed)
    (hExamples : ∀ shown ∈ r.examples, shown.2.TextKeys) :
    ∃ v, r.sample = .ok v ∧ v.TextKeys := by
  unfold sample
  split
  · next name es rest hShown =>
    have hKeys : TextKeys (.map es) := hExamples (name, .map es) (by rw [hShown]; simp)
    refine ⟨_, rfl, ?_⟩
    cases hValue : Entries.get? es "value" with
    | none => exact hKeys
    | some v => exact hKeys.within (within_of_mem (Entries.get?_eq_some_mem hValue))
  · exact Schema.sample_typed (typed_optionalEntries hSchema)
  · exact Schema.sample_typed (typed_optionalEntries hSchema)
  · next name v rest _ _ hShown =>
    exact ⟨v, rfl, hExamples (name, v) (by rw [hShown]; simp)⟩

/-- An endpoint that carries typed schemas has a sample of its answer. -/
theorem sampleOf_typed {e : Endpoint} (h : e.Carries Typed TextKeys) :
    ∃ v, sampleOf e.successResponse? = .ok v ∧ v.TextKeys := by
  cases hResponse : e.successResponse? with
  | none => exact ⟨_, rfl, everywhere_scalar _⟩
  | some r =>
    obtain ⟨code, hMem⟩ := Endpoint.mem_of_successResponse? hResponse
    exact Response.sample_typed (h.responses _ hMem) (h.examples _ hMem)

/-! ## Keys that are looked at -/

/-- The keys of the value, or of the first item of a list, are texts. -/
structure Value.TopKeys (v : Value) : Prop where
  own : ∀ es, v = .map es → ∀ e ∈ es, ∃ s, e.1 = .str s
  first : ∀ es rest, v = .list (.map es :: rest) → ∀ e ∈ es, ∃ s, e.1 = .str s

theorem Value.topKeys_map {es : Entries} (h : ∀ e ∈ es, ∃ s, e.1 = .str s) :
    TopKeys (.map es) where
  own _ hSame := by
    cases hSame
    exact h
  first _ _ hSame := nomatch hSame

theorem Value.TextKeys.top {v : Value} (h : v.TextKeys) : v.TopKeys where
  own := by
    rintro es rfl
    exact (everywhere_map_iff.mp h).1
  first := by
    rintro es rest rfl
    exact (everywhere_map_iff.mp (everywhere_list_iff.mp h _ List.mem_cons_self)).1

theorem Value.dropKeys_topKeys {names : List String} {v : Value} (h : v.TopKeys) :
    (v.dropKeys names).TopKeys := by
  cases v with
  | map es => exact topKeys_map fun e he => h.own es rfl e (List.mem_of_mem_filter he)
  | list items =>
    refine ⟨nofun, fun es rest hSame => ?_⟩
    cases items with
    | nil => cases hSame
    | cons first others =>
      cases first with
      | map inner =>
        cases hSame
        exact fun e he => h.first inner others rfl e (List.mem_of_mem_filter he)
      | _ => cases hSame
  | _ => exact h

namespace Draft

variable {scope : Scope} {d d' : Draft}

theorem regroupSample_topKeys {arrayField group : String} {itemNames kept : List String}
    {sample : Value} (h : sample.TopKeys) :
    (regroupSample scope arrayField group itemNames kept sample).TopKeys := by
  unfold regroupSample
  split
  · split
    · next es _ item _ _ =>
      -- the group has a name, and so has everything that is put beside it
      refine topKeys_map (List.foldlRecOn kept _
        (motive := fun (acc : Entries) => ∀ e ∈ acc, ∃ s, e.1 = Scalar.str s) ?_ ?_)
      · exact List.forall_mem_singleton.mpr ⟨group, rfl⟩
      · intro acc hAcc name _
        split
        · rintro ⟨k, v⟩ he
          rcases Entries.key_of_mem_put he with rfl | ⟨w, hw⟩
          · exact ⟨name, rfl⟩
          · exact hAcc (k, w) hw
        · exact hAcc
    · exact h
  · exact h

theorem flattenedSample_topKeys {config : FlattenConfig} {kept : List String}
    {itemFields : List Field} {sample : Value} (h : sample.TopKeys) :
    (flattenedSample scope config kept itemFields sample).TopKeys := by
  unfold flattenedSample
  split
  · exact regroupSample_topKeys h
  · exact h

theorem apply_topKeys {stage : Stage} (hd : d.sample.TopKeys)
    (h : (stage.apply scope d).Returns d') : d'.sample.TopKeys := by
  cases stage with
  | visibility =>
    rw [returns_pure h]
    unfold hide
    dsimp only
    split
    · exact hd
    · exact dropKeys_topKeys hd
  | flattening =>
    rcases apply_flattening_returns h with ⟨config, additional, -, hFlatten⟩ | ⟨-, rfl⟩
    · obtain ⟨kept, itemFields, _, _, _, -, -, -, -, rfl⟩ := flatten_returns hFlatten
      dsimp only
      exact flattenedSample_topKeys hd
    · exact hd
  | helpers =>
    obtain ⟨a, -, rfl⟩ := addHelpers_returns h
    exact hd
  | dropdowns =>
    obtain ⟨bound, -, rfl⟩ := bindDropdowns_returns h
    exact hd
  | defaults =>
    refine addDefaults_invariant (I := fun d => d.sample.TopKeys) hd (fun _ _ d d' hd hStep => ?_) h
    rcases setDefault_returns hStep with rfl | ⟨_, rfl⟩ | rfl
    · exact hd
    · exact hd
    · exact hd

/-- The stages keep the keys of a sample that are looked at. -/
theorem refine_topKeys (hd : d.sample.TopKeys) (h : (d.refine scope).Returns d') :
    d'.sample.TopKeys :=
  refine_invariant (I := fun d => d.sample.TopKeys) hd
    (fun _ _ _ hStart hStep => apply_topKeys hStart hStep) h

end Draft

/-! ## Samples of operations -/

theorem withoutSensitive_texts {sample : Entries} {e : Failure}
    (h : ∀ entry ∈ sample, ∃ s, entry.1 = .str s) : withoutSensitive sample ≠ .error e := by
  intro hError
  obtain ⟨⟨k, v⟩, hMem, hStep⟩ := error_of_filterM hError
  obtain ⟨s, hKey⟩ := h _ hMem
  dsimp only at hKey hStep
  subst hKey
  cases hStep

theorem objectOrEmpty_head {items : List Value} (h : TopKeys (.list items)) :
    ∀ e ∈ objectOrEmpty (items.headD .null), ∃ s, e.1 = .str s := by
  cases items with
  | nil => exact nofun
  | cons first rest =>
    cases first with
    | map es => exact h.first es rest rfl
    | _ => exact nofun

theorem actionSample_topKeys {raw : Value} {e : Failure} (h : raw.TopKeys) :
    actionSample raw ≠ .error e := by
  intro hError
  rcases error_of_bind hError with hKept | ⟨kept, -, hError⟩
  · refine withoutSensitive_texts ?_ hKept
    split
    · exact objectOrEmpty_head h
    · exact h.own _ rfl
    · exact nofun
    · exact List.forall_mem_singleton.mpr ⟨"value", rfl⟩
  · cases hError

theorem firstListed?_within {es : Entries} {v : Value} (h : firstListed? es = some v) :
    ∃ key w, (key, w) ∈ es ∧ Within v w := by
  induction es using firstListed?.induct with
  | case1 => cases h
  | case2 k first rest more =>
    cases h
    exact ⟨k, _, List.mem_cons_self, .item List.mem_cons_self (.self _)⟩
  | case3 e rest hOther ih =>
    rw [firstListed?] at h
    · obtain ⟨key, w, hMem, hInner⟩ := ih h
      exact ⟨key, w, List.mem_cons_of_mem _ hMem, hInner⟩
    · exact hOther

theorem triggerSample_textKeys {raw : Value} {e : Failure} (h : raw.TextKeys) :
    triggerSample raw ≠ .error e := by
  intro hError
  rcases error_of_bind hError with hKept | ⟨kept, -, hError⟩
  · refine withoutSensitive_texts ?_ hKept
    split
    · exact objectOrEmpty_head h.top
    · next es =>
      split
      · next item hFirst =>
        obtain ⟨key, w, hMem, hWithin⟩ := firstListed?_within hFirst
        exact (everywhere_map_iff.mp (h.within (.entry hMem hWithin))).1
      · exact List.forall_mem_singleton.mpr ⟨"value", rfl⟩
      · exact h.top.own es rfl
    · exact nofun
    · exact List.forall_mem_singleton.mpr ⟨"value", rfl⟩
  · cases hError

end IntegrationCompiler
