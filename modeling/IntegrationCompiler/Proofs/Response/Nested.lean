import IntegrationCompiler.Proofs.Response.Samples

/-!
# Keys inside samples

The sample of an operation is an object of its payload, with some entries left out and others put in
place. So the objects inside it have no keys but those of objects inside the payload.

Main definitions:

* `Value.HasKey` — a key stands in a value, at whatever depth;
* `Value.NestsKey` — it stands strictly inside the value.

Main results: `actionSample_nestsKey`, `triggerSample_nestsKey`.
-/

namespace IntegrationCompiler

open Value

namespace Value

/-- The key stands in a mapping that occurs in the value. -/
def HasKey (k : Scalar) (v : Value) : Prop :=
  ∃ es w, Within (.map es) v ∧ (k, w) ∈ es

/-- The key stands in a mapping that occurs strictly inside the value. -/
inductive NestsKey (k : Scalar) : Value → Prop where
  | item {v : Value} {items : List Value} : v ∈ items → HasKey k v → NestsKey k (.list items)
  | entry {e : Scalar × Value} {es : Entries} : e ∈ es → HasKey k e.2 → NestsKey k (.map es)

variable {k : Scalar}

theorem HasKey.within {u v : Value} (h : HasKey k u) (hWithin : Within u v) : HasKey k v := by
  obtain ⟨es, w, hInner, hMem⟩ := h
  exact ⟨es, w, hInner.trans hWithin, hMem⟩

@[simp] theorem not_hasKey_scalar (s : Scalar) : ¬ HasKey k (.scalar s) := by
  rintro ⟨es, w, hWithin, -⟩
  exact nomatch within_scalar_iff.mp hWithin

@[simp] theorem not_hasKey_set (members : List Scalar) : ¬ HasKey k (.set members) := by
  rintro ⟨es, w, hWithin, -⟩
  cases hWithin

@[simp] theorem nestsKey_map_iff {es : Entries} :
    NestsKey k (.map es) ↔ ∃ e ∈ es, HasKey k e.2 := by
  constructor
  · intro h
    cases h with
    | entry hMem hKey => exact ⟨_, hMem, hKey⟩
  · rintro ⟨e, hMem, hKey⟩
    exact .entry hMem hKey

@[simp] theorem hasKey_list_iff {items : List Value} :
    HasKey k (.list items) ↔ ∃ v ∈ items, HasKey k v := by
  constructor
  · rintro ⟨es, w, hWithin, hMem⟩
    rcases within_list_iff.mp hWithin with hSame | ⟨v, hv, hInner⟩
    · cases hSame
    · exact ⟨v, hv, es, w, hInner, hMem⟩
  · rintro ⟨v, hv, hKey⟩
    exact hKey.within (.item hv (.self v))

/-- A key of a mapping stands in the mapping itself or strictly inside it. -/
theorem hasKey_map_iff {es : Entries} :
    HasKey k (.map es) ↔ (∃ w, (k, w) ∈ es) ∨ NestsKey k (.map es) := by
  constructor
  · rintro ⟨inner, w, hWithin, hMem⟩
    rcases within_map_iff.mp hWithin with hSame | ⟨e, he, hInner⟩
    · cases hSame
      exact .inl ⟨w, hMem⟩
    · exact .inr (.entry he ⟨inner, w, hInner, hMem⟩)
  · rintro (⟨w, hMem⟩ | hNested)
    · exact ⟨es, w, .self _, hMem⟩
    · obtain ⟨e, he, hKey⟩ := nestsKey_map_iff.mp hNested
      exact hKey.within (within_of_mem (k := e.1) he)

theorem NestsKey.hasKey {v : Value} (h : NestsKey k v) : HasKey k v := by
  cases h with
  | item hMem hKey => exact hKey.within (.item hMem (.self _))
  | @entry e _ hMem hKey => exact hKey.within (within_of_mem (k := e.1) hMem)

theorem HasKey.subset {es es' : Entries} (h : HasKey k (.map es)) (hSubset : es ⊆ es') :
    HasKey k (.map es') := by
  rcases hasKey_map_iff.mp h with ⟨w, hMem⟩ | hNested
  · exact hasKey_map_iff.mpr (.inl ⟨w, hSubset hMem⟩)
  · obtain ⟨e, he, hKey⟩ := nestsKey_map_iff.mp hNested
    exact hKey.within (within_of_mem (k := e.1) (hSubset he))

theorem NestsKey.subset {es es' : Entries} (h : NestsKey k (.map es)) (hSubset : es ⊆ es') :
    NestsKey k (.map es') := by
  obtain ⟨e, he, hKey⟩ := nestsKey_map_iff.mp h
  exact .entry (hSubset he) hKey

/-- What stands inside a mapping that has got one more entry stood inside it, or in the entry. -/
theorem NestsKey.of_set {es : Entries} {name : String} {v : Value}
    (h : NestsKey k (.map (es.set name v))) : HasKey k v ∨ NestsKey k (.map es) := by
  obtain ⟨⟨key, w⟩, he, hKey⟩ := nestsKey_map_iff.mp h
  rcases Entries.mem_put he with ⟨rfl, -⟩ | hOld
  · exact .inl hKey
  · exact .inr (.entry hOld hKey)

end Value

variable {k : Scalar}

theorem nestsKey_orEmptySample {kept : Entries} (h : NestsKey k (.map (orEmptySample kept))) :
    NestsKey k (.map kept) := by
  unfold orEmptySample at h
  split at h
  · simp [emptySample] at h
  · exact h

theorem nestsKey_withoutSensitive {sample kept : Entries} (hKept : withoutSensitive sample = .ok kept)
    (h : NestsKey k (.map kept)) : NestsKey k (.map sample) := by
  rw [filter_of_filterM hKept] at h
  exact h.subset (List.filter_subset_self _)

/-- The first item of a list shows nothing inside but what is inside the list. -/
theorem nestsKey_first {items : List Value}
    (h : NestsKey k (.map (objectOrEmpty (items.headD .null)))) : NestsKey k (.list items) := by
  cases items with
  | nil => simp [objectOrEmpty] at h
  | cons first rest =>
    cases first with
    | map es => exact .item List.mem_cons_self h.hasKey
    | _ => simp [objectOrEmpty] at h

theorem nestsKey_withId {sample : Entries} (h : NestsKey k (.map (withId sample))) :
    NestsKey k (.map sample) := by
  unfold withId at h
  split at h
  · exact h
  · rcases h.of_set with hId | hOld
    · -- the `id` is a copy of another entry, or zero
      cases hFound : idAliases.findSome? fun name => Entries.get? sample name with
      | none => simp [hFound] at hId
      | some v =>
        obtain ⟨name, -, hName⟩ := List.exists_of_findSome?_eq_some hFound
        rw [hFound, Option.getD_some] at hId
        exact .entry (Entries.get?_eq_some_mem hName) hId
    · exact hOld

/-- **The sample of an action nests no keys but those of its payload.** -/
theorem actionSample_nestsKey {raw : Value} {sample : Entries} (hSample : actionSample raw = .ok sample)
    (h : NestsKey k (.map sample)) : NestsKey k raw := by
  obtain ⟨kept, hKept, hSame⟩ := ok_of_bind hSample
  cases hSame
  have hShown := nestsKey_withoutSensitive hKept (nestsKey_orEmptySample h)
  cases raw with
  | list items => exact nestsKey_first hShown
  | map es => exact hShown
  | set members => simp [boxed] at hShown
  | scalar s => cases s <;> simp [boxed] at hShown

/-- **The sample of a trigger nests no keys but those of its payload.** -/
theorem triggerSample_nestsKey {raw : Value} {sample : Entries}
    (hSample : triggerSample raw = .ok sample) (h : NestsKey k (.map sample)) : NestsKey k raw := by
  obtain ⟨kept, hKept, hSame⟩ := ok_of_bind hSample
  cases hSame
  have hShown := nestsKey_withoutSensitive hKept (nestsKey_orEmptySample (nestsKey_withId h))
  cases raw with
  | list items => exact nestsKey_first hShown
  | map es =>
    have hListed {v : Value} (hFirst : firstListed? es = some v) (hKey : HasKey k v) :
        NestsKey k (.map es) := by
      obtain ⟨key, w, hMem, hWithin⟩ := firstListed?_within hFirst
      exact .entry hMem (hKey.within hWithin)
    dsimp only at hShown
    split at hShown
    · next item hFirst => exact hListed hFirst hShown.hasKey
    · next v _ hFirst =>
      refine hListed hFirst ?_
      simpa [boxed] using hShown
    · exact hShown
  | set members => simp [boxed] at hShown
  | scalar s => cases s <;> simp [boxed] at hShown

end IntegrationCompiler
