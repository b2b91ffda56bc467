import IntegrationCompiler.Proofs.Reference.Steps
import IntegrationCompiler.Proofs.Value.Tree

/-!
# The parts of a schema

Which inner schemas and which reference the expansion of a schema can ask for. The rules of a
resolver look nowhere else: two runs of the rules that agree on the parts and on the reference agree
on the schema (`expandWith_agrees`).

* `Value.ref?`, `Value.parts` — the reference that a schema is, and the schemas directly inside;
* `Value.refs` — every reference that is written anywhere in a value;
* `Resolver.referent` — what a reference names, apart from the remarks.
-/

namespace IntegrationCompiler

/-! ## What a schema asks for -/

namespace Value

/-- The reference that a schema is. -/
def ref? : Value → Option String
  | .map schema =>
    match Entries.get? schema "$ref" with
    | some (.str ref) => some ref
    | _ => none
  | _ => none

/-- The values of a mapping. -/
def entryValues : Value → List Value
  | .map entries => entries.map Prod.snd
  | _ => []

/-- What is met when the value at a key is walked through. -/
def itemsUnder (schema : Entries) (key : String) : List Value :=
  (Entries.getOrNull schema key).walk?.getD []

/-- Nothing is met in what does not count as present. -/
theorem walk?_of_not_truthy {v : Value} (h : v.truthy = false) : v.walk?.getD [] = [] := by
  cases v with
  | list items => cases items <;> trivial
  | map entries => cases entries <;> trivial
  | set members => cases members <;> trivial
  | scalar s =>
    cases s with
    | str s =>
      obtain rfl := String.isEmpty_iff.mp (Bool.not_eq_false' _ ▸ h)
      rfl
    | bytes octets => cases octets <;> trivial
    | _ => rfl

/-- The inner schemas under one keyword. -/
def keywordParts (key : Scalar) (v : Value) : List Value :=
  match v with
  | .map inner =>
    if key = .str "properties" then inner.map Prod.snd
    else if innerKeywords.any fun name => key = .str name then [v]
    else []
  | _ => []

/-- The inner schemas that the expansion of a schema can ask for. -/
def parts : Value → List Value
  | .map schema =>
    if Entries.has schema "$ref" then []
    else if Entries.has schema "allOf" then
      itemsUnder schema "allOf" ++ (Entries.getOrNull schema "properties").entryValues
    else if Entries.has schema "oneOf" then itemsUnder schema "oneOf"
    else if Entries.has schema "anyOf" then itemsUnder schema "anyOf"
    else schema.flatMap fun (key, v) => keywordParts key v
  | _ => []

/-- The keywords that make a schema a reference or a composition. -/
def indirectKeys : List String := ["$ref", "allOf", "oneOf", "anyOf"]

/-- The schema is neither a reference nor a composition. -/
def Direct (schema : Entries) : Prop :=
  ∀ key ∈ indirectKeys, Entries.has schema key = false

instance (schema : Entries) : Decidable (Direct schema) :=
  inferInstanceAs (Decidable (∀ key ∈ indirectKeys, Entries.has schema key = false))

theorem Direct.has {schema : Entries} (h : Direct schema) :
    Entries.has schema "$ref" = false ∧ Entries.has schema "allOf" = false ∧
      Entries.has schema "oneOf" = false ∧ Entries.has schema "anyOf" = false :=
  ⟨h _ (by simp [indirectKeys]), h _ (by simp [indirectKeys]), h _ (by simp [indirectKeys]),
    h _ (by simp [indirectKeys])⟩

/-- What the rules for a schema go by. -/
inductive Form (schema : Entries) : Prop where
  | reference (v : Value) : Entries.get? schema "$ref" = some v → Form schema
  | union : Entries.has schema "$ref" = false → Entries.has schema "allOf" = true → Form schema
  | choice (keyword : String) : Entries.has schema "$ref" = false →
    Entries.has schema "allOf" = false →
    (keyword = "oneOf" ∧ Entries.has schema "oneOf" = true ∨
      keyword = "anyOf" ∧ Entries.has schema "oneOf" = false ∧
        Entries.has schema "anyOf" = true) → Form schema
  | direct : Direct schema → Form schema

theorem form (schema : Entries) : Form schema := by
  cases hRef : Entries.get? schema "$ref" with
  | some v => exact .reference v hRef
  | none =>
    have hNoRef : Entries.has schema "$ref" = false := by
      rw [Entries.has, hRef]
      rfl
    cases hAll : Entries.has schema "allOf" with
    | true => exact .union hNoRef hAll
    | false =>
      cases hOne : Entries.has schema "oneOf" with
      | true => exact .choice "oneOf" hNoRef hAll (Or.inl ⟨rfl, hOne⟩)
      | false =>
        cases hAny : Entries.has schema "anyOf" with
        | true => exact .choice "anyOf" hNoRef hAll (Or.inr ⟨rfl, hOne, hAny⟩)
        | false =>
          refine .direct fun key hKey => ?_
          rw [indirectKeys] at hKey
          simp only [List.mem_cons, List.not_mem_nil, or_false] at hKey
          rcases hKey with rfl | rfl | rfl | rfl
          · exact hNoRef
          · exact hAll
          · exact hOne
          · exact hAny

theorem parts_of_reference {schema : Entries} {v : Value}
    (h : Entries.get? schema "$ref" = some v) : (Value.map schema).parts = [] := by
  have hHas : Entries.has schema "$ref" = true := by
    rw [Entries.has, h]
    rfl
  rw [parts, if_pos hHas]

theorem parts_of_union {schema : Entries} (hRef : Entries.has schema "$ref" = false)
    (hAll : Entries.has schema "allOf" = true) :
    (Value.map schema).parts =
      itemsUnder schema "allOf" ++ (Entries.getOrNull schema "properties").entryValues := by
  rw [parts, hRef, hAll]
  rfl

theorem parts_of_choice {schema : Entries} {keyword : String}
    (hRef : Entries.has schema "$ref" = false) (hAll : Entries.has schema "allOf" = false)
    (hKeyword : keyword = "oneOf" ∧ Entries.has schema "oneOf" = true ∨
      keyword = "anyOf" ∧ Entries.has schema "oneOf" = false ∧
        Entries.has schema "anyOf" = true) :
    (Value.map schema).parts = itemsUnder schema keyword := by
  rcases hKeyword with ⟨rfl, hOne⟩ | ⟨rfl, hOne, hAny⟩
  · rw [parts, hRef, hAll, hOne]
    rfl
  · rw [parts, hRef, hAll, hOne, hAny]
    rfl

theorem parts_of_direct {schema : Entries} (h : Direct schema) :
    (Value.map schema).parts = schema.flatMap fun (key, v) => keywordParts key v := by
  obtain ⟨hRef, hAll, hOne, hAny⟩ := h.has
  rw [parts, hRef, hAll, hOne, hAny]
  rfl

/-! ### A part is smaller -/

/-- One value is a proper part of another, or a leaf made from it. -/
def Below (p v : Value) : Prop :=
  p.depth < v.depth ∧ (Within p v ∨ ∃ s, p = .scalar s)

theorem getOrNull_eq_null_or_mem (schema : Entries) (key : String) :
    Entries.getOrNull schema key = .null ∨ (.str key, Entries.getOrNull schema key) ∈ schema := by
  rw [Entries.getOrNull]
  cases h : Entries.get? schema key with
  | none => exact Or.inl rfl
  | some v => exact Or.inr (Entries.get?_eq_some_mem h)

theorem below_of_mem_itemsUnder {schema : Entries} {key : String} {p : Value}
    (h : p ∈ itemsUnder schema key) : Below p (.map schema) := by
  rw [itemsUnder] at h
  rcases getOrNull_eq_null_or_mem schema key with hNull | hMem
  · -- nothing is met in null
    simp [hNull, walk?] at h
  · cases hWalk : (Entries.getOrNull schema key).walk? with
    | none => simp [hWalk] at h
    | some items =>
      rw [hWalk, Option.getD_some] at h
      have hDepth := depth_lt_of_mem_entries hMem
      rcases mem_walk?_cases hWalk h with hList | ⟨s, rfl⟩
      · rw [hList] at hMem hDepth
        exact ⟨Nat.lt_trans (depth_lt_of_mem_items h) hDepth,
          Or.inl (.entry hMem (.item h (.self p)))⟩
      · -- a leaf made on the way: a key, a character, an octet or a member
        refine ⟨?_, Or.inr ⟨s, rfl⟩⟩
        have := depth_pos (Entries.getOrNull schema key)
        rw [depth]
        omega

theorem below_of_mem_entryValues {schema : Entries} {k : Scalar} {v p : Value}
    (hv : (k, v) ∈ schema) (h : p ∈ v.entryValues) : Below p (.map schema) := by
  cases v with
  | map inner =>
    obtain ⟨⟨k', w⟩, hMem, rfl⟩ := List.mem_map.mp h
    exact ⟨Nat.lt_trans (depth_lt_of_mem_entries hMem) (depth_lt_of_mem_entries hv),
      Or.inl (.entry hv (within_of_mem hMem))⟩
  | _ => simp [entryValues] at h

theorem below_of_mem_keywordParts {schema : Entries} {k : Scalar} {v p : Value}
    (hv : (k, v) ∈ schema) (h : p ∈ keywordParts k v) : Below p (.map schema) := by
  unfold keywordParts at h
  split at h
  · next inner =>
    split at h
    · exact below_of_mem_entryValues hv h
    · split at h
      · rw [List.mem_singleton] at h
        subst h
        exact ⟨depth_lt_of_mem_entries hv, Or.inl (within_of_mem hv)⟩
      · simp at h
  · simp at h

theorem below_of_mem_parts {p v : Value} (h : p ∈ v.parts) : Below p v := by
  cases v with
  | map schema =>
    cases form schema with
    | reference v hRef =>
      rw [parts_of_reference hRef] at h
      nomatch h
    | union hRef hAll =>
      rw [parts_of_union hRef hAll] at h
      rcases List.mem_append.mp h with h | h
      · exact below_of_mem_itemsUnder h
      · rcases getOrNull_eq_null_or_mem schema "properties" with hNull | hMem
        · simp [hNull, entryValues] at h
        · exact below_of_mem_entryValues hMem h
    | choice keyword hRef hAll hKeyword =>
      rw [parts_of_choice hRef hAll hKeyword] at h
      exact below_of_mem_itemsUnder h
    | direct hDirect =>
      rw [parts_of_direct hDirect] at h
      obtain ⟨⟨k, w⟩, hMem, hp⟩ := List.mem_flatMap.mp h
      exact below_of_mem_keywordParts hMem hp
  | _ => simp [parts] at h

/-! ### References written in a value -/

/-- The reference that one entry writes. -/
def refOfEntry (key : Scalar) (v : Value) : List String :=
  if key = .str "$ref" then
    match v with
    | .str ref => [ref]
    | _ => []
  else []

theorem length_refOfEntry_le (key : Scalar) (v : Value) :
    (refOfEntry key v).length ≤ if key = .str "$ref" then 1 else 0 := by
  unfold refOfEntry
  split
  · split
    · exact Nat.le_refl 1
    · exact Nat.zero_le 1
  · exact Nat.le_refl 0

mutual

/-- Every reference that is written in a value. -/
def refs : Value → List String
  | .list items => refsOfItems items
  | .map entries => refsOfEntries entries
  | _ => []

/-- Every reference that is written in items. -/
def refsOfItems : List Value → List String
  | [] => []
  | v :: rest => v.refs ++ refsOfItems rest

/-- Every reference that is written in entries. -/
def refsOfEntries : List (Scalar × Value) → List String
  | [] => []
  | (k, v) :: rest => refOfEntry k v ++ v.refs ++ refsOfEntries rest

end

mutual

theorem length_refs_le : (v : Value) → v.refs.length ≤ v.refCount
  | .scalar _ | .set _ => by simp [refs, refCount]
  | .list items => by
    rw [refs, refCount]
    exact length_refsOfItems_le items
  | .map entries => by
    rw [refs, refCount]
    exact length_refsOfEntries_le entries

theorem length_refsOfItems_le : (items : List Value) →
    (refsOfItems items).length ≤ refCountOfItems items
  | [] => Nat.le_refl 0
  | v :: rest => by
    have hHead := length_refs_le v
    have hRest := length_refsOfItems_le rest
    rw [refsOfItems, refCountOfItems, List.length_append]
    omega

theorem length_refsOfEntries_le : (entries : List (Scalar × Value)) →
    (refsOfEntries entries).length ≤ refCountOfEntries entries
  | [] => Nat.le_refl 0
  | (k, v) :: rest => by
    have hKey := length_refOfEntry_le k v
    have hHead := length_refs_le v
    have hRest := length_refsOfEntries_le rest
    rw [refsOfEntries, refCountOfEntries, List.length_append, List.length_append]
    omega

end

theorem refs_subset_refsOfItems {v : Value} {items : List Value} (h : v ∈ items) :
    v.refs ⊆ refsOfItems items := by
  induction items with
  | nil => simp at h
  | cons w rest ih =>
    rw [refsOfItems]
    rcases List.mem_cons.mp h with rfl | h'
    · exact List.subset_append_left ..
    · exact List.subset_append_of_subset_right _ (ih h')

theorem refs_subset_refsOfEntries {k : Scalar} {v : Value} {entries : Entries}
    (h : (k, v) ∈ entries) : v.refs ⊆ refsOfEntries entries := by
  induction entries with
  | nil => simp at h
  | cons e rest ih =>
    obtain ⟨k', w⟩ := e
    rw [refsOfEntries]
    rcases List.mem_cons.mp h with h' | h'
    · cases h'
      exact List.subset_append_of_subset_left _ (List.subset_append_right ..)
    · exact List.subset_append_of_subset_right _ (ih h')

theorem Within.refs_subset {u v : Value} (h : Within u v) : u.refs ⊆ v.refs := by
  induction h with
  | self => exact List.Subset.refl _
  | item hMem _ ih =>
    rw [refs]
    exact List.Subset.trans ih (refs_subset_refsOfItems hMem)
  | entry hMem _ ih =>
    rw [refs]
    exact List.Subset.trans ih (refs_subset_refsOfEntries hMem)

theorem Below.refs_subset {p v : Value} (h : Below p v) : p.refs ⊆ v.refs := by
  rcases h.2 with hWithin | ⟨s, rfl⟩
  · exact hWithin.refs_subset
  · simp [refs]

theorem mem_refsOfEntries {ref : String} {entries : Entries}
    (h : (Scalar.str "$ref", Value.str ref) ∈ entries) : ref ∈ refsOfEntries entries := by
  induction entries with
  | nil => simp at h
  | cons e rest ih =>
    obtain ⟨k, w⟩ := e
    rw [refsOfEntries]
    rcases List.mem_cons.mp h with h' | h'
    · cases h'
      simp [refOfEntry]
    · exact List.mem_append_right _ (ih h')

/-- The schema that is the given reference. -/
def ofRef (ref : String) : Value :=
  .map [(.str "$ref", .str ref)]

@[simp] theorem ref?_ofRef (ref : String) : (ofRef ref).ref? = some ref := rfl

theorem get?_of_ref?_eq_some {schema : Entries} {ref : String}
    (h : (Value.map schema).ref? = some ref) : Entries.get? schema "$ref" = some (.str ref) := by
  rw [ref?] at h
  split at h
  · next hGet =>
    cases h
    exact hGet
  · cases h

theorem mem_refs_of_ref? {v : Value} {ref : String} (h : v.ref? = some ref) : ref ∈ v.refs := by
  cases v with
  | map schema =>
    rw [refs]
    exact mem_refsOfEntries (Entries.get?_eq_some_mem (get?_of_ref?_eq_some h))
  | _ => cases h

end Value

/-! ## What a reference names -/

namespace Pointer

/-- What a pointer leads to occurs in the document. -/
theorem within_of_find {v w : Value} {segments : List String}
    (h : find v segments = .value w) : Value.Within w v := by
  induction segments generalizing v with
  | nil =>
    cases h
    exact .self w
  | cons segment rest ih =>
    rw [find] at h
    split at h
    · next u hChild =>
      refine (ih h).trans ?_
      -- one step goes to the value of an entry or to an item
      unfold child at hChild
      split at hChild
      · split at hChild
        · next hGet =>
          cases hChild
          exact Value.within_of_mem (Entries.get?_eq_some_mem hGet)
        · cases hChild
      · dsimp only at hChild
        split at hChild
        · cases hChild
        · split at hChild
          · cases hChild
          · split at hChild
            · next hItem =>
              cases hChild
              exact .item (List.mem_of_getElem? hItem) (.self _)
            · cases hChild
      · cases hChild
    · next hOther => exact absurd h (hOther w)

end Pointer

namespace Resolver

/-- What a reference names; null if it leads nowhere. -/
def referent (document : Value) (ref : String) : Except Failure Value :=
  match Pointer.segments? ref with
  | none => .ok .null
  | some segments =>
    match Pointer.find document segments with
    | .value v => .ok v
    | .missing _ => .ok .null
    | .noIndex => .error .malformed

/-- Looking a reference up changes the log only. -/
theorem lookup_on (document : Value) (ref : String) (s : Session) :
    ∃ log, (lookup document ref).on s = (referent document ref, { s with log := log }) := by
  unfold lookup referent
  cases Pointer.segments? ref with
  | none => exact ⟨_, rfl⟩
  | some segments =>
    dsimp only
    cases Pointer.find document segments with
    | value v => exact ⟨s.log, rfl⟩
    | missing segment => exact ⟨_, rfl⟩
    | noIndex => exact ⟨s.log, rfl⟩

/-- What a reference names occurs in the document. -/
theorem within_of_referent {document v : Value} {ref : String} (h : referent document ref = .ok v)
    (hv : v ≠ .null) : Value.Within v document := by
  unfold referent at h
  split at h
  · cases h
    exact absurd rfl hv
  · next segments hSegments =>
    split at h
    · next hFind =>
      cases h
      exact Pointer.within_of_find hFind
    · cases h
      exact absurd rfl hv
    · cases h

theorem refs_subset_of_referent {document v : Value} {ref : String}
    (h : referent document ref = .ok v) : v.refs ⊆ document.refs := by
  by_cases hv : v = .null
  · subst hv
    simp [Value.refs]
  · exact (within_of_referent h hv).refs_subset

end Resolver

end IntegrationCompiler
