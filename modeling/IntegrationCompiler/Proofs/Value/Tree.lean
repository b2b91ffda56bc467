import IntegrationCompiler.Value.Basic
import Mathlib.Data.List.Nodup

/-!
# Values as trees

What is inside a value, and what looking up and storing entries does to it.

* `Value.Within` — one value occurs in another; whatever occurs there is nested no deeper;
* `Value.Everywhere` — what holds of all mappings that occur in a value;
* `Entries.get?_eq_some_mem`, `Entries.get?_eq_none_iff` — a text key is found exactly where it
  stands; `Entries.get?_perm` — the order of entries does not count;
* `Entries.mem_put`, `Entries.mem_update` — where the entries of a changed mapping come from.
-/

namespace IntegrationCompiler

/-! ## Text keys -/

/-- Only a text equals a text. -/
theorem Scalar.same_str {k : Scalar} {s : String} : k.same (.str s) = true ↔ k = .str s := by
  cases k with
  | bool | int | float =>
    -- a number and a text have no common reading
    exact ⟨fun h => Bool.noConfusion (h : false = true), nofun⟩
  | _ => exact beq_iff_eq

namespace Entries

theorem get?_nil (key : String) : get? [] key = none := rfl

theorem get?_cons (k : Scalar) (v : Value) (rest : Entries) (key : String) :
    get? ((k, v) :: rest) key = if k = .str key then some v else get? rest key := by
  rw [get?, find?, get?]
  by_cases h : k = .str key
  · rw [if_pos h, if_pos (Scalar.same_str.mpr h)]
  · rw [if_neg h, if_neg (mt Scalar.same_str.mp h)]

theorem get?_singleton_of_ne {key name : String} (h : name ≠ key) (v : Value) :
    get? [(.str key, v)] name = none := by
  rw [get?_cons, if_neg fun hSame => h (Scalar.str.inj hSame).symm, get?_nil]

theorem get?_append (es later : Entries) (key : String) :
    get? (es ++ later) key = (get? es key).or (get? later key) := by
  induction es with
  | nil => rfl
  | cons e rest ih =>
    rw [List.cons_append, get?_cons, get?_cons, ih]
    split <;> rfl

theorem get?_eq_some_mem {es : Entries} {key : String} {v : Value} (h : get? es key = some v) :
    (.str key, v) ∈ es := by
  induction es with
  | nil => simp [get?_nil] at h
  | cons e rest ih =>
    obtain ⟨k, w⟩ := e
    rw [get?_cons] at h
    split at h
    · next hk =>
      cases h
      exact hk ▸ List.mem_cons_self
    · exact List.mem_cons_of_mem _ (ih h)

theorem get?_eq_none_iff {es : Entries} {key : String} :
    get? es key = none ↔ ∀ v, (.str key, v) ∉ es := by
  induction es with
  | nil => simp [get?_nil]
  | cons e rest ih =>
    obtain ⟨k, w⟩ := e
    rw [get?_cons]
    by_cases hk : k = .str key
    · rw [if_pos hk]
      exact ⟨nofun, fun h => absurd (hk ▸ List.mem_cons_self) (h w)⟩
    · rw [if_neg hk, ih]
      refine forall_congr' fun v => not_congr ?_
      rw [List.mem_cons, Prod.mk.injEq]
      exact ⟨Or.inr, fun h => h.resolve_left fun h' => hk h'.1.symm⟩

/-- Where keys are distinct, a text key is found with whatever stands under it. -/
theorem get?_eq_some_iff {es : Entries} (hKeys : (es.map Prod.fst).Nodup) {key : String}
    {v : Value} : get? es key = some v ↔ (.str key, v) ∈ es := by
  refine ⟨get?_eq_some_mem, fun hMem => ?_⟩
  cases hFound : get? es key with
  | none => exact absurd hMem (get?_eq_none_iff.mp hFound v)
  | some w =>
    have hSame := List.inj_on_of_nodup_map hKeys (get?_eq_some_mem hFound) hMem rfl
    rw [(Prod.mk.inj hSame).2]

/-- The order of entries with distinct keys does not count. -/
theorem get?_perm {es es' : Entries} (h : es.Perm es') (hKeys : (es.map Prod.fst).Nodup)
    (key : String) : get? es key = get? es' key := by
  have hKeys' : (es'.map Prod.fst).Nodup := (h.map Prod.fst).nodup_iff.mp hKeys
  refine Option.ext fun v => ?_
  rw [get?_eq_some_iff hKeys, get?_eq_some_iff hKeys', h.mem_iff]

theorem has_eq_false_iff {es : Entries} {key : String} :
    has es key = false ↔ ∀ v, (.str key, v) ∉ es := by
  rw [has, Option.isSome_eq_false_iff, Option.isNone_iff_eq_none, get?_eq_none_iff]

theorem get?_of_has_eq_false {es : Entries} {key : String} (h : has es key = false) :
    get? es key = none :=
  get?_eq_none_iff.mpr (has_eq_false_iff.mp h)

/-- An entry of a mapping in which a value was stored is the stored one, or was there before. -/
theorem mem_put {key k : Scalar} {value v : Value} {es : Entries}
    (h : (k, v) ∈ put key value es) : v = value ∧ (k = key ∨ k.same key = true) ∨ (k, v) ∈ es := by
  induction es with
  | nil =>
    rw [put, List.mem_singleton, Prod.mk.injEq] at h
    exact Or.inl ⟨h.2, Or.inl h.1⟩
  | cons e rest ih =>
    obtain ⟨k', v'⟩ := e
    rw [put] at h
    split at h
    · next hk =>
      -- the key was there: the value is replaced in place, under the old key
      rcases List.mem_cons.mp h with h' | h'
      · cases h'
        exact Or.inl ⟨rfl, Or.inr hk⟩
      · exact Or.inr (List.mem_cons_of_mem _ h')
    · rcases List.mem_cons.mp h with h' | h'
      · exact Or.inr (h' ▸ List.mem_cons_self)
      · exact (ih h').imp_right (List.mem_cons_of_mem _)

/-- The values of a mapping after an update are old or new. -/
theorem mem_update {k : Scalar} {v : Value} {es later : Entries} (h : (k, v) ∈ update es later) :
    (k, v) ∈ es ∨ ∃ k', (k', v) ∈ later := by
  induction later generalizing es with
  | nil => exact Or.inl h
  | cons e rest ih =>
    obtain ⟨k', v'⟩ := e
    rcases @ih (put k' v' es) h with h' | ⟨k'', h'⟩
    · rcases mem_put h' with ⟨rfl, -⟩ | h''
      · exact Or.inr ⟨k', List.mem_cons_self⟩
      · exact Or.inl h''
    · exact Or.inr ⟨k'', List.mem_cons_of_mem _ h'⟩

end Entries

/-! ## What occurs in a value -/

namespace Value

/-- The first value occurs in the second: it is the value itself, or occurs in an item or under a
key. -/
inductive Within : Value → Value → Prop where
  | self (v : Value) : Within v v
  | item {u w : Value} {items : List Value} : w ∈ items → Within u w → Within u (.list items)
  | entry {u w : Value} {k : Scalar} {entries : Entries} :
    (k, w) ∈ entries → Within u w → Within u (.map entries)

theorem Within.trans {u v w : Value} (huv : Within u v) (hvw : Within v w) : Within u w := by
  induction hvw with
  | self => exact huv
  | item hMem _ ih => exact .item hMem ih
  | entry hMem _ ih => exact .entry hMem ih

theorem within_of_mem {es : Entries} {k : Scalar} {v : Value} (h : (k, v) ∈ es) :
    Within v (.map es) :=
  .entry h (.self v)

@[simp] theorem within_scalar_iff {u : Value} {s : Scalar} : Within u (.scalar s) ↔ u = .scalar s := by
  constructor
  · intro h
    cases h
    rfl
  · rintro rfl
    exact .self _

@[simp] theorem within_list_iff {u : Value} {items : List Value} :
    Within u (.list items) ↔ u = .list items ∨ ∃ v ∈ items, Within u v := by
  constructor
  · intro h
    cases h with
    | self => exact Or.inl rfl
    | item hMem hInner => exact Or.inr ⟨_, hMem, hInner⟩
  · rintro (rfl | ⟨v, hMem, hInner⟩)
    · exact .self _
    · exact .item hMem hInner

@[simp] theorem within_map_iff {u : Value} {es : Entries} :
    Within u (.map es) ↔ u = .map es ∨ ∃ e ∈ es, Within u e.2 := by
  constructor
  · intro h
    cases h with
    | self => exact Or.inl rfl
    | entry hMem hInner => exact Or.inr ⟨_, hMem, hInner⟩
  · rintro (rfl | ⟨⟨k, v⟩, hMem, hInner⟩)
    · exact .self _
    · exact .entry hMem hInner

/-- What is said of mappings holds of every one that occurs in the value. -/
def Everywhere (R : Entries → Prop) (v : Value) : Prop :=
  ∀ es, Within (.map es) v → R es

section

variable {R : Entries → Prop}

theorem Everywhere.within {u v : Value} (h : Everywhere R v) (hWithin : Within u v) :
    Everywhere R u :=
  fun es hes => h es (hes.trans hWithin)

@[simp] theorem everywhere_scalar (s : Scalar) : Everywhere R (.scalar s) :=
  fun _ hWithin => nomatch hWithin

@[simp] theorem everywhere_map_iff {es : Entries} :
    Everywhere R (.map es) ↔ R es ∧ ∀ e ∈ es, Everywhere R e.2 := by
  constructor
  · exact fun h => ⟨h es (.self _), fun e he => h.within (within_of_mem (k := e.1) he)⟩
  · rintro ⟨hHere, hInside⟩ inner hWithin
    cases hWithin with
    | self => exact hHere
    | entry hMem hInner => exact hInside _ hMem inner hInner

@[simp] theorem everywhere_list_iff {items : List Value} :
    Everywhere R (.list items) ↔ ∀ v ∈ items, Everywhere R v := by
  constructor
  · exact fun h v hv => h.within (.item hv (.self v))
  · intro h inner hWithin
    cases hWithin with
    | item hMem hInner => exact h _ hMem inner hInner

end

theorem eq_of_present? {v w : Value} (h : v.present? = some w) : w = v := by
  unfold present? at h
  split at h
  · exact (Option.some.inj h).symm
  · cases h

theorem eq_of_entries? {v : Value} {es : Entries} (h : v.entries? = some es) : v = .map es := by
  cases v with
  | map entries => exact congrArg Value.map (Option.some.inj h)
  | _ => cases h

theorem depth_pos (v : Value) : 0 < v.depth := by
  cases v <;> simp [depth]

theorem depth_le_depthOfItems {v : Value} {items : List Value} (h : v ∈ items) :
    v.depth ≤ depthOfItems items := by
  induction items with
  | nil => simp at h
  | cons w rest ih =>
    rw [depthOfItems]
    rcases List.mem_cons.mp h with rfl | h'
    · exact Nat.le_max_left ..
    · exact Nat.le_trans (ih h') (Nat.le_max_right ..)

theorem depth_le_depthOfEntries {k : Scalar} {v : Value} {entries : Entries}
    (h : (k, v) ∈ entries) : v.depth ≤ depthOfEntries entries := by
  induction entries with
  | nil => simp at h
  | cons e rest ih =>
    obtain ⟨k', w⟩ := e
    rw [depthOfEntries]
    rcases List.mem_cons.mp h with h' | h'
    · cases h'
      exact Nat.le_max_left ..
    · exact Nat.le_trans (ih h') (Nat.le_max_right ..)

theorem depth_lt_of_mem_items {v : Value} {items : List Value} (h : v ∈ items) :
    v.depth < (Value.list items).depth := by
  rw [depth]
  exact Nat.lt_succ_of_le (depth_le_depthOfItems h)

theorem depth_lt_of_mem_entries {k : Scalar} {v : Value} {es : Entries} (h : (k, v) ∈ es) :
    v.depth < (Value.map es).depth := by
  rw [depth]
  exact Nat.lt_succ_of_le (depth_le_depthOfEntries h)

/-- What is met when a value is walked through is one of its items, or a leaf. -/
theorem mem_walk?_cases {v w : Value} {items : List Value} (h : v.walk? = some items)
    (hw : w ∈ items) : v = .list items ∨ ∃ s, w = .scalar s := by
  cases v with
  | list xs =>
    rw [walk?] at h
    exact Or.inl (congrArg Value.list (Option.some.inj h))
  | map es =>
    -- a mapping is walked through by its keys
    rw [walk?, Option.some.injEq] at h
    subst h
    obtain ⟨e, -, rfl⟩ := List.mem_map.mp hw
    exact Or.inr ⟨e.1, rfl⟩
  | set members =>
    rw [walk?, Option.some.injEq] at h
    subst h
    obtain ⟨s, -, rfl⟩ := List.mem_map.mp hw
    exact Or.inr ⟨s, rfl⟩
  | scalar s =>
    cases s with
    | str t =>
      -- and a text by its characters
      rw [walk?, Option.some.injEq] at h
      subst h
      obtain ⟨c, -, rfl⟩ := List.mem_map.mp hw
      exact Or.inr ⟨_, rfl⟩
    | bytes octets =>
      rw [walk?, Option.some.injEq] at h
      subst h
      obtain ⟨b, -, rfl⟩ := List.mem_map.mp hw
      exact Or.inr ⟨_, rfl⟩
    | _ => simp [walk?] at h

end Value

end IntegrationCompiler
