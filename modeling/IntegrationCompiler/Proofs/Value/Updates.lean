import IntegrationCompiler.Proofs.Number.Exact
import IntegrationCompiler.Proofs.Value.Tree
import Mathlib.Data.List.Induction

/-!
# Equality by value, and storing entry after entry

Keys and items are compared by value. That is symmetric and transitive; it is not reflexive, since a
NaN is not even itself.

* `Scalar.same_comm`, `Scalar.same_trans`, `Value.same_trans` — equality by value;
* `Entries.find?_update` — after an update, a key has what the last of its entries holds;
* `Entries.keys_update` — the keys stand in the order of their first entries;
* `Entries.update_update` — it does not matter whether entries are brought together before.
-/

namespace IntegrationCompiler

/-! ## Equality by value -/

namespace Number

/-- Numbers are the same if they have one value. -/
theorem same_iff_value? {a b : Number} :
    a.same b = true ↔ ∃ w, a.value? = some w ∧ b.value? = some w := by
  cases hb : b.value? with
  | some w =>
    rw [same_iff hb]
    constructor
    · exact fun ha => ⟨w, ha, rfl⟩
    · rintro ⟨_, ha, hw⟩
      exact Option.some.inj hw ▸ ha
  | none =>
    -- nothing is the same as a NaN
    rw [value?_eq_none_iff] at hb
    subst hb
    have hNever : a.cmp (.float .nan) = none := by
      cases a with
      | int m => rfl
      | float x => cases x <;> rfl
    rw [same, hNever]
    constructor
    · intro hSame
      cases hSame
    · rintro ⟨_, -, hw⟩
      cases hw

theorem same_comm (a b : Number) : a.same b = b.same a := by
  rw [Bool.eq_iff_iff, same_iff_value?, same_iff_value?]
  exact exists_congr fun _ => and_comm

theorem same_trans {a b c : Number} (hab : a.same b = true) (hbc : b.same c = true) :
    a.same c = true := by
  obtain ⟨v, ha, hb⟩ := same_iff_value?.mp hab
  obtain ⟨w, hb', hc⟩ := same_iff_value?.mp hbc
  cases hb.symm.trans hb'
  exact same_iff_value?.mpr ⟨v, ha, hc⟩

end Number

namespace Moment

/-- What is compared of a moment: the instant if its offset is known, and its reading otherwise. -/
def instant (m : Moment) : Option Unit × Int :=
  match m.offset with
  | none => (none, m.clock)
  | some p => (some (), m.clock - p * 1000000)

theorem same_iff {a b : Moment} : a.same b = true ↔ a.instant = b.instant := by
  unfold same instant
  cases a.offset <;> cases b.offset <;> simp

end Moment

namespace Scalar

/-- Two scalars are the same as numbers, as moments, or if they are equal. -/
theorem same_iff {a b : Scalar} : a.same b = true ↔
    (∃ m n, a.number? = some m ∧ b.number? = some n ∧ m.same n = true) ∨
      (∃ s t, a = .moment s ∧ b = .moment t ∧ s.same t = true) ∨
        a.number? = none ∧ a = b ∧ ∀ s, a ≠ .moment s := by
  cases a <;> cases b <;> simp [same, number?]

theorem same_comm (a b : Scalar) : a.same b = b.same a := by
  have hSymm : ∀ {a b : Scalar}, a.same b = true → b.same a = true := by
    intro a b h
    rw [same_iff] at h ⊢
    rcases h with ⟨m, n, ha, hb, h⟩ | ⟨s, t, ha, hb, h⟩ | ⟨ha, rfl, hNot⟩
    · exact Or.inl ⟨n, m, hb, ha, Number.same_comm m n ▸ h⟩
    · exact Or.inr (Or.inl ⟨t, s, hb, ha, Moment.same_iff.mpr (Moment.same_iff.mp h).symm⟩)
    · exact Or.inr (Or.inr ⟨ha, rfl, hNot⟩)
  exact Bool.eq_iff_iff.mpr ⟨hSymm, hSymm⟩

theorem same_trans {a b c : Scalar} (hab : a.same b = true) (hbc : b.same c = true) :
    a.same c = true := by
  rw [same_iff] at hab hbc ⊢
  rcases hab with ⟨m, n, ha, hb, h⟩ | ⟨s, t, rfl, rfl, h⟩ | ⟨ha, rfl, hNot⟩
  · rcases hbc with ⟨n', l, hb', hc, h'⟩ | ⟨s, t, rfl, rfl, h'⟩ | ⟨hb', rfl, hNot⟩
    · cases hb.symm.trans hb'
      exact Or.inl ⟨m, l, ha, hc, Number.same_trans h h'⟩
    · cases hb
    · cases hb.symm.trans hb'
  · rcases hbc with ⟨n', l, hb', hc, h'⟩ | ⟨t', u, hb', rfl, h'⟩ | ⟨hb', rfl, hNot⟩
    · cases hb'
    · cases hb'
      refine Or.inr (Or.inl ⟨s, u, rfl, rfl, Moment.same_iff.mpr ?_⟩)
      exact (Moment.same_iff.mp h).trans (Moment.same_iff.mp h')
    · exact absurd rfl (hNot t)
  · exact hbc

/-- What is the same as one of two scalars that are the same is the same as the other. -/
theorem same_congr {a b : Scalar} (h : a.same b = true) (c : Scalar) : a.same c = b.same c := by
  rw [Bool.eq_iff_iff]
  exact ⟨same_trans (same_comm a b ▸ h), same_trans h⟩

end Scalar

/-! ## What comes first -/

/-- Adding what is not there yet, one after the other, keeps the first of those that are the same. -/
theorem foldl_add_eq_loop {α : Type} (same : α → α → Bool) (acc ys : List α) :
    ys.foldl (fun acc y => if acc.any (same y) then acc else acc ++ [y]) acc =
      List.eraseDupsBy.loop same ys acc.reverse := by
  induction ys generalizing acc with
  | nil => rw [List.foldl_nil, List.eraseDupsBy.loop, List.reverse_reverse]
  | cons y rest ih =>
    rw [List.foldl_cons, ih, List.eraseDupsBy.loop, List.any_reverse]
    cases acc.any (same y) with
    | true => rfl
    | false => rw [if_neg Bool.false_ne_true, List.reverse_append]; rfl

/-! ## Looking up and storing -/

namespace Entries

variable {key k : Scalar} {v w : Value} {es later : Entries}

theorem find?_congr {a b : Scalar} (h : a.same b = true) (es : Entries) :
    find? a es = find? b es := by
  induction es with
  | nil => rfl
  | cons e rest ih =>
    obtain ⟨k, v⟩ := e
    rw [find?, find?, ih, Scalar.same_comm k a, Scalar.same_comm k b, Scalar.same_congr h]

theorem find?_append (key : Scalar) (es later : Entries) :
    find? key (es ++ later) = (find? key es).or (find? key later) := by
  induction es with
  | nil => rfl
  | cons e rest ih =>
    obtain ⟨k, v⟩ := e
    rw [List.cons_append, find?, find?, ih]
    split <;> rfl

theorem find?_put (key k : Scalar) (v : Value) (es : Entries) :
    find? key (put k v es) = if k.same key then some v else find? key es := by
  induction es with
  | nil => rfl
  | cons e rest ih =>
    obtain ⟨k', v'⟩ := e
    rw [put]
    split
    · next hSame =>
      -- the new value stands under the old key
      rw [find?, find?, Scalar.same_congr hSame key]
      split <;> rfl
    · next hOther =>
      rw [find?, find?, ih]
      by_cases hKey : k'.same key = true
      · have hNot : k.same key = false := by
          rw [Bool.eq_false_iff]
          exact fun h => hOther (Scalar.same_trans hKey (Scalar.same_comm k key ▸ h))
        rw [if_pos hKey, hNot, if_neg Bool.false_ne_true, if_pos hKey]
      · rw [if_neg hKey, if_neg hKey]

/-- What stands under a text key after a value was stored. -/
theorem get?_set (es : Entries) (key name : String) (value : Value) :
    get? (set es key value) name = if key = name then some value else get? es name := by
  rw [get?, set, find?_put, get?]
  by_cases h : key = name
  · rw [if_pos h, if_pos (Scalar.same_str.mpr (congrArg Scalar.str h))]
  · rw [if_neg h, if_neg fun hSame => h (Scalar.str.inj (Scalar.same_str.mp hSame))]

/-- Storing what stands under a text key changes nothing. -/
theorem set_of_get? {es : Entries} {key : String} {value : Value} (h : get? es key = some value) :
    set es key value = es := by
  rw [get?] at h
  rw [set]
  induction es with
  | nil => cases h
  | cons e rest ih =>
    obtain ⟨k, v⟩ := e
    rw [find?] at h
    rw [put]
    split at h
    · next hSame =>
      cases h
      rw [if_pos hSame]
    · next hOther => rw [if_neg hOther, ih h]

/-- **After an update, a key has what the last entry for it holds**, and what it had before if there
is none. -/
theorem find?_update (key : Scalar) (es later : Entries) :
    find? key (update es later) = (find? key later.reverse).or (find? key es) := by
  induction later generalizing es with
  | nil => rfl
  | cons e rest ih =>
    obtain ⟨k, v⟩ := e
    have hStep : update es ((k, v) :: rest) = update (put k v es) rest := rfl
    rw [hStep, ih, find?_put, List.reverse_cons, find?_append, Option.or_assoc, find?, find?]
    split <;> rfl

/-! ## The order of keys -/

/-- Where a key is stored, it is added at the end if it is not there. -/
theorem keys_put (k : Scalar) (v : Value) (es : Entries) : (put k v es).map Prod.fst =
    if (es.map Prod.fst).any k.same then es.map Prod.fst else es.map Prod.fst ++ [k] := by
  induction es with
  | nil => rfl
  | cons e rest ih =>
    obtain ⟨k', v'⟩ := e
    rw [put, List.map_cons, List.any_cons, Scalar.same_comm k k']
    cases hSame : k'.same k with
    | true => rfl
    | false =>
      rw [if_neg Bool.false_ne_true, List.map_cons, ih, Bool.false_or]
      split <;> rfl

/-- **The keys of an update stand in the order of their first entries.** -/
theorem keys_update (later : Entries) :
    (update [] later).map Prod.fst = (later.map Prod.fst).eraseDupsBy Scalar.same := by
  have hFold : ∀ es : Entries, (update es later).map Prod.fst = (later.map Prod.fst).foldl
      (fun ks k => if ks.any k.same then ks else ks ++ [k]) (es.map Prod.fst) := by
    induction later with
    | nil => exact fun es => rfl
    | cons e rest ih =>
      intro es
      rw [List.map_cons, List.foldl_cons, ← keys_put e.1 e.2]
      exact ih (put e.1 e.2 es)
  rw [hFold, foldl_add_eq_loop]
  rfl

/-! ## Updates in stages -/

/-- No two entries have the same key. -/
def Distinct (es : Entries) : Prop :=
  es.Pairwise fun a b => a.1.same b.1 = false

theorem distinct_put (h : Distinct es) (k : Scalar) (v : Value) : Distinct (put k v es) := by
  induction es with
  | nil => exact List.pairwise_singleton _ _
  | cons e rest ih =>
    obtain ⟨k', v'⟩ := e
    obtain ⟨hFirst, hRest⟩ := List.pairwise_cons.mp h
    rw [put]
    split
    · exact List.pairwise_cons.mpr ⟨hFirst, hRest⟩
    · next hOther =>
      refine List.pairwise_cons.mpr ⟨fun e he => ?_, ih hRest⟩
      rcases mem_put he with ⟨-, hKey | hKey⟩ | hOld
      · exact hKey ▸ Bool.eq_false_iff.mpr hOther
      · exact Bool.eq_false_iff.mpr fun hSame => hOther (Scalar.same_trans hSame hKey)
      · exact hFirst e hOld

theorem distinct_update (h : Distinct es) (later : Entries) : Distinct (update es later) := by
  induction later generalizing es with
  | nil => exact h
  | cons e rest ih => exact ih (distinct_put h e.1 e.2)

/-- What is stored under a key replaces what was stored before. -/
theorem put_put (hSame : k.same key = true) : put key v (put k w es) = put k v es := by
  induction es with
  | nil => rw [put, put, put, if_pos hSame]
  | cons e rest ih =>
    obtain ⟨k', v'⟩ := e
    rw [put, put]
    by_cases hFirst : k'.same k = true
    · rw [if_pos hFirst, if_pos hFirst, put, if_pos (Scalar.same_trans hFirst hSame)]
    · have hNot : ¬ k'.same key = true := fun h =>
        hFirst (Scalar.same_trans h (Scalar.same_comm key k ▸ hSame))
      rw [if_neg hFirst, if_neg hFirst, put, if_neg hNot, ih]

/-- Storing under a key that is there commutes with storing under another one. -/
theorem put_comm (hThere : ∃ e ∈ es, e.1.same key = true) (hOther : key.same k = false) :
    put key v (put k w es) = put k w (put key v es) := by
  induction es with
  | nil =>
    obtain ⟨e, he, -⟩ := hThere
    cases he
  | cons e rest ih =>
    obtain ⟨k', v'⟩ := e
    by_cases hKey : k'.same key = true
    · have hNot : ¬ k'.same k = true := by
        rw [Scalar.same_congr hKey, hOther]
        exact Bool.false_ne_true
      rw [put, if_neg hNot, put, if_pos hKey, put, if_pos hKey, put, if_neg hNot]
    · have hRest : ∃ e ∈ rest, e.1.same key = true := by
        obtain ⟨e, he, hSame⟩ := hThere
        rcases List.mem_cons.mp he with rfl | he
        · exact absurd hSame hKey
        · exact ⟨e, he, hSame⟩
      by_cases hk : k'.same k = true
      · rw [put, if_pos hk, put, if_neg hKey, put, if_neg hKey, put, if_pos hk]
      · rw [put, if_neg hk, put, if_neg hKey, put, if_neg hKey, put, if_neg hk, ih hRest]

theorem exists_same_put_self (es : Entries) (w : Value) (hSame : k.same key = true) :
    ∃ e ∈ put k w es, e.1.same key = true := by
  have hKeys : ((put k w es).map Prod.fst).any (·.same key) = true := by
    rw [keys_put, List.any_eq_true]
    split
    · next hThere =>
      obtain ⟨k', hk', hOld⟩ := List.any_eq_true.mp hThere
      exact ⟨k', hk', Scalar.same_congr hOld key ▸ hSame⟩
    · exact ⟨k, List.mem_append_right _ List.mem_cons_self, hSame⟩
  rw [List.any_map] at hKeys
  exact List.any_eq_true.mp hKeys

theorem exists_same_of_put (hThere : ∃ e ∈ es, e.1.same key = true) (k : Scalar) (w : Value) :
    ∃ e ∈ put k w es, e.1.same key = true := by
  have hKeys : ((put k w es).map Prod.fst).any (·.same key) = true := by
    obtain ⟨e, he, hSame⟩ := hThere
    rw [keys_put, List.any_eq_true]
    refine ⟨e.1, ?_, hSame⟩
    split
    · exact List.mem_map_of_mem he
    · exact List.mem_append_left _ (List.mem_map_of_mem he)
  rw [List.any_map] at hKeys
  exact List.any_eq_true.mp hKeys

/-- Storing under a key that is there commutes with an update of other keys. -/
theorem put_update (hThere : ∃ e ∈ es, e.1.same key = true)
    (hOther : ∀ e ∈ later, key.same e.1 = false) :
    put key v (update es later) = update (put key v es) later := by
  induction later generalizing es with
  | nil => rfl
  | cons e rest ih =>
    obtain ⟨k, w⟩ := e
    have hStep : ∀ es : Entries, update es ((k, w) :: rest) = update (put k w es) rest := fun _ => rfl
    rw [hStep, hStep, ← put_comm hThere (hOther (k, w) List.mem_cons_self)]
    exact ih (exists_same_of_put hThere k w) fun e he => hOther e (List.mem_cons_of_mem _ he)

theorem update_put (hLater : Distinct later) (key : Scalar) (v : Value) (es : Entries) :
    update es (put key v later) = put key v (update es later) := by
  induction later generalizing es with
  | nil => rfl
  | cons e rest ih =>
    obtain ⟨k, w⟩ := e
    obtain ⟨hFirst, hRest⟩ := List.pairwise_cons.mp hLater
    have hStep : ∀ (es : Entries) (w : Value), update es ((k, w) :: rest) = update (put k w es) rest :=
      fun _ _ => rfl
    rw [put]
    split
    · next hSame =>
      rw [hStep, hStep, put_update (exists_same_put_self es w hSame), put_put hSame]
      exact fun e he => Scalar.same_congr hSame e.1 ▸ hFirst e he
    · exact ih hRest (put k w es)

/-- **Entries may be brought together before they are stored.** -/
theorem update_update (es later : Entries) : update es (update [] later) = update es later := by
  induction later using List.reverseRecOn with
  | nil => rfl
  | append_singleton rest e ih =>
    have hLast : ∀ es : Entries, update es (rest ++ [e]) = put e.1 e.2 (update es rest) := by
      intro es
      rw [update, List.foldl_append]
      rfl
    rw [hLast, hLast, update_put (distinct_update .nil rest), ih]

end Entries

/-! ## Equality of values -/

namespace Value

/-- Only a text is the same as a text. -/
theorem same_str {v : Value} {s : String} : v.same (.str s) = true ↔ v = .str s := by
  cases v with
  | scalar k =>
    rw [same, Scalar.same_str]
    exact ⟨congrArg Value.scalar, Value.scalar.inj⟩
  | _ => exact ⟨nofun, nofun⟩

theorem str_same {v : Value} {s : String} : (Value.str s).same v = true ↔ v = .str s := by
  rw [← same_str]
  cases v with
  | scalar k => rw [same, same, Scalar.same_comm]
  | _ => exact Iff.rfl

/-- An entry is there, and so are the others. -/
theorem sameEntries_cons {k : Scalar} {v : Value} {xs ys : Entries} :
    sameEntries ((k, v) :: xs) ys = true ↔
      (∃ u, Entries.find? k ys = some u ∧ v.same u = true) ∧ sameEntries xs ys = true := by
  refine Bool.and_eq_true_iff.trans (and_congr_left fun _ => ?_)
  cases Entries.find? k ys with
  | none =>
    constructor
    · intro h
      cases h
    · rintro ⟨u, hu, -⟩
      cases hu
  | some w =>
    constructor
    · exact fun h => ⟨w, rfl, h⟩
    · rintro ⟨u, hu, h⟩
      cases hu
      exact h

/-- What is found in one of two mappings is found in the other. -/
theorem find?_of_sameEntries {ys zs : Entries} (h : sameEntries ys zs = true) {k : Scalar}
    {w : Value} (hFound : Entries.find? k ys = some w) :
    ∃ u, Entries.find? k zs = some u ∧ w.same u = true := by
  induction ys with
  | nil => cases hFound
  | cons y rest ih =>
    obtain ⟨k', w'⟩ := y
    obtain ⟨hFirst, hRest⟩ := sameEntries_cons.mp h
    rw [Entries.find?] at hFound
    split at hFound
    · next hSame =>
      cases hFound
      rwa [← Entries.find?_congr hSame]
    · exact ih hRest hFound

mutual

/-- Equality by value is transitive. -/
theorem same_trans : (x y z : Value) → x.same y = true → y.same z = true → x.same z = true
  | .scalar _, .scalar _, .scalar _, hxy, hyz => Scalar.same_trans hxy hyz
  | .list xs, .list ys, .list zs, hxy, hyz => sameItems_trans xs ys zs hxy hyz
  | .map xs, .map ys, .map zs, hxy, hyz => by
    obtain ⟨hxy, hxy'⟩ := Bool.and_eq_true_iff.mp hxy
    obtain ⟨hyz, hyz'⟩ := Bool.and_eq_true_iff.mp hyz
    refine Bool.and_eq_true_iff.mpr ⟨?_, sameEntries_trans xs ys zs hxy' hyz'⟩
    rw [eq_of_beq hxy, hyz]
  | .set xs, .set ys, .set zs, hxy, hyz => by
    obtain ⟨hxy, hxy'⟩ := Bool.and_eq_true_iff.mp hxy
    obtain ⟨hyz, hyz'⟩ := Bool.and_eq_true_iff.mp hyz
    refine Bool.and_eq_true_iff.mpr ⟨by rw [eq_of_beq hxy, hyz], List.all_eq_true.mpr fun x hx => ?_⟩
    obtain ⟨y, hy, hSame⟩ := List.any_eq_true.mp (List.all_eq_true.mp hxy' x hx)
    obtain ⟨z, hz, hSame'⟩ := List.any_eq_true.mp (List.all_eq_true.mp hyz' y hy)
    exact List.any_eq_true.mpr ⟨z, hz, Scalar.same_trans hSame hSame'⟩

theorem sameItems_trans : (xs ys zs : List Value) → sameItems xs ys = true →
    sameItems ys zs = true → sameItems xs zs = true
  | [], [], [], _, _ => rfl
  | x :: xs, y :: ys, z :: zs, hxy, hyz => by
    obtain ⟨hxy, hxy'⟩ := Bool.and_eq_true_iff.mp hxy
    obtain ⟨hyz, hyz'⟩ := Bool.and_eq_true_iff.mp hyz
    exact Bool.and_eq_true_iff.mpr
      ⟨same_trans x y z hxy hyz, sameItems_trans xs ys zs hxy' hyz'⟩

theorem sameEntries_trans : (xs ys zs : List (Scalar × Value)) → sameEntries xs ys = true →
    sameEntries ys zs = true → sameEntries xs zs = true
  | [], _, _, _, _ => rfl
  | (k, v) :: xs, ys, zs, hxy, hyz => by
    obtain ⟨⟨w, hw, hFirst⟩, hRest⟩ := sameEntries_cons.mp hxy
    obtain ⟨u, hu, hSame⟩ := find?_of_sameEntries hyz hw
    exact sameEntries_cons.mpr
      ⟨⟨u, hu, same_trans v w u hFirst hSame⟩, sameEntries_trans xs ys zs hRest hyz⟩

end

end Value

end IntegrationCompiler
