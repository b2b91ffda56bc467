import IntegrationCompiler.Value.JsonForm
import IntegrationCompiler.Proofs.Value.Tree
import Mathlib.Data.List.Nodup

/-!
# Values of JSON

The values that JSON has: no calendar values, no octets, no sets, no numbers without digits; the
keys of a mapping are distinct texts.

Main definition: `Value.IsJson`.

Main result: `Value.IsJson.jsonForm?` — such a value is its own JSON form.
-/

namespace IntegrationCompiler

/-! ## Storing under a new key -/

namespace Entries

/-- A value stored under a new key goes last. -/
theorem set_of_not_mem {es : Entries} {name : String} (h : .str name ∉ es.map Prod.fst)
    (v : Value) : es.set name v = es ++ [(.str name, v)] := by
  induction es with
  | nil => rfl
  | cons e rest ih =>
    obtain ⟨k, w⟩ := e
    rw [List.map_cons, List.mem_cons, not_or] at h
    have hNew : ¬ k.same (.str name) = true := fun hSame => h.1 (Scalar.same_str.mp hSame).symm
    rw [set, put, if_neg hNew, List.cons_append, ← ih h.2]
    rfl

/-- A value stored under a key that is there leaves the keys as they are. -/
theorem map_fst_set_of_mem {es : Entries} {name : String} (h : .str name ∈ es.map Prod.fst)
    (v : Value) : (es.set name v).map Prod.fst = es.map Prod.fst := by
  induction es with
  | nil => cases h
  | cons e rest ih =>
    obtain ⟨k, w⟩ := e
    rw [set, put]
    split
    · rfl
    · next hOther =>
      have hRest : .str name ∈ rest.map Prod.fst := by
        refine (List.mem_cons.mp h).resolve_left fun hSame => hOther ?_
        exact Scalar.same_str.mpr hSame.symm
      rw [List.map_cons, List.map_cons]
      exact congrArg _ (ih hRest)

theorem nodup_set {es : Entries} (h : (es.map Prod.fst).Nodup) (name : String) (v : Value) :
    ((es.set name v).map Prod.fst).Nodup := by
  by_cases hMem : .str name ∈ es.map Prod.fst
  · rwa [map_fst_set_of_mem hMem]
  · rw [set_of_not_mem hMem, List.map_append, List.map_singleton, ← List.concat_eq_append]
    exact h.concat hMem

end Entries

/-! ## The values -/

namespace Value

/-- The values that JSON has. -/
inductive IsJson : Value → Prop where
  | null : IsJson .null
  | bool (b : Bool) : IsJson (.bool b)
  | int (n : Int) : IsJson (.int n)
  | float (negative : Bool) (m : Nat) (q : Int) : IsJson (.float (.finite negative m q))
  | str (s : String) : IsJson (.str s)
  | list {items : List Value} (hItems : ∀ v ∈ items, IsJson v) : IsJson (.list items)
  | map {es : Entries} (hKeys : ∀ e ∈ es, ∃ name, e.1 = .str name)
      (hDistinct : (es.map Prod.fst).Nodup) (hValues : ∀ e ∈ es, IsJson e.2) : IsJson (.map es)

theorem isJson_object {fields : List (String × Value)} (hDistinct : (fields.map Prod.fst).Nodup)
    (hValues : ∀ e ∈ fields, IsJson e.2) : IsJson (.object fields) := by
  have hKeys : (fields.map fun field => (Scalar.str field.1, field.2)).map Prod.fst =
      (fields.map Prod.fst).map Scalar.str := by
    rw [List.map_map, List.map_map]
    rfl
  refine .map ?_ ?_ ?_
  · exact List.forall_mem_map.mpr fun e _ => ⟨e.1, rfl⟩
  · show ((fields.map fun field => (Scalar.str field.1, field.2)).map Prod.fst).Nodup
    rw [hKeys]
    exact hDistinct.map fun _ _ => Scalar.str.inj
  · exact List.forall_mem_map.mpr hValues

/-! ## The JSON form -/

theorem jsonItems?_eq_some {items : List Value} (h : ∀ v ∈ items, v.jsonForm? = some v) :
    jsonItems? items = some items := by
  induction items with
  | nil => rfl
  | cons v rest ih =>
    rw [List.forall_mem_cons] at h
    simp only [jsonItems?, h.1, ih h.2, bind, Option.bind]

theorem jsonEntries?_eq_some {es : Entries} (hKeys : ∀ e ∈ es, ∃ name, e.1 = .str name)
    (hValues : ∀ e ∈ es, e.2.jsonForm? = some e.2) (acc : Entries)
    (hDistinct : ((acc ++ es).map Prod.fst).Nodup) :
    jsonEntries? acc es = some (acc ++ es) := by
  induction es generalizing acc with
  | nil => rw [jsonEntries?, List.append_nil]
  | cons e rest ih =>
    obtain ⟨k, v⟩ := e
    rw [List.forall_mem_cons] at hKeys hValues
    obtain ⟨⟨name, rfl⟩, hKeys⟩ := hKeys
    have hNew : .str name ∉ acc.map Prod.fst := by
      rw [List.map_append, List.nodup_append'] at hDistinct
      exact fun hMem => hDistinct.2.2 hMem List.mem_cons_self
    have hSplit : acc ++ (.str name, v) :: rest = acc ++ [(.str name, v)] ++ rest := by simp
    rw [hSplit] at hDistinct ⊢
    simp only [jsonEntries?, Scalar.keyForm?, hValues.1, bind, Option.bind,
      Entries.set_of_not_mem hNew]
    exact ih hKeys hValues.2 _ hDistinct

/-- **A value of JSON is its own JSON form.** -/
theorem IsJson.jsonForm? {v : Value} (h : v.IsJson) : v.jsonForm? = some v := by
  induction h with
  | null | bool | int | float | str => rfl
  | list _ ih => rw [Value.jsonForm?, jsonItems?_eq_some ih, Option.map_some]
  | map hKeys hDistinct _ ih =>
    rw [Value.jsonForm?, jsonEntries?_eq_some hKeys ih [] hDistinct, Option.map_some,
      List.nil_append]

end Value

end IntegrationCompiler
