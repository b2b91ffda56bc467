import IntegrationCompiler.Proofs.Reference.Plain
import IntegrationCompiler.Proofs.Value.Updates

/-!
# Merging the members of a union

What a resolved member contributes to the union of the members of `allOf`, and what comes of the
contributions.

* `appendNew_texts`, `appendNew_appendNew` — lists without repetitions;
* `Merged.contribution` — what a member contributes; `foldlM_addMember`, one after the other;
* `Resolver.resolve_regrouped` — members may be grouped into a union of their own.
-/

namespace IntegrationCompiler

open Resolving Value

/-! ## Lists without repetitions -/

theorem appendNew_append (xs ys : List Value) (y : Value) : appendNew xs (ys ++ [y]) =
    if (appendNew xs ys).any (·.same y) then appendNew xs ys else appendNew xs ys ++ [y] := by
  unfold appendNew
  rw [List.foldl_append]
  rfl

/-- What is appended is there, or something that is the same. -/
theorem exists_same_of_appendNew (xs ys : List Value) {y : Value} (hy : y ∈ ys) :
    ∃ x ∈ appendNew xs ys, x = y ∨ x.same y = true := by
  induction ys using List.reverseRecOn with
  | nil => cases hy
  | append_singleton rest last ih =>
    rw [appendNew_append]
    rcases List.mem_append.mp hy with hy | hy
    · obtain ⟨x, hx, hSame⟩ := ih hy
      refine ⟨x, ?_, hSame⟩
      split
      · exact hx
      · exact List.mem_append_left _ hx
    · cases List.mem_singleton.mp hy
      split
      · next hThere =>
        obtain ⟨x, hx, hSame⟩ := List.any_eq_true.mp hThere
        exact ⟨x, hx, Or.inr hSame⟩
      · exact ⟨y, List.mem_append_right _ List.mem_cons_self, Or.inl rfl⟩

/-- Repetitions may be left out before. -/
theorem appendNew_appendNew (xs ys : List Value) :
    appendNew xs (appendNew [] ys) = appendNew xs ys := by
  induction ys using List.reverseRecOn with
  | nil => rfl
  | append_singleton rest last ih =>
    rw [appendNew_append [] rest]
    split
    · next hThere =>
      -- what is left out would be left out later, since something like it is there
      obtain ⟨y, hy, hLast⟩ := List.any_eq_true.mp hThere
      obtain ⟨x, hx, hSame⟩ := exists_same_of_appendNew xs (appendNew [] rest) hy
      rw [ih] at hx ⊢
      have hFound : (appendNew xs rest).any (·.same last) = true := by
        refine List.any_eq_true.mpr ⟨x, hx, ?_⟩
        rcases hSame with rfl | hSame
        · exact hLast
        · exact same_trans x y last hSame hLast
      rw [appendNew_append, if_pos hFound]
    · rw [appendNew_append, appendNew_append, ih]

/-- Of texts, the first of each is kept. -/
theorem appendNew_texts (names : List String) :
    appendNew [] (names.map .str) = names.eraseDups.map .str := by
  have hFold : ∀ acc : List String, appendNew (acc.map .str) (names.map .str) =
      (names.foldl (fun acc y => if acc.any (y == ·) then acc else acc ++ [y]) acc).map .str := by
    induction names with
    | nil => exact fun acc => rfl
    | cons name rest ih =>
      intro acc
      have hAny : (acc.map Value.str).any (·.same (.str name)) = acc.any (name == ·) := by
        rw [List.any_map]
        refine congrArg (acc.any ·) (funext fun other => ?_)
        rw [Bool.eq_iff_iff, Function.comp_apply, same_str, beq_iff_eq]
        exact ⟨fun h => (Scalar.str.inj (Value.scalar.inj h)).symm, fun h => congrArg Value.str h.symm⟩
      rw [List.map_cons, List.foldl_cons, ← ih, appendNew, List.foldl_cons, hAny]
      split
      · rfl
      · rw [List.map_append]
        rfl
  exact (hFold []).trans (congrArg _ (foldl_add_eq_loop (· == ·) [] names))

/-! ## Contributions -/

namespace Merged

theorem extend_cons (u c : Merged) (rest : List Merged) :
    u.extend (c :: rest) = (u.extend [c]).extend rest :=
  extend_append u [c] rest

theorem extend_singleton (u c : Merged) : u.extend [c] =
    ⟨u.properties.update c.properties, appendNew u.required c.required⟩ := by
  rw [extend, List.flatMap_singleton, List.flatMap_singleton]

/-- **Contributions may be brought together before they are added.** -/
theorem extend_extend (u : Merged) (contributions : List Merged) :
    u.extend [({} : Merged).extend contributions] = u.extend contributions := by
  rw [extend_singleton, extend, extend, Entries.update_update, appendNew_appendNew]

theorem add_eq (u : Merged) (member : Entries) : u.add member = (do
    let properties ← propertiesOf member
    let required ← itemsAt member "required"
    pure (u.extend [⟨properties, required⟩])) := by
  simp only [extend_singleton]
  rfl

/-- What stands under the keywords of a union is what it is made of. -/
theorem add_toSchema (u other : Merged) (beside : Entries) :
    u.add (other.toSchema beside) = pure (u.extend [other]) := by
  obtain ⟨properties, required⟩ := other
  have hProperties : propertiesOf (toSchema ⟨properties, required⟩ beside) = pure properties := by
    cases properties <;> rfl
  have hRequired : itemsAt (toSchema ⟨properties, required⟩ beside) "required" = pure required := by
    cases required <;> rfl
  rw [add_eq, hProperties, hRequired]
  rfl

end Merged

section

variable {sub : Value → Resolving (Option Entries)}

/-- What a member contributes. -/
def contribution (sub : Value → Resolving (Option Entries)) (member : Value) : Resolving Merged := do
  match ← sub member with
  | none => pure {}
  | some [] => pure {}
  | some resolved =>
    let properties ← Merged.propertiesOf resolved
    let required ← itemsAt resolved "required"
    pure ⟨properties, required⟩

theorem addMember_eq (u : Merged) (member : Value) :
    addMember sub u member = (fun c => u.extend [c]) <$> contribution sub member := by
  unfold addMember contribution
  rw [map_bind]
  refine bind_congr fun found => ?_
  match found with
  | none => rfl
  | some [] => rfl
  | some (e :: rest) =>
    dsimp only
    rw [Merged.add_eq, map_bind]
    refine bind_congr fun properties => ?_
    rw [map_bind]
    refine bind_congr fun required => ?_
    rw [map_pure]

/-- **Adding members one after the other is adding their contributions.** -/
theorem foldlM_addMember (members : List Value) (u : Merged) :
    members.foldlM (addMember sub) u = u.extend <$> members.mapM (contribution sub) := by
  induction members generalizing u with
  | nil => rfl
  | cons member rest ih =>
    rw [List.foldlM_cons, List.mapM_cons, addMember_eq, map_bind, bind_map_left]
    refine bind_congr fun c => ?_
    rw [ih, map_bind, map_eq_pure_bind]
    refine bind_congr fun cs => ?_
    rw [map_pure, ← Merged.extend_cons]

/-! ## Groups of members -/

/-- Some members as one member. -/
def groupOf (members : List Value) : Value :=
  .object [("allOf", .list members)]

theorem expandUnion_groupOf (members : List Value) :
    expandUnion sub [(.str "allOf", .list members)] =
      (fun u => u.toSchema [(.str "allOf", .list members)]) <$> members.foldlM (addMember sub) {} := by
  rw [map_eq_pure_bind]
  rfl

theorem addMember_groupOf {members : List Value} (u : Merged)
    (hSub : sub (groupOf members) = some <$> expandUnion sub [(.str "allOf", .list members)]) :
    addMember sub u (groupOf members) = members.foldlM (addMember sub) u := by
  rw [foldlM_addMember members u, addMember, hSub, expandUnion_groupOf, foldlM_addMember,
    Functor.map_map, Functor.map_map, bind_map_left, map_eq_pure_bind]
  refine bind_congr fun contributions => ?_
  exact (Merged.add_toSchema u _ _).trans (congrArg pure (Merged.extend_extend u contributions))

/-- The keywords beside `allOf` do not change with its members. -/
theorem expandUnion_set (schema : Entries) (members : List Value) :
    expandUnion sub (Entries.set schema "allOf" (.list members)) = (do
      let u ← members.foldlM (addMember sub) {}
      let own ← ownProperties sub schema
      let required ← itemsAt schema "required"
      pure (Merged.toSchema ⟨u.properties.update own, appendNew u.required required⟩ schema)) := by
  have hMembers : Entries.getOrNull (Entries.set schema "allOf" (.list members)) "allOf" =
      .list members := by
    rw [Entries.getOrNull, Entries.get?_set, if_pos rfl]
    rfl
  unfold expandUnion ownProperties itemsAt Merged.toSchema
  rw [hMembers]
  simp only [Entries.getOrNull, Entries.get?_set, String.reduceEq, if_false, List.filterMap_cons,
    List.filterMap_nil]
  rfl

end

/-! ## Resolving a union -/

namespace Resolver

variable {document : Value} {schema : Entries}

/-- A schema with `allOf` that is no reference is resolved as a union. -/
theorem resolve_of_union (hRef : Entries.has schema "$ref" = false)
    (hAll : Entries.has schema "allOf" = true) :
    resolve document (.map schema) = some <$> expandUnion (resolve document) schema := by
  rw [resolve_eq, resolveStep, expandWith_of_union hRef hAll]

theorem foldlM_regrouped (before inner after : List Value) (u : Merged) :
    (before ++ groupOf inner :: after).foldlM (addMember (resolve document)) u =
      (before ++ inner ++ after).foldlM (addMember (resolve document)) u := by
  have hGroup : resolve document (groupOf inner) =
      some <$> expandUnion (resolve document) [(.str "allOf", .list inner)] :=
    @resolve_of_union document [(.str "allOf", .list inner)] rfl rfl
  rw [List.append_assoc, List.foldlM_append, List.foldlM_append]
  refine bind_congr fun u' => ?_
  rw [List.foldlM_cons, List.foldlM_append, addMember_groupOf u' hGroup]

/-- **Members may be grouped.** If some members of `allOf` that follow one another are replaced by
one union of them, resolving the schema does the same. -/
theorem resolve_regrouped (document : Value) (schema : Entries) (before inner after : List Value) :
    resolve document (.map (Entries.set schema "allOf" (.list (before ++ groupOf inner :: after)))) =
      resolve document (.map (Entries.set schema "allOf" (.list (before ++ inner ++ after)))) := by
  have hKept (members : List Value) :
      Entries.get? (Entries.set schema "allOf" (.list members)) "$ref" = Entries.get? schema "$ref" := by
    rw [Entries.get?_set, if_neg (by decide)]
  have hAll (members : List Value) :
      Entries.has (Entries.set schema "allOf" (.list members)) "allOf" = true := by
    rw [Entries.has, Entries.get?_set, if_pos rfl]
    rfl
  cases hRef : Entries.get? schema "$ref" with
  | some v =>
    -- a reference has no members
    rw [resolve_eq, resolve_eq, resolveStep, expandWith_of_reference ((hKept _).trans hRef),
      expandWith_of_reference ((hKept _).trans hRef)]
  | none =>
    have hNoRef (members : List Value) :
        Entries.has (Entries.set schema "allOf" (.list members)) "$ref" = false := by
      rw [Entries.has, hKept, hRef]
      rfl
    rw [resolve_of_union (hNoRef _) (hAll _), resolve_of_union (hNoRef _) (hAll _), expandUnion_set,
      expandUnion_set, foldlM_regrouped]

end Resolver

end IntegrationCompiler
