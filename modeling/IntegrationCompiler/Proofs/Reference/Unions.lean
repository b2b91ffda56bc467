import IntegrationCompiler.Proofs.Reference.WellMade

/-!
# Unions of schemas

A schema with `allOf` is resolved to one object schema, to which its members and then the keywords
beside them contribute properties and required names.

* `Merged.lastOf` — the last contribution to a property;
* `Resolver.IsUnion` — a schema is the union of contributions;
* `Resolver.resolve_union` — a well-made union is resolved to the union of what its members and the
  keywords beside them contribute, and it does not matter how its members are grouped.
-/

namespace IntegrationCompiler

open Resolving Value

/-! ## What comes of contributions -/

/-- What the last contributor has under a name. Within one contribution the last entry counts. -/
def Merged.lastOf (name : Scalar) (contributions : List Merged) : Option Value :=
  contributions.reverse.findSome? fun c => Entries.find? name c.properties.reverse

theorem Merged.find?_extend (name : Scalar) (contributions : List Merged) :
    Entries.find? name (({} : Merged).extend contributions).properties =
      lastOf name contributions := by
  rw [extend, Entries.find?_update, lastOf]
  induction contributions using List.reverseRecOn with
  | nil => rfl
  | append_singleton rest last ih =>
    rw [List.flatMap_append, List.flatMap_singleton, List.reverse_append, Entries.find?_append,
      Option.or_assoc, ih, List.reverse_append, List.reverse_singleton, List.singleton_append,
      List.findSome?_cons]
    cases Entries.find? name last.properties.reverse <;> rfl

namespace Resolver

/-- The union of contributions is an object schema. Each of its properties is the last contribution
to it, and the properties stand in the order of the first contributions. The required names are
those of all contributions, in the order in which they come, each of them once. -/
structure IsUnion (contributions : List Merged) (es : Entries) : Prop where
  type : Entries.get? es "type" = some (.str "object")
  properties : ∃ properties, Entries.get? es "properties" = some (.map properties) ∧
    properties.map Prod.fst =
      ((contributions.flatMap (·.properties)).map Prod.fst).eraseDupsBy Scalar.same ∧
    ∀ name, Entries.find? name properties = Merged.lastOf name contributions
  required : ∃ names : List String, contributions.flatMap (·.required) = names.map .str ∧
    Entries.get? es "required" = some (.texts names.eraseDups)

theorem isUnion_extend {contributions : List Merged} (beside : Entries)
    (h : ∀ c ∈ contributions, ∃ names : List String, c.required = names.map .str) :
    IsUnion contributions ((({} : Merged).extend contributions).toSchema beside) where
  type := rfl
  properties :=
    ⟨_, rfl, Entries.keys_update _, fun name => Merged.find?_extend name contributions⟩
  required := by
    obtain ⟨names, hNames, hRequired⟩ := extend_required_texts h
    exact ⟨names, hNames, congrArg (fun names => some (Value.list names)) hRequired⟩

/-! ## Resolving a union -/

section

variable {document schema : Entries} {members : List Value}

/-- A resolver that has served any calls resolves the members, then the properties beside them, and
makes a union of what these contribute. -/
theorem resolve_isUnion (hRef : Entries.has schema "$ref" = false)
    (hAll : Entries.get? schema "allOf" = some (.list members))
    (hWell : WellMade (.map document) (.map schema)) (calls : List ResolverCall) :
    ∃ found own result t u,
      (members.mapM (resolve (.map document))).on (sessionAfter document calls) = (.ok found, t) ∧
      (ownProperties (resolve (.map document)) schema).on t = (.ok own, u) ∧
      (resolve (.map document) (.map schema)).on (sessionAfter document calls) =
        (.ok (some result), u) ∧
      IsUnion (contributions found own schema) result := by
  have hHas : Entries.has schema "allOf" = true := by
    rw [Entries.has, hAll]
    rfl
  have hItems : Entries.getOrNull schema "allOf" = .list members := by
    rw [Entries.getOrNull, hAll]
    rfl
  have hShaped : Shaped schema := fun e he => (hWell schema .self e he).toShapedEntry
  have hSub {p : Value} (hPart : p ∈ (Value.map schema).parts) :
      AchievesShaped (ReliableAt (.map document) []) (resolve (.map document) p) :=
    resolve_achieves (.map document) ⟨[], p⟩ (hWell.part hPart)
  rw [parts_of_union hRef hHas, itemsUnder, hItems] at hSub
  obtain ⟨found, t, hFound, hFoundShaped, ht⟩ :=
    Achieves.mapM (fun p hp => hSub (List.mem_append_left _ hp)) _
      (reliableAt_sessionAfter document calls)
  obtain ⟨own, u, hOwn, -, -⟩ :=
    ownProperties_achieves hShaped (fun p hp => hSub (List.mem_append_right _ hp)) t ht
  refine ⟨found, own, _, t, u, hFound, hOwn, ?_,
    isUnion_extend schema (contributions_texts hFoundShaped hShaped)⟩
  rw [resolve_of_union hRef hHas, map_eq_pure_bind, on_bind,
    expandUnion_run (congrArg walk? hItems) hShaped hFound hFoundShaped hOwn]
  rfl

/-- **Resolving a union.** A well-made schema with `allOf` is resolved to the union of what its
members and then the keywords beside them contribute, by a resolver that has served any calls;
members that lead to no schema contribute nothing. If members that follow one another are replaced
by one union of them, the schema is resolved as before. -/
theorem resolve_union (hRef : Entries.has schema "$ref" = false)
    (hAll : Entries.get? schema "allOf" = some (.list members))
    (hWell : WellMade (.map document) (.map schema)) (calls : List ResolverCall) :
    (∃ found own result t u,
      (members.mapM (resolve (.map document))).on (sessionAfter document calls) = (.ok found, t) ∧
      (ownProperties (resolve (.map document)) schema).on t = (.ok own, u) ∧
      (resolve (.map document) (.map schema)).on (sessionAfter document calls) =
        (.ok (some result), u) ∧
      IsUnion (contributions found own schema) result) ∧
    ∀ before inner after, members = before ++ inner ++ after →
      resolve (.map document)
        (.map (Entries.set schema "allOf" (.list (before ++ groupOf inner :: after)))) =
      resolve (.map document) (.map schema) := by
  refine ⟨resolve_isUnion hRef hAll hWell calls, fun before inner after hMembers => ?_⟩
  rw [resolve_regrouped, ← hMembers, Entries.set_of_get? hAll]

end

/-! ### A schema that extends another one -/

theorem WellMadeEntry.of_walkable {document v : Value} {name : String}
    (hShaped : ShapedEntry (.str name) v) (hRef : name ≠ "$ref") (hWalk : v.walk?.isSome) :
    WellMadeEntry document (.str name) v where
  toShapedEntry := hShaped
  reference hKey := absurd (Scalar.str.inj hKey) hRef
  members _ := hWalk
  alternatives _ _ _ _ := hWalk

theorem WellMadeEntry.of_reference {document w : Value} {ref : String}
    (h : referent document ref = .ok w) : WellMadeEntry document (.str "$ref") (.str ref) where
  toShapedEntry := .of_other _ (by decide)
  reference _ := ⟨.str ref, rfl, fun other hRef => ⟨w, Scalar.str.inj hRef ▸ h⟩⟩
  members _ := rfl
  alternatives _ _ _ _ := rfl

/-- A schema of one type. -/
def ofType (name : String) : Value :=
  .object [("type", .str name)]

/-- A schema with an identifier. -/
def identified : Value :=
  .object [("properties", .object [("id", ofType "integer")]), ("required", .texts ["id"])]

/-- A document with that schema. -/
def identifiedOnly : Entries :=
  [(.str "components", .object [("schemas", .object [("Base", identified)])])]

/-- A schema that extends the former, and one that is not there. -/
def extendedPet : Entries :=
  [(.str "allOf", .list [ofRef "#/components/schemas/Base", ofRef "#/components/schemas/Gone"]),
    (.str "properties", .object [("id", ofType "string")]),
    (.str "required", .texts ["name", "id"])]

theorem visits_extendedPet {v : Value} (h : Visits (.map identifiedOnly) (.map extendedPet) v) :
    v ∈ [.map extendedPet, ofRef "#/components/schemas/Base", ofRef "#/components/schemas/Gone",
      identified, ofType "integer", ofType "string", .null] := by
  simp only [List.mem_cons, List.not_mem_nil, or_false]
  induction h with
  | self => exact .inl rfl
  | part _ hPart ih =>
    rcases ih with rfl | rfl | rfl | rfl | rfl | rfl | rfl
    · rcases List.mem_cons.mp hPart with rfl | hPart
      · simp
      · rcases List.mem_cons.mp hPart with rfl | hPart
        · simp
        · obtain rfl := List.mem_singleton.mp hPart
          simp
    · cases hPart
    · cases hPart
    · obtain rfl := List.mem_singleton.mp hPart
      simp
    · cases hPart
    · cases hPart
    · cases hPart
  | target _ hRef hNamed ih =>
    rcases ih with rfl | rfl | rfl | rfl | rfl | rfl | rfl
    · cases hRef
    · cases hRef
      cases hNamed
      simp [identified]
    · cases hRef
      cases hNamed
      simp
    all_goals cases hRef

theorem wellMade_extendedPet : WellMade (.map identifiedOnly) (.map extendedPet) := by
  intro es hes
  have hVisited := visits_extendedPet hes
  simp only [List.mem_cons, List.not_mem_nil, or_false] at hVisited
  have hProperties (inner : Entries) :
      WellMadeEntry (.map identifiedOnly) (.str "properties") (.map inner) :=
    .of_walkable (.properties_map inner) (by decide) rfl
  have hRequired (names : List String) :
      WellMadeEntry (.map identifiedOnly) (.str "required") (.texts names) :=
    .of_walkable (.required_texts names) (by decide) rfl
  have hOther {name : String} (hName : name ≠ "properties" ∧ name ≠ "required") (hRef : name ≠ "$ref")
      {v : Value} (hWalk : v.walk?.isSome) : WellMadeEntry (.map identifiedOnly) (.str name) v :=
    .of_walkable (.of_other v hName) hRef hWalk
  rcases hVisited with h | h | h | h | h | h | h <;> cases h
  · exact List.forall_mem_cons.mpr ⟨hOther (by decide) (by decide) rfl, List.forall_mem_cons.mpr
      ⟨hProperties _, List.forall_mem_singleton.mpr (hRequired _)⟩⟩
  · exact List.forall_mem_singleton.mpr (.of_reference (w := identified) rfl)
  · exact List.forall_mem_singleton.mpr (.of_reference (w := .null) rfl)
  · exact List.forall_mem_cons.mpr
      ⟨hProperties _, List.forall_mem_singleton.mpr (hRequired ["id"])⟩
  · exact List.forall_mem_singleton.mpr (hOther (by decide) (by decide) rfl)
  · exact List.forall_mem_singleton.mpr (hOther (by decide) (by decide) rfl)

theorem resolve_union_extendedPet :
    (∃ found own result t u,
      ([ofRef "#/components/schemas/Base", ofRef "#/components/schemas/Gone"].mapM
        (resolve (.map identifiedOnly))).on (sessionAfter identifiedOnly []) = (.ok found, t) ∧
      (ownProperties (resolve (.map identifiedOnly)) extendedPet).on t = (.ok own, u) ∧
      (resolve (.map identifiedOnly) (.map extendedPet)).on (sessionAfter identifiedOnly []) =
        (.ok (some result), u) ∧
      IsUnion (contributions found own extendedPet) result) ∧
    resolve (.map identifiedOnly) (.map (Entries.set extendedPet "allOf" (.list [groupOf
      [ofRef "#/components/schemas/Base", ofRef "#/components/schemas/Gone"]]))) =
      resolve (.map identifiedOnly) (.map extendedPet) := by
  obtain ⟨hUnion, hGroups⟩ := resolve_union rfl rfl wellMade_extendedPet []
  exact ⟨hUnion, hGroups [] [_, _] [] rfl⟩

/-- A document in which a list stands. -/
def serverList : Entries :=
  [(.str "servers", .list [.object [("url", .str "/")]])]

/-- A digit that is no index leads nowhere, and yet a union with such a member is not resolved. -/
theorem union_not_resolved :
    ¬ ∃ result, outcome (.map serverList) (.object [("allOf", .list [ofRef "#/servers/²",
      .object [("properties", .object [("name", ofType "string")])]])]) {} = .ok (some result) := by
  rintro ⟨result, h⟩
  have hFails : (outcome (.map serverList) (.object [("allOf", .list [ofRef "#/servers/²",
      .object [("properties", .object [("name", ofType "string")])]])]) {}).isOk = false := by
    decide +kernel
  rw [h] at hFails
  cases hFails

end Resolver

end IntegrationCompiler
