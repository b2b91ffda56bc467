import IntegrationCompiler.Proofs.Reference.Parts

/-!
# The rules for a schema, given steps for its parts

The rules for a schema are given how references are followed and how inner schemas are expanded.
They treat both as steps that run one after the other, so a relation between runs passes from the
parts of a schema to the schema.

* `expandWith_agrees` — if the given steps agree on the parts of a schema and on the reference that
  it is, then so does its expansion;
* `expand_eq` — the expansion of a schema in terms of the expansions of its parts, without the
  nesting depth that bounds the recursion;
* `Resolver.Following`, `Resolver.following` — what following a reference does, case by case.
-/

namespace IntegrationCompiler

open Resolving Value

/-! ## One equation for each form of a schema -/

section Forms

variable {follow : String → Resolving (Option Entries)} {sub : Value → Resolving (Option Entries)}
variable {schema : Entries}

theorem expandWith_of_reference {v : Value} (h : Entries.get? schema "$ref" = some v) :
    expandWith follow sub (.map schema) = followValue follow v := by
  unfold expandWith
  dsimp only
  rw [h]

theorem expandWith_of_union (hRef : Entries.has schema "$ref" = false)
    (hAll : Entries.has schema "allOf" = true) :
    expandWith follow sub (.map schema) = some <$> expandUnion sub schema := by
  unfold expandWith
  dsimp only
  rw [Entries.get?_of_has_eq_false hRef, hAll]
  rfl

theorem expandWith_of_choice {keyword : String} (hRef : Entries.has schema "$ref" = false)
    (hAll : Entries.has schema "allOf" = false)
    (hKeyword : keyword = "oneOf" ∧ Entries.has schema "oneOf" = true ∨
      keyword = "anyOf" ∧ Entries.has schema "oneOf" = false ∧
        Entries.has schema "anyOf" = true) :
    expandWith follow sub (.map schema) = expandChoice sub schema keyword := by
  unfold expandWith
  dsimp only
  rcases hKeyword with ⟨rfl, hOne⟩ | ⟨rfl, hOne, hAny⟩
  · rw [Entries.get?_of_has_eq_false hRef, hAll, hOne]
    rfl
  · rw [Entries.get?_of_has_eq_false hRef, hAll, hOne, hAny]
    rfl

theorem expandWith_of_direct (h : Direct schema) :
    expandWith follow sub (.map schema) =
      some <$> schema.mapM fun (key, v) => return (key, ← expandKeyword sub key v) := by
  obtain ⟨hRef, hAll, hOne, hAny⟩ := h.has
  unfold expandWith
  dsimp only
  rw [Entries.get?_of_has_eq_false hRef, hAll, hOne, hAny]
  rfl

end Forms

/-! ## The rules agree where the given steps agree -/

section Rules

variable {I : Session → Session → Prop} (hI : IgnoresLog I)
variable {follow follow' : String → Resolving (Option Entries)}
variable {sub sub' : Value → Resolving (Option Entries)}

/-- The items at a key are fixed by the schema alone. -/
theorem itemsAt_cases (schema : Entries) (key : String) :
    (∃ items, itemsAt schema key = pure items ∧ ∀ v ∈ items, v ∈ itemsUnder schema key) ∨
      itemsAt schema key = throw .malformed := by
  unfold itemsAt itemsUnder present?
  by_cases hTruthy : (Entries.getOrNull schema key).truthy
  · rw [if_pos hTruthy]
    dsimp only
    cases (Entries.getOrNull schema key).walk? with
    | none => exact Or.inr rfl
    | some items => exact Or.inl ⟨items, rfl, fun v hv => hv⟩
  · rw [if_neg hTruthy]
    exact Or.inl ⟨[], rfl, fun v hv => nomatch hv⟩

/-- What can be walked through is read. -/
theorem itemsAt_eq {schema : Entries} {key : String}
    (h : (Entries.getOrNull schema key).truthy = true → (Entries.getOrNull schema key).walk?.isSome) :
    itemsAt schema key = pure (itemsUnder schema key) := by
  unfold itemsAt itemsUnder present?
  cases hTruthy : (Entries.getOrNull schema key).truthy with
  | false =>
    rw [walk?_of_not_truthy hTruthy]
    rfl
  | true =>
    obtain ⟨items, hItems⟩ := Option.isSome_iff_exists.mp (h hTruthy)
    rw [if_pos rfl]
    dsimp only
    rw [hItems]
    rfl

include hI in
theorem followValue_agrees {v : Value}
    (hFollow : ∀ ref, v = .str ref → Agrees I (follow ref) (follow' ref)) :
    Agrees I (followValue follow v) (followValue follow' v) := by
  cases v with
  | scalar s =>
    cases s with
    | str ref => exact hFollow ref rfl
    | _ => exact (Agrees.remark hI _ _).bind fun _ => .pure none
  | _ => exact .throw .malformed

theorem expandProperties_agrees {properties : Entries}
    (hSub : ∀ p ∈ (Value.map properties).entryValues, Agrees I (sub p) (sub' p)) :
    Agrees I (expandProperties sub properties) (expandProperties sub' properties) := by
  refine Agrees.mapM fun e he => ?_
  exact (hSub e.2 (List.mem_map_of_mem he)).bind fun _ => .pure _

theorem itemsAt_agrees (schema : Entries) (key : String) :
    Agrees I (itemsAt schema key) (itemsAt schema key) := by
  rcases itemsAt_cases schema key with ⟨items, hItems, -⟩ | hItems
  · exact hItems ▸ .pure items
  · exact hItems ▸ .throw .malformed

theorem add_agrees (u : Merged) (member : Entries) :
    Agrees I (u.add member) (u.add member) := by
  refine Agrees.bind ?_ fun _ => (itemsAt_agrees member "required").bind fun _ => .pure _
  unfold Merged.propertiesOf
  split
  · exact .pure []
  · exact .orMalformed _

theorem addMember_agrees (u : Merged) {member : Value}
    (hSub : Agrees I (sub member) (sub' member)) :
    Agrees I (addMember sub u member) (addMember sub' u member) := by
  refine hSub.bind fun found => ?_
  match found with
  | none => exact .pure u
  -- an empty schema does not count as present either
  | some [] => exact .pure u
  | some (e :: rest) => exact add_agrees u (e :: rest)

theorem ownProperties_agrees {schema : Entries}
    (hSub : ∀ p ∈ (Entries.getOrNull schema "properties").entryValues, Agrees I (sub p) (sub' p)) :
    Agrees I (ownProperties sub schema) (ownProperties sub' schema) := by
  unfold ownProperties
  rw [Entries.getOrNull] at hSub
  cases hProperties : Entries.get? schema "properties" with
  | none => exact .pure []
  | some v =>
    rw [hProperties, Option.getD_some] at hSub
    cases v with
    | map properties => exact expandProperties_agrees hSub
    | _ => exact .throw .malformed

theorem expandUnion_agrees {schema : Entries}
    (hMembers : ∀ p ∈ itemsUnder schema "allOf", Agrees I (sub p) (sub' p))
    (hOwn : ∀ p ∈ (Entries.getOrNull schema "properties").entryValues, Agrees I (sub p) (sub' p)) :
    Agrees I (expandUnion sub schema) (expandUnion sub' schema) := by
  unfold expandUnion
  rw [itemsUnder] at hMembers
  cases hWalk : (Entries.getOrNull schema "allOf").walk? with
  | none => exact .throw .malformed
  | some members =>
    rw [hWalk, Option.getD_some] at hMembers
    refine (Agrees.foldlM (fun u p hp => addMember_agrees u (hMembers p hp)) {}).bind fun u => ?_
    refine (ownProperties_agrees hOwn).bind fun own => ?_
    exact (itemsAt_agrees schema "required").bind fun required => .pure _

theorem firstMember_agrees {members : List Value}
    (hSub : ∀ p ∈ members, Agrees I (sub p) (sub' p)) :
    Agrees I (firstMember sub members) (firstMember sub' members) := by
  induction members with
  | nil => exact .pure none
  | cons member rest ih =>
    refine (hSub member List.mem_cons_self).bind fun found => ?_
    cases found with
    | some resolved => exact .pure (some resolved)
    | none => exact ih fun p hp => hSub p (List.mem_cons_of_mem _ hp)

include hI in
theorem expandChoice_agrees {schema : Entries} {keyword : String}
    (hSub : ∀ p ∈ itemsUnder schema keyword, Agrees I (sub p) (sub' p)) :
    Agrees I (expandChoice sub schema keyword) (expandChoice sub' schema keyword) := by
  unfold expandChoice
  rcases itemsAt_cases schema keyword with ⟨items, hItems, hMem⟩ | hItems
  · rw [hItems, pure_bind, pure_bind]
    refine (firstMember_agrees fun p hp => hSub p (hMem p hp)).bind fun found => ?_
    cases found with
    | none => exact .pure none
    | some resolved =>
      refine Agrees.bind ?_ fun _ => .pure _
      unfold remarkChoice
      split
      · exact .remark hI _ _
      · exact .pure _
  · rw [hItems]
    exact .throw .malformed

theorem expandKeyword_agrees {key : Scalar} {v : Value}
    (hSub : ∀ p ∈ keywordParts key v, Agrees I (sub p) (sub' p)) :
    Agrees I (expandKeyword sub key v) (expandKeyword sub' key v) := by
  cases v with
  | map inner =>
    unfold expandKeyword
    rw [keywordParts] at hSub
    dsimp only
    split
    · next hKey =>
      rw [if_pos hKey] at hSub
      exact (expandProperties_agrees hSub).bind fun _ => .pure _
    · next hKey =>
      rw [if_neg hKey] at hSub
      split
      · next hAny =>
        rw [if_pos hAny] at hSub
        exact (hSub _ List.mem_cons_self).bind fun _ => .pure _
      · exact .pure _
  | _ => exact .pure _

include hI in
/-- **The rules look only at the parts and at the reference.** Whatever relation between sessions
the given steps keep there, the expansion of the schema keeps it. -/
theorem expandWith_agrees {v : Value}
    (hFollow : ∀ ref, v.ref? = some ref → Agrees I (follow ref) (follow' ref))
    (hSub : ∀ p ∈ v.parts, Agrees I (sub p) (sub' p)) :
    Agrees I (expandWith follow sub v) (expandWith follow' sub' v) := by
  cases v with
  | map schema =>
    cases form schema with
    | reference v hRef =>
      rw [expandWith_of_reference hRef, expandWith_of_reference hRef]
      refine followValue_agrees hI fun r hr => hFollow r ?_
      rw [ref?, hRef, hr]
    | union hRef hAll =>
      rw [parts_of_union hRef hAll] at hSub
      rw [expandWith_of_union hRef hAll, expandWith_of_union hRef hAll]
      refine (expandUnion_agrees (fun p hp => ?_) fun p hp => ?_).map some
      · exact hSub p (List.mem_append_left _ hp)
      · exact hSub p (List.mem_append_right _ hp)
    | choice keyword hRef hAll hKeyword =>
      rw [parts_of_choice hRef hAll hKeyword] at hSub
      rw [expandWith_of_choice hRef hAll hKeyword, expandWith_of_choice hRef hAll hKeyword]
      exact expandChoice_agrees hI hSub
    | direct hDirect =>
      rw [parts_of_direct hDirect] at hSub
      rw [expandWith_of_direct hDirect, expandWith_of_direct hDirect]
      refine (Agrees.mapM fun e he => ?_).map some
      refine (expandKeyword_agrees fun p hp => hSub p ?_).bind fun _ => .pure _
      exact List.mem_flatMap.mpr ⟨e, he, hp⟩
  | _ => exact .pure none

end Rules

/-! ## The expansion of a schema without its depth -/

/-- A step that agrees with another from every session is that other. -/
theorem eq_of_agrees {α : Type} {x y : Resolving α} (h : Agrees Eq x y) : x = y :=
  ext_on fun s => Prod.ext (h s s rfl).1 (h s s rfl).2

theorem expandWith_congr {follow : String → Resolving (Option Entries)}
    {sub sub' : Value → Resolving (Option Entries)} {v : Value}
    (hSub : ∀ p ∈ v.parts, sub p = sub' p) :
    expandWith follow sub v = expandWith follow sub' v := by
  have hLog : IgnoresLog Eq := fun s t _ h => h ▸ rfl
  refine eq_of_agrees (expandWith_agrees hLog (fun ref _ => ?_) fun p hp => ?_)
  · exact fun s t h => h ▸ ⟨rfl, rfl⟩
  · exact hSub p hp ▸ fun s t h => h ▸ ⟨rfl, rfl⟩

/-- Depth beyond that of the schema changes nothing. -/
theorem expandTo_eq_expand {follow : String → Resolving (Option Entries)} {depth : Nat} {v : Value}
    (h : v.depth ≤ depth) : expandTo follow depth v = expand follow v := by
  induction depth using Nat.strongRecOn generalizing v with
  | ind depth ih =>
    obtain ⟨least, hLeast⟩ := Nat.exists_eq_add_of_lt (depth_pos v)
    obtain ⟨rest, rfl⟩ := Nat.exists_eq_add_of_le h
    rw [expand, hLeast, Nat.zero_add, show least + 1 + rest = least + rest + 1 by omega, expandTo,
      expandTo]
    refine expandWith_congr fun p hp => ?_
    -- a part is nested less deep, so that what is left of either depth is enough for it
    have hDepth := (below_of_mem_parts hp).1
    rw [ih (least + rest) (by omega) (by omega), ih least (by omega) (by omega)]

/-- The expansion of a schema is made of the expansions of its parts. -/
theorem expand_eq (follow : String → Resolving (Option Entries)) (v : Value) :
    expand follow v = expandWith follow (expand follow) v := by
  obtain ⟨least, hLeast⟩ := Nat.exists_eq_add_of_lt (depth_pos v)
  rw [expand, hLeast, Nat.zero_add, expandTo]
  refine expandWith_congr fun p hp => expandTo_eq_expand ?_
  have hDepth := (below_of_mem_parts hp).1
  omega

/-! ## Following a reference, case by case -/

namespace Resolver

variable {document : Value} {target : Value → Resolving (Option Entries)} {ref : String}
variable {s : Session}

/-- What remains to do when the expansion of what `ref` names has ended: the reference is no longer
active, and a result is remembered. -/
def closing (ref : String) (ended : Except Failure (Option Entries) × Session) :
    Except Failure (Option Entries) × Session :=
  match ended with
  | (.ok resolved, t) =>
    (.ok resolved,
      { t with active := t.active.drop 1, resolved := (ref, resolved) :: t.resolved })
  | (.error e, t) => (.error e, { t with active := t.active.drop 1 })

theorem closing_fst (ref : String) (ended : Except Failure (Option Entries) × Session) :
    (closing ref ended).1 = ended.1 := by
  obtain ⟨_ | _, _⟩ := ended <;> rfl

theorem closing_active (ref : String) (ended : Except Failure (Option Entries) × Session) :
    (closing ref ended).2.active = ended.2.active.drop 1 := by
  obtain ⟨_ | _, _⟩ := ended <;> rfl

theorem followWith_of_active (h : ref ∈ s.active) :
    (followWith document target ref).on s = (.ok (some (placeholder ref)), s) := by
  rw [followWith, on_bind, on_get]
  dsimp only
  rw [if_pos (List.contains_iff_mem.mpr h), on_pure]

theorem followWith_of_remembered {resolved : Option Entries} (h : ref ∉ s.active)
    (hResolved : s.resolved.lookup ref = some resolved) :
    (followWith document target ref).on s = (.ok resolved, s) := by
  rw [followWith, on_bind, on_get]
  dsimp only
  rw [if_neg (mt List.contains_iff_mem.mp h), hResolved]
  rfl

theorem followWith_of_new (h : ref ∉ s.active) (hResolved : s.resolved.lookup ref = none) :
    (followWith document target ref).on s = (enter document target ref).on s := by
  rw [followWith, on_bind, on_get]
  dsimp only
  rw [if_neg (mt List.contains_iff_mem.mp h), hResolved]

/-- What following a reference does from a session, whatever the expansion of what it names may
be. -/
inductive Following (document : Value) (ref : String) (s : Session) : Prop where
  | active : ref ∈ s.active →
    (∀ target, (followWith document target ref).on s = (.ok (some (placeholder ref)), s)) →
    Following document ref s
  | remembered (resolved : Option Entries) : ref ∉ s.active →
    s.resolved.lookup ref = some resolved →
    (∀ target, (followWith document target ref).on s = (.ok resolved, s)) →
    Following document ref s
  | nowhere (log : Log) : ref ∉ s.active → (∀ w, referent document ref = .ok w → w = .null) →
    (∀ target, (followWith document target ref).on s =
      ((referent document ref).map fun _ => none, { s with log := log })) →
    Following document ref s
  | target (w : Value) (log : Log) : ref ∉ s.active → s.resolved.lookup ref = none →
    referent document ref = .ok w → w ≠ .null →
    (∀ target, (followWith document target ref).on s =
      closing ref ((target w).on { s with log := log, active := ref :: s.active })) →
    Following document ref s

theorem following (document : Value) (ref : String) (s : Session) :
    Following document ref s := by
  by_cases hActive : ref ∈ s.active
  · exact .active hActive fun target => followWith_of_active hActive
  cases hResolved : s.resolved.lookup ref with
  | some resolved =>
    exact .remembered resolved hActive hResolved fun target =>
      followWith_of_remembered hActive hResolved
  | none =>
    -- a lookup leaves remarks only, and they do not depend on what is done with its result
    obtain ⟨log, hLookup⟩ := lookup_on document ref s
    have hEnter : ∀ target, (followWith document target ref).on s = _ :=
      fun target => followWith_of_new hActive hResolved
    -- a failed lookup and null end here, and the session keeps all but its log
    cases hReferent : referent document ref with
    | error e =>
      refine .nowhere log hActive (by simp [hReferent]) fun target => ?_
      rw [hEnter, enter, on_bind, hLookup, hReferent]
      rfl
    | ok w =>
      by_cases hw : w = .null
      · subst hw
        refine .nowhere log hActive (by simp [hReferent]) fun target => ?_
        rw [hEnter, enter, on_bind, hLookup, hReferent]
        rfl
      · refine .target w log hActive hResolved hReferent hw fun target => ?_
        rw [hEnter, enter, on_bind, hLookup, hReferent]
        dsimp only
        split
        · exact absurd rfl hw
        · rw [on_bind, on_during]
          cases (target w).on { s with log := log, active := ref :: s.active } with
          | mk outcome t => cases outcome <;> rfl

end Resolver

end IntegrationCompiler
