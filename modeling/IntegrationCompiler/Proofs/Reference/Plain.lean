import IntegrationCompiler.Proofs.Reference.History

/-!
# Resolving as plain recursion

What resolving is meant to compute, said without sessions: a reference is replaced by the expansion
of what it names, and a schema by the expansions of its parts. Nothing is remembered and no
reference is marked as active, so that the recursion has no end where references form a cycle; it is
therefore given a depth.

* `Plain.expandTo` — the plain recursion;
* `Settles` — a step of a resolver comes to what a plain computation comes to, in every session
  with a property, and keeps the property;
* `resolve_eq_plain` — where no cycle can be reached, a resolver computes the plain recursion,
  whatever it was used for before.
-/

namespace IntegrationCompiler

open Resolving Value Resolver

/-- A computation without a session; nothing comes out when it is not given enough depth. -/
abbrev Expanding (α : Type) := ExceptT Failure Option α

namespace Plain

/-! ## The plain recursion -/

/-- What is read at a key; nothing where the value does not count as present. -/
def readAt {α : Type} (read : Value → Option (List α)) (entries : Entries) (key : String) :
    Expanding (List α) :=
  match (Entries.getOrNull entries key).present? with
  | none => pure []
  | some v => orMalformed (read v)

section

variable (follow : String → Expanding (Option Entries)) (sub : Value → Expanding (Option Entries))

/-- Schemas under names. -/
def properties (fields : Entries) : Expanding Entries :=
  fields.mapM fun (name, v) => return (name, schemaValue (← sub v))

/-- What a member of `allOf` adds to the union. -/
def contribution (member : Value) : Expanding Merged := do
  match ← sub member with
  | none => pure {}
  | some resolved =>
    let properties ← readAt pairs? resolved "properties"
    let required ← readAt walk? resolved "required"
    pure ⟨properties, required⟩

/-- The contributions in their order: later properties win, and no name is required twice. -/
def merge (contributions : List Merged) : Merged where
  properties := Entries.update [] (contributions.flatMap (·.properties))
  required := appendNew [] (contributions.flatMap (·.required))

/-- The properties that stand beside a union. -/
def beside (schema : Entries) : Expanding Entries :=
  match Entries.get? schema "properties" with
  | none => pure []
  | some (.map fields) => properties sub fields
  | some _ => throw .malformed

/-- The union of the members of `allOf`; the schema itself contributes last. -/
def union (schema : Entries) : Expanding Entries := do
  let members ← orMalformed (Entries.getOrNull schema "allOf").walk?
  let contributions ← members.mapM (contribution sub)
  let own ← beside sub schema
  let required ← readAt walk? schema "required"
  pure ((merge (contributions ++ [⟨own, required⟩])).toSchema schema)

/-- The first member that leads to a schema. -/
def choice (schema : Entries) (keyword : String) : Expanding (Option Entries) := do
  let members ← readAt walk? schema keyword
  let found ← members.findSomeM? sub
  pure (found.map (describedAs schema))

/-- The entries of a schema, with the schemas under its keywords expanded. -/
def inPlace (schema : Entries) : Expanding Entries :=
  schema.mapM fun (key, v) =>
    match v with
    | .map inner =>
      if key = .str "properties" then return (key, .map (← properties sub inner))
      else if innerKeywords.any fun name => key = .str name then
        return (key, schemaValue (← sub v))
      else pure (key, v)
    | _ => pure (key, v)

/-- The value of `$ref`. -/
def reference : Value → Expanding (Option Entries)
  | .str ref => follow ref
  | .scalar _ => pure none
  | _ => throw .malformed

/-- One step of the recursion. -/
def step : Value → Expanding (Option Entries)
  | .map schema =>
    match Entries.get? schema "$ref" with
    | some ref => reference follow ref
    | none =>
      if Entries.has schema "allOf" then some <$> union sub schema
      else if Entries.has schema "oneOf" then choice sub schema "oneOf"
      else if Entries.has schema "anyOf" then choice sub schema "anyOf"
      else some <$> inPlace sub schema
  | _ => pure none

end

/-! ### One equation for each form of a schema -/

section Forms

variable {follow : String → Expanding (Option Entries)} {sub : Value → Expanding (Option Entries)}
variable {schema : Entries}

theorem step_of_reference {v : Value} (h : Entries.get? schema "$ref" = some v) :
    step follow sub (.map schema) = reference follow v := by
  unfold step
  dsimp only
  rw [h]

theorem step_of_union (hRef : Entries.has schema "$ref" = false)
    (hAll : Entries.has schema "allOf" = true) :
    step follow sub (.map schema) = some <$> union sub schema := by
  unfold step
  dsimp only
  rw [Entries.get?_of_has_eq_false hRef, hAll]
  rfl

theorem step_of_choice {keyword : String} (hRef : Entries.has schema "$ref" = false)
    (hAll : Entries.has schema "allOf" = false)
    (hKeyword : keyword = "oneOf" ∧ Entries.has schema "oneOf" = true ∨
      keyword = "anyOf" ∧ Entries.has schema "oneOf" = false ∧
        Entries.has schema "anyOf" = true) :
    step follow sub (.map schema) = choice sub schema keyword := by
  unfold step
  dsimp only
  rcases hKeyword with ⟨rfl, hOne⟩ | ⟨rfl, hOne, hAny⟩
  · rw [Entries.get?_of_has_eq_false hRef, hAll, hOne]
    rfl
  · rw [Entries.get?_of_has_eq_false hRef, hAll, hOne, hAny]
    rfl

theorem step_of_direct (h : Direct schema) :
    step follow sub (.map schema) = some <$> inPlace sub schema := by
  obtain ⟨hRef, hAll, hOne, hAny⟩ := h.has
  unfold step
  dsimp only
  rw [Entries.get?_of_has_eq_false hRef, hAll, hOne, hAny]
  rfl

end Forms

/-- The expansion of a schema, when references and schemas are less than `depth` deep inside one
another. -/
def expandTo (document : Value) : Nat → Value → Expanding (Option Entries)
  | 0, _ => ExceptT.mk none
  | depth + 1, v =>
    step (fun ref => do expandTo document depth (← liftExcept (referent document ref)))
      (expandTo document depth) v

end Plain

/-! ## Steps that come to a plain computation -/

/-- From every session with `I`, the step has the outcome of the plain computation, and `I` holds
again. -/
def Settles {α : Type} (I : Session → Prop) (x : Resolving α) (y : Expanding α) : Prop :=
  ∀ s, I s → y.run = some (x.on s).1 ∧ I (x.on s).2

namespace Settles

variable {α β : Type} {I : Session → Prop}

theorem pure (a : α) : Settles I (pure a) (pure a) := fun _ hs => ⟨rfl, hs⟩

theorem throw (e : Failure) : Settles (α := α) I (throw e) (throw e) := fun _ hs => ⟨rfl, hs⟩

theorem bind {x : Resolving α} {y : Expanding α} {f : α → Resolving β} {g : α → Expanding β}
    (hxy : Settles I x y) (hfg : ∀ a, Settles I (f a) (g a)) : Settles I (x >>= f) (y >>= g) := by
  intro s hs
  obtain ⟨hOut, hNext⟩ := hxy s hs
  rw [on_bind, ExceptT.run_bind, hOut]
  cases hRun : x.on s with
  | mk out t =>
    rw [hRun] at hNext
    cases out with
    | ok a => exact hfg a t hNext
    | error e => exact ⟨rfl, hNext⟩

theorem map {x : Resolving α} {y : Expanding α} (f : α → β) (h : Settles I x y) :
    Settles I (f <$> x) (f <$> y) := by
  rw [map_eq_pure_bind, map_eq_pure_bind]
  exact h.bind fun a => pure (f a)

theorem mapM {f : α → Resolving β} {g : α → Expanding β} {xs : List α}
    (h : ∀ a ∈ xs, Settles I (f a) (g a)) : Settles I (xs.mapM f) (xs.mapM g) := by
  induction xs with
  | nil => exact pure []
  | cons a rest ih =>
    rw [List.mapM_cons, List.mapM_cons]
    refine (h a List.mem_cons_self).bind fun b => ?_
    exact (ih fun c hc => h c (List.mem_cons_of_mem _ hc)).bind fun bs => pure (b :: bs)

theorem orMalformed (x : Option α) :
    Settles (α := α) I (IntegrationCompiler.orMalformed x) (IntegrationCompiler.orMalformed x) := by
  cases x with
  | none => exact throw .malformed
  | some a => exact pure a

end Settles

/-! ## The rules come to the plain rules -/

section Rules

variable {I : Session → Prop} (hI : LogFree I)
variable {follow : String → Resolving (Option Entries)}
variable {follow' : String → Expanding (Option Entries)}
variable {sub : Value → Resolving (Option Entries)} {sub' : Value → Expanding (Option Entries)}

/-- Items at a key are read alike. -/
theorem readAt_cases (schema : Entries) (key : String) :
    (∃ items, itemsAt schema key = pure items ∧ Plain.readAt walk? schema key = pure items ∧
        ∀ v ∈ items, v ∈ itemsUnder schema key) ∨
      itemsAt schema key = throw .malformed ∧ Plain.readAt walk? schema key = throw .malformed := by
  unfold itemsAt Plain.readAt itemsUnder present?
  by_cases hTruthy : (Entries.getOrNull schema key).truthy
  · rw [if_pos hTruthy]
    dsimp only
    cases (Entries.getOrNull schema key).walk? with
    | none => exact Or.inr ⟨rfl, rfl⟩
    | some items => exact Or.inl ⟨items, rfl, rfl, fun v hv => hv⟩
  · rw [if_neg hTruthy]
    exact Or.inl ⟨[], rfl, rfl, fun v hv => nomatch hv⟩

theorem itemsAt_settles (schema : Entries) (key : String) :
    Settles I (itemsAt schema key) (Plain.readAt walk? schema key) := by
  rcases readAt_cases schema key with ⟨items, hItems, hRead, -⟩ | ⟨hItems, hRead⟩
  · rw [hItems, hRead]
    exact .pure items
  · rw [hItems, hRead]
    exact .throw .malformed

theorem propertiesOf_settles (member : Entries) :
    Settles I (Merged.propertiesOf member) (Plain.readAt pairs? member "properties") := by
  unfold Merged.propertiesOf Plain.readAt
  cases (Entries.getOrNull member "properties").present? with
  | none => exact .pure []
  | some v => exact .orMalformed _

theorem expandProperties_settles {properties : Entries}
    (hSub : ∀ p ∈ (Value.map properties).entryValues, Settles I (sub p) (sub' p)) :
    Settles I (expandProperties sub properties) (Plain.properties sub' properties) := by
  refine Settles.mapM fun e he => ?_
  exact (hSub e.2 (List.mem_map_of_mem he)).bind fun _ => .pure _

/-- A union with some more contributions. -/
def Merged.extend (u : Merged) (contributions : List Merged) : Merged where
  properties := u.properties.update (contributions.flatMap (·.properties))
  required := appendNew u.required (contributions.flatMap (·.required))

theorem Merged.extend_append (u : Merged) (before after : List Merged) :
    u.extend (before ++ after) = (u.extend before).extend after := by
  unfold Merged.extend
  rw [List.flatMap_append, List.flatMap_append, Entries.update, List.foldl_append, appendNew,
    List.foldl_append]
  rfl

theorem addMember_settles (u : Merged) {member : Value}
    (hSub : Settles I (sub member) (sub' member)) :
    Settles I (addMember sub u member)
      ((fun c => u.extend [c]) <$> Plain.contribution sub' member) := by
  unfold Plain.contribution
  rw [map_bind]
  refine hSub.bind fun found => ?_
  match found with
  | none => exact .pure u
  | some [] => exact .pure u
  | some (e :: rest) =>
    rw [map_bind]
    refine (propertiesOf_settles (e :: rest)).bind fun properties => ?_
    rw [map_bind]
    refine (itemsAt_settles (e :: rest) "required").bind fun required => ?_
    rw [map_pure, Merged.extend, List.flatMap_singleton, List.flatMap_singleton]
    exact .pure _

/-- Adding members one after the other is merging their contributions. -/
theorem addMembers_settles {members : List Value} (u : Merged)
    (hSub : ∀ p ∈ members, Settles I (sub p) (sub' p)) :
    Settles I (members.foldlM (addMember sub) u)
      (u.extend <$> members.mapM (Plain.contribution sub')) := by
  induction members generalizing u with
  | nil => exact .pure u
  | cons member rest ih =>
    have hSplit : u.extend <$> (member :: rest).mapM (Plain.contribution sub') =
        ((fun c => u.extend [c]) <$> Plain.contribution sub' member) >>= fun u' =>
          u'.extend <$> rest.mapM (Plain.contribution sub') := by
      rw [List.mapM_cons, map_bind, bind_map_left]
      refine bind_congr fun c => ?_
      rw [map_bind, map_eq_pure_bind]
      refine bind_congr fun cs => ?_
      rw [map_pure, ← Merged.extend_append]
      rfl
    rw [List.foldlM_cons, hSplit]
    refine (addMember_settles u (hSub member List.mem_cons_self)).bind fun u' => ?_
    exact ih u' fun p hp => hSub p (List.mem_cons_of_mem _ hp)

theorem ownProperties_settles {schema : Entries}
    (hSub : ∀ p ∈ (Entries.getOrNull schema "properties").entryValues,
      Settles I (sub p) (sub' p)) :
    Settles I (ownProperties sub schema) (Plain.beside sub' schema) := by
  unfold ownProperties Plain.beside
  rw [Entries.getOrNull] at hSub
  cases hProperties : Entries.get? schema "properties" with
  | none => exact .pure []
  | some v =>
    rw [hProperties, Option.getD_some] at hSub
    cases v with
    | map properties => exact expandProperties_settles hSub
    | _ => exact .throw .malformed

theorem expandUnion_settles {schema : Entries}
    (hMembers : ∀ p ∈ itemsUnder schema "allOf", Settles I (sub p) (sub' p))
    (hOwn : ∀ p ∈ (Entries.getOrNull schema "properties").entryValues,
      Settles I (sub p) (sub' p)) :
    Settles I (expandUnion sub schema) (Plain.union sub' schema) := by
  unfold expandUnion Plain.union
  rw [itemsUnder] at hMembers
  cases hWalk : (Entries.getOrNull schema "allOf").walk? with
  | none => exact .throw .malformed
  | some members =>
    rw [hWalk, Option.getD_some] at hMembers
    have hRest : ∀ u : Merged, Settles I
        (do
          let own ← ownProperties sub schema
          let required ← itemsAt schema "required"
          pure (Merged.toSchema ⟨u.properties.update own, appendNew u.required required⟩ schema))
        (do
          let own ← Plain.beside sub' schema
          let required ← Plain.readAt walk? schema "required"
          pure ((u.extend [⟨own, required⟩]).toSchema schema)) := by
      intro u
      -- the keywords beside the union are one more contribution
      refine (ownProperties_settles hOwn).bind fun own => ?_
      refine (itemsAt_settles schema "required").bind fun required => ?_
      rw [Merged.extend, List.flatMap_singleton, List.flatMap_singleton]
      exact .pure _
    have hAll := (addMembers_settles {} hMembers).bind hRest
    rw [bind_map_left] at hAll
    have hMerge : ∀ contributions last,
        Plain.merge (contributions ++ [last]) = (Merged.extend {} contributions).extend [last] :=
      fun contributions last => Merged.extend_append {} contributions [last]
    simp only [hMerge]
    exact hAll

theorem firstMember_settles {members : List Value}
    (hSub : ∀ p ∈ members, Settles I (sub p) (sub' p)) :
    Settles I (firstMember sub members) (members.findSomeM? sub') := by
  induction members with
  | nil => exact .pure none
  | cons member rest ih =>
    refine (hSub member List.mem_cons_self).bind fun found => ?_
    cases found with
    | some resolved => exact .pure (some resolved)
    | none => exact ih fun p hp => hSub p (List.mem_cons_of_mem _ hp)

include hI in
theorem expandChoice_settles {schema : Entries} {keyword : String}
    (hSub : ∀ p ∈ itemsUnder schema keyword, Settles I (sub p) (sub' p)) :
    Settles I (expandChoice sub schema keyword) (Plain.choice sub' schema keyword) := by
  have hRemark : ∀ count, Settles I (remarkChoice keyword count) (pure ⟨⟩) := by
    intro count s hs
    unfold remarkChoice
    split
    · exact ⟨rfl, hI s _ hs⟩
    · exact ⟨rfl, hs⟩
  have hRest : ∀ members, (∀ p ∈ members, Settles I (sub p) (sub' p)) → Settles I
      (do
        match ← firstMember sub members with
        | none => pure none
        | some resolved => do
          remarkChoice keyword members.length
          pure (some (describedAs schema resolved)))
      (do
        let found ← members.findSomeM? sub'
        pure (found.map (describedAs schema))) := by
    intro members hMembers
    refine (firstMember_settles hMembers).bind fun found => ?_
    cases found with
    | none => exact .pure none
    | some resolved =>
      -- the plain computation has no log, so that nothing stands for the remark
      have hBoth := (hRemark members.length).bind fun _ =>
        Settles.pure (some (describedAs schema resolved))
      rw [pure_bind] at hBoth
      exact hBoth
  unfold expandChoice Plain.choice
  rcases readAt_cases schema keyword with ⟨items, hItems, hRead, hMem⟩ | ⟨hItems, hRead⟩
  · rw [hItems, hRead, pure_bind, pure_bind]
    exact hRest items fun p hp => hSub p (hMem p hp)
  · rw [hItems, hRead]
    exact .throw .malformed

theorem inPlace_settles {schema : Entries}
    (hSub : ∀ p ∈ schema.flatMap (fun (key, v) => keywordParts key v), Settles I (sub p) (sub' p)) :
    Settles I (schema.mapM fun (key, v) => return (key, ← expandKeyword sub key v))
      (Plain.inPlace sub' schema) := by
  refine Settles.mapM fun e he => ?_
  obtain ⟨key, v⟩ := e
  have hParts : ∀ p ∈ keywordParts key v, Settles I (sub p) (sub' p) :=
    fun p hp => hSub p (List.mem_flatMap.mpr ⟨(key, v), he, hp⟩)
  cases v with
  | map inner =>
    rw [keywordParts] at hParts
    unfold expandKeyword
    dsimp only
    split
    · next hKey =>
      rw [if_pos hKey] at hParts
      rw [bind_assoc]
      exact (expandProperties_settles hParts).bind fun _ => .pure _
    · next hKey =>
      rw [if_neg hKey] at hParts
      split
      · next hAny =>
        rw [if_pos hAny] at hParts
        rw [bind_assoc]
        exact (hParts _ List.mem_cons_self).bind fun _ => .pure _
      · exact .pure _
  | _ => exact .pure _

/-- **The rules for a schema come to the plain rules**, if the given steps do on the parts of the
schema and on the reference that it is. -/
theorem expandWith_settles {v : Value}
    (hI : LogFree I) (hFollow : ∀ ref, v.ref? = some ref → Settles I (follow ref) (follow' ref))
    (hSub : ∀ p ∈ v.parts, Settles I (sub p) (sub' p)) :
    Settles I (expandWith follow sub v) (Plain.step follow' sub' v) := by
  cases v with
  | map schema =>
    cases form schema with
    | reference v hRef =>
      rw [expandWith_of_reference hRef, Plain.step_of_reference hRef]
      cases v with
      | scalar value =>
        cases value with
        | str ref => exact hFollow ref (by rw [ref?, hRef])
        | _ => exact fun s hs => ⟨rfl, hI s _ hs⟩
      | _ => exact .throw .malformed
    | union hRef hAll =>
      rw [parts_of_union hRef hAll] at hSub
      rw [expandWith_of_union hRef hAll, Plain.step_of_union hRef hAll]
      refine (expandUnion_settles (fun p hp => ?_) fun p hp => ?_).map some
      · exact hSub p (List.mem_append_left _ hp)
      · exact hSub p (List.mem_append_right _ hp)
    | choice keyword hRef hAll hKeyword =>
      rw [parts_of_choice hRef hAll hKeyword] at hSub
      rw [expandWith_of_choice hRef hAll hKeyword, Plain.step_of_choice hRef hAll hKeyword]
      exact expandChoice_settles hI hSub
    | direct hDirect =>
      rw [parts_of_direct hDirect] at hSub
      rw [expandWith_of_direct hDirect, Plain.step_of_direct hDirect]
      exact (inPlace_settles hSub).map some
  | _ => exact .pure none

end Rules

/-! ## Without cycles -/

/-- Finitely many conditions that hold from some depth on hold together from some depth on. -/
theorem exists_depth_forall_mem {P : Value → Nat → Prop} {parts : List Value}
    (h : ∀ p ∈ parts, ∃ depth, ∀ n ≥ depth, P p n) :
    ∃ depth, ∀ p ∈ parts, ∀ n ≥ depth, P p n := by
  induction parts with
  | nil => exact ⟨0, nofun⟩
  | cons p rest ih =>
    obtain ⟨first, hFirst⟩ := h p List.mem_cons_self
    obtain ⟨others, hOthers⟩ := ih fun q hq => h q (List.mem_cons_of_mem _ hq)
    refine ⟨max first others, fun q hq n hn => ?_⟩
    rcases List.mem_cons.mp hq with rfl | hq
    · exact hFirst n (by omega)
    · exact hOthers q hq n (by omega)

/-- An idle reference whose target does not lead back to it is resolved as its target is, since the
placeholder for it is never needed. -/
theorem outcome_ofRef_of_acyclic {document w : Value} {ref : String}
    (hAcyclic : Acyclic document (ofRef ref)) (hReferent : referent document ref = .ok w)
    (hw : w ≠ .null) {s : Session} (hs : SoundAt document [] s) :
    outcome document (ofRef ref) s = outcome document w s := by
  have hMeets : ∀ u, Meets document w u → Meets document (ofRef ref) u :=
    fun u hu => hu.target (ref?_ofRef ref) hReferent
  have hEmpty : ∀ log active, SoundAt document active { log := log, active := active } :=
    fun log active => ⟨rfl, sound_of_empty document rfl⟩
  -- from here to a fresh resolver, ...
  have hSame := (resolve_agrees ⟨[], ofRef ref⟩ [] hAcyclic.untangled (Stacked.nil document _)
    (fun _ _ => Iff.rfl) s {} ⟨hs, hEmpty [] []⟩).1
  -- ... from the reference to what it names, and back to the session and no active reference
  obtain ⟨log, hFresh⟩ := outcome_ofRef hReferent hw
  have hTarget := (resolve_agrees ⟨[], w⟩ [ref] (hAcyclic.untangled.mono hMeets)
    (Stacked.nil document _) (fun u hu => ?_) s { log := log, active := [ref] }
    ⟨hs, hEmpty log [ref]⟩).1
  · exact hSame.trans (hFresh.trans hTarget.symm)
  · -- the reference itself is not met again
    refine ⟨fun h => (nomatch h), fun h => ?_⟩
    obtain rfl := List.mem_singleton.mp h
    exact absurd (hu.comesTo hReferent) (hAcyclic u (meets_ofRef.mpr .refl))

/-- Following a reference comes to the plain expansion of what it names. -/
theorem followWith_settles {document : Value} {ref : String} {n : Nat}
    (hAcyclic : Acyclic document (ofRef ref)) (hPositive : 0 < n)
    (hTarget : ∀ w, referent document ref = .ok w → w ≠ .null →
      Settles (SoundAt document []) (resolve document w) (Plain.expandTo document n w)) :
    Settles (SoundAt document []) (followWith document (resolve document) ref)
      (do Plain.expandTo document n (← liftExcept (referent document ref))) := by
  intro s hs
  have hKeeps := resolve_keeps ⟨[], ofRef ref⟩ (Stacked.nil document _) hs
  rw [resolve_ofRef] at hKeeps
  refine ⟨?_, hKeeps⟩
  rw [← resolve_ofRef, ← outcome]
  by_cases hNull : ∀ w, referent document ref = .ok w → w = .null
  · have hFresh := (resolve_agrees ⟨[], ofRef ref⟩ [] hAcyclic.untangled (Stacked.nil document _)
      (fun _ _ => Iff.rfl) s {} ⟨hs, rfl, sound_of_empty document rfl⟩).1
    rw [outcome, hFresh, ← outcome, outcome_ofRef_nowhere hNull]
    -- null is no schema, at any depth but the least
    obtain ⟨least, hLeast⟩ := Nat.exists_eq_add_of_lt hPositive
    cases hReferent : referent document ref with
    | error e => rfl
    | ok w =>
      obtain rfl := hNull w hReferent
      rw [hLeast]
      rfl
  · push Not at hNull
    obtain ⟨w, hReferent, hw⟩ := hNull
    rw [outcome_ofRef_of_acyclic hAcyclic hReferent hw hs, hReferent]
    exact (hTarget w hReferent hw s hs).1

/-- A schema from which no cycle can be reached is resolved as the plain recursion expands it, from
any sound session. -/
theorem exists_depth_settles {document : Value} (call : Call)
    (hAcyclic : Acyclic document call.schema)
    (hStacked : Stacked document call.active call.schema) :
    ∃ depth, ∀ n ≥ depth, Settles (SoundAt document []) (resolve document call.schema)
      (Plain.expandTo document n call.schema) := by
  induction call using (Call.opens_wellFounded document).induction with
  | _ call ih =>
    obtain ⟨ofParts, hParts⟩ := exists_depth_forall_mem fun p hp =>
      ih ⟨call.active, p⟩ (.part hp) (fun u hu => hAcyclic u (hu.part hp)) (hStacked.part hp)
    have hTargets : ∃ depth, ∀ ref, call.schema.ref? = some ref → ∀ w,
        referent document ref = .ok w → w ≠ .null → ∀ n ≥ depth,
        Settles (SoundAt document []) (resolve document w) (Plain.expandTo document n w) := by
      cases hRef : call.schema.ref? with
      | none => exact ⟨0, nofun⟩
      | some ref =>
        cases hNamed : referent document ref with
        | error e =>
          refine ⟨0, ?_⟩
          rintro _ ⟨⟩ w hw
          rw [hNamed] at hw
          cases hw
        | ok w =>
          by_cases hw : w = .null
          · refine ⟨0, ?_⟩
            rintro _ ⟨⟩ w' hw' hNotNull
            rw [hNamed] at hw'
            cases hw'
            exact absurd hw hNotNull
          · -- an active reference leads to the schema, and would come back to itself
            have hNew : ref ∉ call.active := fun h =>
              hAcyclic ref ⟨ref, .self hRef, .refl⟩ (hStacked ref h ref (.self hRef))
            obtain ⟨depth, hDepth⟩ := ih ⟨ref :: call.active, w⟩ (.target hRef hNew hNamed hw)
              (fun u hu => hAcyclic u (hu.target hRef hNamed)) (hStacked.target hRef hNamed)
            refine ⟨depth, ?_⟩
            rintro _ ⟨⟩ w' hw' _
            rw [hNamed] at hw'
            cases hw'
            exact hDepth
    obtain ⟨ofTarget, hTarget⟩ := hTargets
    -- one step more than is needed below, and one for the reference
    refine ⟨max ofParts ofTarget + 2, fun n hn => ?_⟩
    obtain ⟨least, rfl⟩ := Nat.exists_eq_add_of_le hn
    rw [resolve_eq, show max ofParts ofTarget + 2 + least =
      (max ofParts ofTarget + 1 + least) + 1 by omega, Plain.expandTo]
    refine expandWith_settles (soundAt_logFree document []) (fun ref hRef => ?_) fun p hp => ?_
    · refine followWith_settles (fun u hu => ?_) (by omega) fun w hNamed hw => ?_
      · exact hAcyclic u ⟨ref, .self hRef, meets_ofRef.mp hu⟩
      · exact hTarget ref hRef w hNamed hw _ (by omega)
    · exact hParts p hp _ (by omega)

/-- **Resolving is the plain recursion where no cycle can be reached.** Neither what earlier calls
remembered nor what is remembered on the way changes the outcome, failures included: with enough
depth, the plain recursion comes to it. -/
theorem resolve_eq_plain {document : Entries} {schema : Value}
    (h : Acyclic (.map document) schema) :
    ∃ depth, ∀ n ≥ depth, ∀ calls, (Plain.expandTo (.map document) n schema).run =
      some (outcome (.map document) schema (sessionAfter document calls)) := by
  obtain ⟨depth, hDepth⟩ := exists_depth_settles ⟨[], schema⟩ h (Stacked.nil _ schema)
  exact ⟨depth, fun n hn calls => (hDepth n hn _ (soundAt_sessionAfter document calls)).1⟩

/-- A schema that extends another one, next to a schema that contains itself. -/
def extendedBase : Entries :=
  [(.str "components", .object [("schemas", .object [
    ("Node", .object [("properties", .object [("next", ofRef "#/components/schemas/Node")])]),
    ("Base", .object [("required", .list [.str "id"])]),
    ("Pet", .object [("allOf", .list [ofRef "#/components/schemas/Base"])])])])]

theorem extendedBase_leads {ref next : String}
    (hRef : ref = "#/components/schemas/Pet" ∨ ref = "#/components/schemas/Base")
    (h : Leads (.map extendedBase) ref next) :
    ref = "#/components/schemas/Pet" ∧ next = "#/components/schemas/Base" := by
  obtain ⟨w, hNamed, hMentions⟩ := h
  rw [mentions_iff] at hMentions
  rcases hRef with rfl | rfl
  · cases hNamed
    rcases hMentions with hSelf | ⟨p, hPart, hMentions⟩
    · cases hSelf
    · obtain rfl : p = ofRef "#/components/schemas/Base" := List.mem_singleton.mp hPart
      exact ⟨rfl, mentions_ofRef.mp hMentions⟩
  · cases hNamed
    rcases hMentions with hSelf | ⟨p, hPart, -⟩
    · cases hSelf
    · nomatch hPart

theorem resolve_eq_plain_extendedBase :
    ∃ depth, ∀ n ≥ depth, ∀ calls,
      (Plain.expandTo (.map extendedBase) n (ofRef "#/components/schemas/Pet")).run =
        some (outcome (.map extendedBase) (ofRef "#/components/schemas/Pet")
          (sessionAfter extendedBase calls)) := by
  refine resolve_eq_plain (.of_rank (fun ref => if ref = "#/components/schemas/Pet" then 1 else 0)
    fun ref next hMeets hLeads => ?_)
  have hRef := hMeets.of_closed
    (P := fun ref => ref = "#/components/schemas/Pet" ∨ ref = "#/components/schemas/Base")
    (fun first hFirst => Or.inl (mentions_ofRef.mp hFirst))
    fun first next hFirst hNext => Or.inr (extendedBase_leads hFirst hNext).2
  obtain ⟨rfl, rfl⟩ := extendedBase_leads hRef hLeads
  decide

end IntegrationCompiler
