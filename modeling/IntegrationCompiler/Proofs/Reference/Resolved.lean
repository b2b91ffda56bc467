import IntegrationCompiler.Proofs.Reference.History

/-!
# What a resolved schema looks like

Resolving leaves neither references nor compositions at any place where a schema can stand. The
union of the members of `allOf` reads the properties of resolved members, so a document has to keep
mappings under `properties`, and so does every resolved schema.

* `Value.Position` — the places of a value where a schema stands;
* `Value.ObjectProperties` — what is asked of a raw value;
* `Value.Orderly` — a resolved schema: direct at every position, with mappings under `properties`;
* `Resolver.resolve_orderly` — resolving leads to orderly schemas and remembers nothing else;
* `Resolver.outcome_orderly` — so it does after any calls.
-/

namespace IntegrationCompiler

open Resolving Value Resolver

/-! ## Positions -/

namespace Value

/-- The first value stands at a schema position of the second: it is the schema itself, or stands
at a position of a property or of a schema under a keyword. -/
inductive Position : Value → Value → Prop where
  | self (v : Value) : Position v v
  | property {p q : Value} {k : Scalar} {inner schema : Entries} :
    (.str "properties", .map inner) ∈ schema → (k, q) ∈ inner → Position p q →
    Position p (.map schema)
  | keyword {p : Value} {name : String} {inner schema : Entries} : name ∈ innerKeywords →
    (.str name, .map inner) ∈ schema → Position p (.map inner) → Position p (.map schema)

/-- Wherever the key `properties` occurs, a mapping stands there. -/
def ObjectProperties (v : Value) : Prop :=
  ∀ es, Within (.map es) v → ∀ w, (.str "properties", w) ∈ es → ∃ inner, w = .map inner

theorem ObjectProperties.within {u v : Value} (h : ObjectProperties v) (hWithin : Within u v) :
    ObjectProperties u :=
  Everywhere.within h hWithin

@[simp] theorem objectProperties_scalar (s : Scalar) : ObjectProperties (.scalar s) :=
  everywhere_scalar s

@[simp] theorem objectProperties_map_iff {es : Entries} :
    ObjectProperties (.map es) ↔
      (∀ e ∈ es, e.1 = .str "properties" → ∃ inner, e.2 = .map inner) ∧
        ∀ e ∈ es, ObjectProperties e.2 := by
  refine everywhere_map_iff.trans (and_congr_left' ⟨fun h e he hKey => ?_, fun h w hw => ?_⟩)
  · exact h e.2 (hKey ▸ he)
  · exact h _ hw rfl

@[simp] theorem objectProperties_list_iff {items : List Value} :
    ObjectProperties (.list items) ↔ ∀ v ∈ items, ObjectProperties v :=
  everywhere_list_iff

theorem objectProperties_ofRef (ref : String) : ObjectProperties (ofRef ref) := by
  simp [ofRef]

theorem ObjectProperties.below {p v : Value} (h : ObjectProperties v) (hBelow : Below p v) :
    ObjectProperties p := by
  rcases hBelow.2 with hWithin | ⟨s, rfl⟩
  · exact h.within hWithin
  · exact objectProperties_scalar s

/-- A schema that is direct at every position, and keeps mappings under `properties`. -/
inductive Orderly : Value → Prop where
  | leaf {v : Value} : (∀ es, v ≠ .map es) → Orderly v
  | schema {es : Entries} : Direct es →
    (∀ w, (.str "properties", w) ∈ es → ∃ inner, w = .map inner) →
    (∀ inner, (.str "properties", .map inner) ∈ es → ∀ e ∈ inner, Orderly e.2) →
    (∀ name ∈ innerKeywords, ∀ w, (.str name, w) ∈ es → Orderly w) → Orderly (.map es)

theorem Orderly.direct_of_position {v : Value} {es : Entries} (h : Orderly v)
    (hPosition : Position (.map es) v) : Direct es := by
  induction hPosition with
  | self =>
    cases h with
    | leaf hLeaf => exact absurd rfl (hLeaf es)
    | schema hDirect _ _ _ => exact hDirect
  | property hProperties hMem _ ih =>
    cases h with
    | leaf hLeaf => exact absurd rfl (hLeaf _)
    | schema _ _ hNamed _ => exact ih (hNamed _ hProperties _ hMem)
  | keyword hName hMem _ ih =>
    cases h with
    | leaf hLeaf => exact absurd rfl (hLeaf _)
    | schema _ _ _ hInner => exact ih (hInner _ hName _ hMem)

/-- One entry of an orderly schema. -/
structure OrderlyEntry (key : Scalar) (v : Value) : Prop where
  direct : ∀ name ∈ indirectKeys, key ≠ .str name
  properties : key = .str "properties" → ∃ inner, v = .map inner ∧ ∀ e ∈ inner, Orderly e.2
  keyword : ∀ name ∈ innerKeywords, key = .str name → Orderly v

theorem orderly_of_entries {es : Entries} (h : ∀ e ∈ es, OrderlyEntry e.1 e.2) :
    Orderly (.map es) := by
  refine .schema (fun name hName => ?_) (fun w hw => ?_) (fun inner hInner e he => ?_)
    fun name hName w hw => (h _ hw).keyword name hName rfl
  · exact Entries.has_eq_false_iff.mpr fun v hv => (h _ hv).direct name hName rfl
  · obtain ⟨inner, hInner, -⟩ := (h _ hw).properties rfl
    exact ⟨inner, hInner⟩
  · obtain ⟨inner', hSame, hAll⟩ := (h _ hInner).properties rfl
    cases hSame
    exact hAll e he

theorem Orderly.entries {es : Entries} (h : Orderly (.map es)) :
    ∀ e ∈ es, OrderlyEntry e.1 e.2 := by
  rintro ⟨key, v⟩ he
  cases h with
  | leaf hLeaf => exact absurd rfl (hLeaf es)
  | schema hDirect hMaps hNamed hInner =>
    refine ⟨fun name hName hKey => ?_, fun hKey => ?_, fun name hName hKey => ?_⟩
    · subst hKey
      exact Entries.has_eq_false_iff.mp (hDirect name hName) v he
    · subst hKey
      obtain ⟨inner, rfl⟩ := hMaps v he
      exact ⟨inner, rfl, hNamed inner he⟩
    · subst hKey
      exact hInner name hName v he

/-- An entry under a key that the rules do not look at. -/
theorem OrderlyEntry.of_other {name : String} (v : Value)
    (h : name ∉ "properties" :: (indirectKeys ++ innerKeywords)) : OrderlyEntry (.str name) v := by
  have hNot : ∀ other ∈ "properties" :: (indirectKeys ++ innerKeywords),
      Scalar.str name ≠ .str other := by
    rintro other hOther hEq
    cases hEq
    exact h hOther
  refine ⟨fun other hOther => hNot other ?_, fun hEq => absurd hEq (hNot _ List.mem_cons_self),
    fun other hOther hEq => absurd hEq (hNot other ?_)⟩
  · exact List.mem_cons_of_mem _ (List.mem_append_left _ hOther)
  · exact List.mem_cons_of_mem _ (List.mem_append_right _ hOther)

theorem placeholder_orderly (ref : String) : Orderly (.map (placeholder ref)) := by
  refine orderly_of_entries fun e he => ?_
  rw [placeholder, List.mem_cons, List.mem_singleton] at he
  rcases he with rfl | rfl
  · exact .of_other _ (by decide)
  · exact .of_other _ (by decide)

end Value

/-! ## The rules lead to orderly schemas -/

section Rules

variable {I : Session → Prop} (hI : LogFree I)
variable {follow : String → Resolving (Option Entries)} {sub : Value → Resolving (Option Entries)}

/-- What a step comes to is orderly. -/
abbrev EnsuresOrderly (I : Session → Prop) (x : Resolving (Option Entries)) : Prop :=
  Ensures I (fun found => Orderly (schemaValue found)) x

theorem null_orderly : Orderly (schemaValue none) :=
  .leaf fun _ h => by cases h

/-- The resolved properties have the names of the raw ones. -/
theorem expandProperties_ensures {P : Value → Prop} {properties : Entries}
    (hSub : ∀ e ∈ properties, Ensures I (fun found => P (schemaValue found)) (sub e.2)) :
    Ensures I (fun es => ∀ e ∈ es, (∃ e' ∈ properties, e'.1 = e.1) ∧ P e.2)
      (expandProperties sub properties) :=
  Ensures.mapM fun e he => (hSub e he).bind fun _ hFound => .pure ⟨⟨e, he, rfl⟩, hFound⟩

theorem itemsAt_ensures (schema : Entries) (key : String) :
    Ensures I (fun items => ∀ v ∈ items, v ∈ itemsUnder schema key) (itemsAt schema key) := by
  rcases itemsAt_cases schema key with ⟨items, hItems, hMem⟩ | hItems
  · exact hItems ▸ .pure hMem
  · exact hItems ▸ .throw .malformed

theorem propertiesOf_ensures {member : Entries} (hMember : Orderly (.map member)) :
    Ensures I (fun es => ∀ e ∈ es, Orderly e.2) (Merged.propertiesOf member) := by
  unfold Merged.propertiesOf
  split
  · exact .pure (by simp)
  · next v hPresent =>
    obtain rfl := eq_of_present? hPresent
    -- an orderly member has a mapping there, so that no list of pairs is read as properties
    refine .orMalformed fun es hes => ?_
    rcases getOrNull_eq_null_or_mem member "properties" with hNull | hMem
    · rw [hNull] at hes
      cases hes
    · obtain ⟨inner, hInner, hAll⟩ := (hMember.entries _ hMem).properties rfl
      dsimp only at hInner
      rw [hInner] at hes
      cases hes
      exact hAll

theorem addMember_ensures {u : Merged} {member : Value}
    (hu : ∀ e ∈ u.properties, Orderly e.2) (hSub : EnsuresOrderly I (sub member)) :
    Ensures I (fun u => ∀ e ∈ u.properties, Orderly e.2) (addMember sub u member) := by
  refine hSub.bind fun found hFound => ?_
  match found with
  | none => exact .pure hu
  | some [] => exact .pure hu
  | some (e :: rest) =>
    refine (propertiesOf_ensures hFound).bind fun properties hProperties => ?_
    refine (itemsAt_ensures (e :: rest) "required").bind fun required _ => ?_
    refine .pure fun entry hEntry => ?_
    rcases Entries.mem_update hEntry with hOld | ⟨k, hNew⟩
    · exact hu entry hOld
    · exact hProperties (k, entry.2) hNew

/-- The keys of a union are not those of a composition. -/
theorem toSchema_orderly {u : Merged} (hu : ∀ e ∈ u.properties, Orderly e.2) (beside : Entries) :
    Orderly (.map (u.toSchema beside)) := by
  refine orderly_of_entries fun e he => ?_
  rcases List.mem_append.mp he with he | he
  · simp only [List.mem_cons, List.not_mem_nil, or_false] at he
    rcases he with rfl | rfl | rfl
    · exact .of_other _ (by decide)
    · -- the properties
      refine ⟨fun name hName hEq => ?_, fun _ => ⟨u.properties, rfl, hu⟩, fun name hName hEq => ?_⟩
      · cases hEq
        exact absurd hName (by decide)
      · cases hEq
        exact absurd hName (by decide)
    · exact .of_other _ (by decide)
  · -- what is kept of the keywords beside the union
    obtain ⟨key, hKey, hKept⟩ := List.mem_filterMap.mp he
    obtain ⟨v, -, rfl⟩ := Option.map_eq_some_iff.mp hKept
    have hOther : ∀ key ∈ ["description", "example", "title"],
        key ∉ "properties" :: (indirectKeys ++ innerKeywords) := by decide
    exact .of_other v (hOther key hKey)

theorem ownProperties_ensures {schema : Entries}
    (hSub : ∀ p ∈ (Entries.getOrNull schema "properties").entryValues, EnsuresOrderly I (sub p)) :
    Ensures I (fun es => ∀ e ∈ es, Orderly e.2) (ownProperties sub schema) := by
  unfold ownProperties
  rw [Entries.getOrNull] at hSub
  cases hProperties : Entries.get? schema "properties" with
  | none => exact .pure (by simp)
  | some v =>
    rw [hProperties, Option.getD_some] at hSub
    cases v with
    | map properties =>
      exact (expandProperties_ensures fun e he => hSub e.2 (List.mem_map_of_mem he)).mono
        fun _ h e he => (h e he).2
    | _ => exact .throw .malformed

theorem expandUnion_ensures {schema : Entries}
    (hMembers : ∀ p ∈ itemsUnder schema "allOf", EnsuresOrderly I (sub p))
    (hOwn : ∀ p ∈ (Entries.getOrNull schema "properties").entryValues, EnsuresOrderly I (sub p)) :
    Ensures I (fun es => Orderly (.map es)) (expandUnion sub schema) := by
  unfold expandUnion
  rw [itemsUnder] at hMembers
  cases hWalk : (Entries.getOrNull schema "allOf").walk? with
  | none => exact .throw .malformed
  | some members =>
    rw [hWalk, Option.getD_some] at hMembers
    refine Ensures.bind (P := fun u : Merged => ∀ e ∈ u.properties, Orderly e.2) ?_ fun u hu => ?_
    · exact Ensures.foldlM (by simp) fun u hu p hp => addMember_ensures hu (hMembers p hp)
    refine (ownProperties_ensures hOwn).bind fun own hOwnOrderly => ?_
    refine (itemsAt_ensures schema "required").bind fun required _ => ?_
    refine .pure (toSchema_orderly (fun e he => ?_) schema)
    rcases Entries.mem_update he with hOld | ⟨k, hNew⟩
    · exact hu e hOld
    · exact hOwnOrderly (k, e.2) hNew

theorem firstMember_ensures {Q : Option Entries → Prop} (hNone : Q none) {members : List Value}
    (hSub : ∀ p ∈ members, Ensures I Q (sub p)) : Ensures I Q (firstMember sub members) := by
  induction members with
  | nil => exact .pure hNone
  | cons member rest ih =>
    refine (hSub member List.mem_cons_self).bind fun found hFound => ?_
    cases found with
    | some resolved => exact .pure hFound
    | none => exact ih fun p hp => hSub p (List.mem_cons_of_mem _ hp)

theorem describedAs_orderly {resolved : Entries} (h : Orderly (.map resolved)) (schema : Entries) :
    Orderly (.map (describedAs schema resolved)) := by
  unfold describedAs
  split
  · split
    · exact h
    · -- only the key of the description can be new
      refine orderly_of_entries fun e he => ?_
      rcases Entries.mem_put (k := e.1) (v := e.2) he with ⟨-, hKey⟩ | hMem
      · have hDescription : e.1 = .str "description" :=
          hKey.elim id Scalar.same_str.mp
        rw [hDescription]
        exact .of_other _ (by decide)
      · exact h.entries e hMem
  · exact h

include hI in
theorem remarkChoice_ensures (keyword : String) (count : Nat) :
    Ensures I (fun _ => True) (remarkChoice keyword count) := by
  unfold remarkChoice
  split
  · exact remark_ensures hI _ _
  · exact .pure trivial

include hI in
theorem expandChoice_ensures {schema : Entries} {keyword : String}
    (hSub : ∀ p ∈ itemsUnder schema keyword, EnsuresOrderly I (sub p)) :
    EnsuresOrderly I (expandChoice sub schema keyword) := by
  unfold expandChoice
  refine (itemsAt_ensures schema keyword).bind fun members hMembers => ?_
  refine (firstMember_ensures null_orderly fun p hp => hSub p (hMembers p hp)).bind
    fun found hFound => ?_
  cases found with
  | none => exact .pure null_orderly
  | some resolved =>
    refine (remarkChoice_ensures hI keyword members.length).bind fun _ _ => .pure ?_
    exact describedAs_orderly hFound schema

/-- A keyword of a direct schema becomes an entry of an orderly one. -/
theorem expandKeyword_ensures {key : Scalar} {v : Value}
    (hDirect : ∀ name ∈ indirectKeys, key ≠ .str name)
    (hMap : key = .str "properties" → ∃ inner, v = .map inner)
    (hSub : ∀ p ∈ keywordParts key v, EnsuresOrderly I (sub p)) :
    Ensures I (fun w => OrderlyEntry key w) (expandKeyword sub key v) := by
  have hOther : ∀ name ∈ innerKeywords, Scalar.str name ≠ .str "properties" := by decide
  cases v with
  | map inner =>
    unfold expandKeyword
    rw [keywordParts] at hSub
    dsimp only
    split
    · next hKey =>
      rw [if_pos hKey] at hSub
      have hAll := expandProperties_ensures fun e he => hSub e.2 (List.mem_map_of_mem he)
      refine hAll.bind fun es hes => .pure ⟨hDirect, fun _ => ⟨es, rfl, fun e he => (hes e he).2⟩, ?_⟩
      exact fun name hName hEq => absurd (hEq.symm.trans hKey) (hOther name hName)
    · next hKey =>
      rw [if_neg hKey] at hSub
      split
      · next hAny =>
        rw [if_pos hAny] at hSub
        refine (hSub _ List.mem_cons_self).bind fun found hFound => .pure ?_
        exact ⟨hDirect, fun h => absurd h hKey, fun _ _ _ => hFound⟩
      · next hAny =>
        refine .pure ⟨hDirect, fun h => absurd h hKey, fun name hName hEq => ?_⟩
        exact absurd (List.any_eq_true.mpr ⟨name, hName, decide_eq_true hEq⟩) hAny
  | _ =>
    refine .pure ⟨hDirect, fun h => ?_, fun _ _ _ => .leaf fun _ h => ?_⟩
    · obtain ⟨inner, hInner⟩ := hMap h
      cases hInner
    · cases h

include hI in
/-- **The rules lead to an orderly schema**, if the given steps do on references and on the
parts. -/
theorem expandWith_ensures {v : Value} (hObject : ObjectProperties v)
    (hFollow : ∀ ref, EnsuresOrderly I (follow ref))
    (hSub : ∀ p ∈ v.parts, EnsuresOrderly I (sub p)) :
    EnsuresOrderly I (expandWith follow sub v) := by
  cases v with
  | map schema =>
    cases form schema with
    | reference v hRef =>
      rw [expandWith_of_reference hRef]
      cases v with
      | scalar value =>
        cases value with
        | str ref => exact hFollow ref
        | _ => exact (remark_ensures hI _ _).bind fun _ _ => .pure null_orderly
      | _ => exact .throw .malformed
    | union hRef hAll =>
      rw [parts_of_union hRef hAll] at hSub
      rw [expandWith_of_union hRef hAll]
      refine Ensures.map (expandUnion_ensures (fun p hp => ?_) fun p hp => ?_) fun es hes => hes
      · exact hSub p (List.mem_append_left _ hp)
      · exact hSub p (List.mem_append_right _ hp)
    | choice keyword hRef hAll hKeyword =>
      rw [parts_of_choice hRef hAll hKeyword] at hSub
      rw [expandWith_of_choice hRef hAll hKeyword]
      exact expandChoice_ensures hI hSub
    | direct hDirect =>
      rw [parts_of_direct hDirect] at hSub
      rw [expandWith_of_direct hDirect]
      refine Ensures.map (P := fun es => Orderly (.map es)) ?_ fun es hes => hes
      refine Ensures.mono (Ensures.mapM (Q := fun e => OrderlyEntry e.1 e.2) ?_)
        fun es hes => orderly_of_entries hes
      rintro ⟨key, w⟩ he
      refine Ensures.bind (expandKeyword_ensures (fun name hName hKey => ?_) (fun hKey => ?_)
        fun p hp => ?_) fun y hy => .pure hy
      · subst hKey
        exact Entries.has_eq_false_iff.mp (hDirect name hName) w he
      · subst hKey
        exact hObject schema (.self _) w he
      · exact hSub p (List.mem_flatMap.mpr ⟨(key, w), he, hp⟩)
  | _ => exact .pure null_orderly

end Rules

/-! ## Resolving leads to orderly schemas -/

/-- Everything that is remembered has a property. -/
def Remembers (Q : Option Entries → Prop) (s : Session) : Prop :=
  ∀ e ∈ s.resolved, Q e.2

theorem remembers_logFree (Q : Option Entries → Prop) : LogFree (Remembers Q) :=
  fun _ _ h => h

theorem remembers_closing {Q : Option Entries → Prop} {ref : String}
    {ended : Except Failure (Option Entries) × Session} (hNext : Remembers Q ended.2)
    (hResult : ∀ found, ended.1 = .ok found → Q found) : Remembers Q (closing ref ended).2 := by
  obtain ⟨out, t⟩ := ended
  cases out with
  | error e => exact hNext
  | ok resolved =>
    intro e he
    rcases List.mem_cons.mp he with rfl | he
    · exact hResult resolved rfl
    · exact hNext e he

/-- Following a reference leads to a placeholder, to something remembered, or to the expansion of
what it names. -/
theorem followWith_ensures {Q : Option Entries → Prop} {document : Value}
    {target : Value → Resolving (Option Entries)} {ref : String} (hNone : Q none)
    (hPlaceholder : Q (some (placeholder ref)))
    (hTarget : ∀ w, referent document ref = .ok w → Ensures (Remembers Q) Q (target w)) :
    Ensures (Remembers Q) Q (followWith document target ref) := by
  intro s hs
  cases following document ref s with
  | active _ hRun =>
    rw [hRun]
    refine ⟨fun found hFound => ?_, hs⟩
    cases hFound
    exact hPlaceholder
  | remembered resolved _ hResolved hRun =>
    obtain ⟨before, after, hMem, -⟩ := List.lookup_eq_some_iff.mp hResolved
    rw [hRun]
    refine ⟨fun found hFound => ?_, hs⟩
    cases hFound
    exact hs (ref, resolved) (by rw [hMem]; simp)
  | nowhere log _ _ hRun =>
    rw [hRun]
    refine ⟨fun found hFound => ?_, hs⟩
    cases hReferent : referent document ref with
    | error e =>
      rw [hReferent] at hFound
      cases hFound
    | ok w =>
      rw [hReferent] at hFound
      cases hFound
      exact hNone
  | target w log _ _ hReferent _ hRun =>
    obtain ⟨hResult, hNext⟩ := hTarget w hReferent
      { s with log := log, active := ref :: s.active } hs
    rw [hRun]
    refine ⟨fun found hFound => hResult found ?_, remembers_closing hNext hResult⟩
    rw [← hFound, closing_fst]

/-- Everything that is remembered is orderly. -/
def RemembersOrderly (s : Session) : Prop :=
  ∀ e ∈ s.resolved, Orderly (schemaValue e.2)

theorem remembersOrderly_logFree : LogFree RemembersOrderly :=
  fun _ _ h => h

theorem expandTo_ensures {follow : String → Resolving (Option Entries)}
    (hFollow : ∀ ref, EnsuresOrderly RemembersOrderly (follow ref)) (depth : Nat) {v : Value}
    (hObject : ObjectProperties v) : EnsuresOrderly RemembersOrderly (expandTo follow depth v) := by
  induction depth generalizing v with
  | zero => exact .throw .malformed
  | succ depth ih =>
    exact expandWith_ensures remembersOrderly_logFree hObject hFollow fun p hp =>
      ih (hObject.below (below_of_mem_parts hp))

namespace Resolver

theorem followTo_orderly {document : Value} (hDocument : ObjectProperties document) (budget : Nat)
    (ref : String) : EnsuresOrderly RemembersOrderly (followTo document budget ref) := by
  induction budget generalizing ref with
  | zero => exact .throw .malformed
  | succ budget ih =>
    refine followWith_ensures (Q := fun found => Orderly (schemaValue found)) null_orderly
      (placeholder_orderly ref) fun w hNamed => expandTo_ensures ih _ ?_
    by_cases hw : w = .null
    · exact hw ▸ objectProperties_scalar .null
    · exact hDocument.within (within_of_referent hNamed hw)

/-- **Resolving leads to orderly schemas**, and remembers no others. -/
theorem resolve_orderly {document v : Value} (hDocument : ObjectProperties document)
    (hv : ObjectProperties v) : EnsuresOrderly RemembersOrderly (resolve document v) :=
  expandTo_ensures (followTo_orderly hDocument _) _ hv

/-- Calls remember orderly schemas only, whatever they are made on: what is remembered comes from
the document. -/
theorem remembersOrderly_sessionAfter {document : Entries}
    (hDocument : ObjectProperties (.map document)) (calls : List ResolverCall) :
    RemembersOrderly (sessionAfter document calls) := by
  -- The schema of a call need not keep mappings under `properties`, and what comes of it need not
  -- be orderly; it is not remembered.
  have hResolve : ∀ v s, RemembersOrderly s →
      RemembersOrderly ((resolve (.map document) v).on s).2 := by
    intro v s hs
    refine @resolved_invariant (.map document) (fun _ => True) (fun _ _ _ _ => trivial)
      (fun memo => ∀ e ∈ memo, Orderly (schemaValue e.2)) ?_ ⟨s.active, v⟩ trivial s rfl hs
    intro call _ ref _ _ w hNamed hw s' _ hs' _ resolved t hRun ht e he
    rcases List.mem_cons.mp he with rfl | he
    · have hTarget := hDocument.within (within_of_referent hNamed hw)
      refine (resolve_orderly hDocument hTarget s' hs').1 resolved ?_
      rw [hRun]
    · exact ht e he
  exact sessionAfter_keeps remembersOrderly_logFree (fun e he => nomatch he)
    (fun v s hs => ⟨fun _ _ => trivial, hResolve v s hs⟩) calls

end Resolver

end IntegrationCompiler
