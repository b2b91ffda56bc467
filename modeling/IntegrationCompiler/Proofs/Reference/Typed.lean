import IntegrationCompiler.Json.Printer
import IntegrationCompiler.Proofs.Reference.Resolved

/-!
# Schemas whose keywords have their types

Where the keywords of raw schemas have the types that are expected of them, so have those of resolved
schemas, at every place that a compilation looks at. Null stands for a keyword that is absent.

* `Value.TextKeys`, `Value.HasJson` — values whose keys are texts, and values that JSON can write;
* `Schema.TypedEntry` — a keyword with a value of its type; `Value.Typed` — a resolved schema with
  such keywords, in itself and in its properties;
* `Places` — what is asked of the places where raw schemas stand: their keywords have their types,
  and what resolving looks at from there is again such a place;
* `Resolver.resolve_typed` — resolving leads from such places to typed schemas, and remembers no
  others.
-/

namespace IntegrationCompiler

open Resolving Value Resolver

/-! ## Keys and keywords -/

namespace Value

/-- Wherever a mapping occurs, its keys are texts. -/
abbrev TextKeys (v : Value) : Prop :=
  v.Everywhere fun es => ∀ e ∈ es, ∃ s, e.1 = .str s

/-- JSON can write the value. -/
def HasJson (v : Value) : Prop :=
  (Json.render? .compact v).isSome

instance (v : Value) : Decidable v.HasJson :=
  inferInstanceAs (Decidable ((Json.render? .compact v).isSome = true))

/-- Every text can be written. -/
@[simp]
theorem hasText_str (s : String) : (Value.str s).hasText = true := rfl

end Value

namespace Schema

/-- A keyword has a value of its type, if it is one that a compilation looks into. Choices and
defaults become texts, so no integer in them has too many digits to be written. -/
structure TypedEntry (key : Scalar) (v : Value) : Prop where
  description : key = .str "description" → v = .null ∨ ∃ s, v = .str s
  enum : key = .str "enum" → v = .null ∨
    ∃ items, v = .list items ∧ ∀ item ∈ items, item.TextKeys ∧ item.hasText = true
  required : key = .str "required" → v = .null ∨ ∃ names : List Scalar, v = .list (names.map .scalar)
  properties : key = .str "properties" →
    v = .null ∨ ∃ inner, v = .map inner ∧ ∀ p ∈ inner, ∃ s, p.1 = .str s
  given : key = .str "default" → v.HasJson
  shown : key = .str "example" → v.TextKeys

/-- The keywords that a compilation looks into. -/
def typedKeys : List String :=
  ["description", "enum", "required", "properties", "default", "example"]

/-- No other keyword matters. -/
theorem TypedEntry.of_other {key : Scalar} (v : Value) (h : ∀ name ∈ typedKeys, key ≠ .str name) :
    TypedEntry key v where
  description := fun hKey => absurd hKey (h _ (by decide))
  enum := fun hKey => absurd hKey (h _ (by decide))
  required := fun hKey => absurd hKey (h _ (by decide))
  properties := fun hKey => absurd hKey (h _ (by decide))
  given := fun hKey => absurd hKey (h _ (by decide))
  shown := fun hKey => absurd hKey (h _ (by decide))

theorem typedEntry_of_name {name : String} (v : Value) (h : name ∉ typedKeys) :
    TypedEntry (.str name) v := by
  refine .of_other v fun other hOther hEq => ?_
  cases hEq
  exact h hOther

theorem typedEntry_properties_iff {inner : Entries} :
    TypedEntry (.str "properties") (.map inner) ↔ ∀ p ∈ inner, ∃ s, p.1 = .str s := by
  constructor
  · intro h
    rcases h.properties rfl with hNull | ⟨_, hSame, hNames⟩
    · cases hNull
    · cases hSame
      exact hNames
  · intro hNames
    constructor
    case properties => exact fun _ => .inr ⟨inner, rfl, hNames⟩
    all_goals exact fun hKey => absurd hKey (by decide)

theorem typedEntry_required (names : List Scalar) :
    TypedEntry (.str "required") (.list (names.map .scalar)) := by
  constructor
  case required => exact fun _ => .inr ⟨names, rfl⟩
  all_goals exact fun hKey => absurd hKey (by decide)

end Schema

open Schema

namespace Value

/-- A resolved schema whose keywords have their types, in itself and in its properties. -/
inductive Typed : Value → Prop where
  | null : Typed .null
  | schema {es : Entries} : (∀ e ∈ es, TypedEntry e.1 e.2) →
    (∀ inner, (.str "properties", .map inner) ∈ es → ∀ p ∈ inner, Typed p.2) → Typed (.map es)

theorem Typed.entry {es : Entries} (h : Typed (.map es)) : ∀ e ∈ es, TypedEntry e.1 e.2 := by
  cases h with
  | schema hEntries _ => exact hEntries

theorem Typed.property {es inner : Entries} (h : Typed (.map es))
    (hMem : (.str "properties", .map inner) ∈ es) : ∀ p ∈ inner, Typed p.2 := by
  cases h with
  | schema _ hInner => exact hInner inner hMem

/-- One entry of a typed schema. -/
structure ResolvedEntry (key : Scalar) (v : Value) : Prop extends TypedEntry key v where
  inner : key = .str "properties" → ∀ es, v = .map es → ∀ p ∈ es, Typed p.2

theorem typed_of_entries {es : Entries} (h : ∀ e ∈ es, ResolvedEntry e.1 e.2) : Typed (.map es) :=
  .schema (fun e he => (h e he).toTypedEntry) fun _ hMem => (h _ hMem).inner rfl _ rfl

theorem Typed.entries {es : Entries} (h : Typed (.map es)) : ∀ e ∈ es, ResolvedEntry e.1 e.2 := by
  rintro ⟨key, v⟩ he
  refine ⟨h.entry _ he, fun hKey inner hInner => ?_⟩
  dsimp only at hKey hInner
  subst hKey hInner
  exact h.property he

/-- An entry under a key that is no keyword for properties needs only its type. -/
theorem ResolvedEntry.of_typed {key : Scalar} {v : Value} (h : TypedEntry key v)
    (hKey : key ≠ .str "properties") : ResolvedEntry key v :=
  ⟨h, fun hSame => absurd hSame hKey⟩

/-- An entry under a key that a compilation does not look into. -/
theorem ResolvedEntry.of_name {name : String} (v : Value) (h : name ∉ typedKeys) :
    ResolvedEntry (.str name) v := by
  refine .of_typed (typedEntry_of_name v h) fun hSame => h ?_
  cases hSame
  decide

theorem placeholder_typed (ref : String) : Typed (.map (placeholder ref)) := by
  refine typed_of_entries fun e he => ?_
  rw [placeholder, List.mem_cons, List.mem_singleton] at he
  rcases he with rfl | rfl
  · exact .of_name _ (by decide)
  · exact .of_name _ (by decide)

end Value

/-! ## Keys of mappings and items of unions -/

theorem Entries.key_of_mem_put {key k : Scalar} {value v : Value} {es : Entries}
    (h : (k, v) ∈ put key value es) : k = key ∨ ∃ w, (k, w) ∈ es := by
  induction es with
  | nil =>
    rw [put, List.mem_singleton] at h
    exact .inl (congrArg Prod.fst h)
  | cons e rest ih =>
    obtain ⟨k', v'⟩ := e
    rw [put] at h
    split at h
    · rcases List.mem_cons.mp h with h | h
      · cases h
        exact .inr ⟨v', List.mem_cons_self⟩
      · exact .inr ⟨v, List.mem_cons_of_mem _ h⟩
    · rcases List.mem_cons.mp h with h | h
      · exact .inr ⟨v, h ▸ List.mem_cons_self⟩
      · rcases ih h with hKey | ⟨w, hw⟩
        · exact .inl hKey
        · exact .inr ⟨w, List.mem_cons_of_mem _ hw⟩

/-- The keys of a mapping after an update are old or new. -/
theorem Entries.key_of_mem_update {k : Scalar} {v : Value} {es later : Entries}
    (h : (k, v) ∈ update es later) : (∃ w, (k, w) ∈ es) ∨ ∃ w, (k, w) ∈ later := by
  induction later generalizing es with
  | nil => exact .inl ⟨v, h⟩
  | cons e rest ih =>
    obtain ⟨k', v'⟩ := e
    rcases @ih (put k' v' es) h with ⟨w, hw⟩ | ⟨w, hw⟩
    · rcases key_of_mem_put hw with rfl | hOld
      · exact .inr ⟨v', List.mem_cons_self⟩
      · exact .inl hOld
    · exact .inr ⟨w, List.mem_cons_of_mem _ hw⟩

theorem mem_appendNew {xs ys : List Value} {v : Value} (h : v ∈ appendNew xs ys) :
    v ∈ xs ∨ v ∈ ys := by
  induction ys generalizing xs with
  | nil => exact .inl h
  | cons y rest ih =>
    rcases ih h with hFirst | hRest
    · dsimp only at hFirst
      split at hFirst
      · exact .inl hFirst
      · rcases List.mem_append.mp hFirst with hOld | hNew
        · exact .inl hOld
        · exact .inr (List.mem_singleton.mp hNew ▸ List.mem_cons_self)
    · exact .inr (List.mem_cons_of_mem _ hRest)

/-- Values that are scalars are the scalars of a list. -/
theorem exists_scalars {vs : List Value} (h : ∀ v ∈ vs, ∃ s, v = .scalar s) :
    ∃ ss : List Scalar, vs = ss.map .scalar := by
  induction vs with
  | nil => exact ⟨[], rfl⟩
  | cons v rest ih =>
    obtain ⟨s, rfl⟩ := h v List.mem_cons_self
    obtain ⟨ss, rfl⟩ := ih fun w hw => h w (List.mem_cons_of_mem _ hw)
    exact ⟨s :: ss, rfl⟩

/-! ## The rules lead to typed schemas -/

section Rules

variable {I : Session → Prop} (hI : LogFree I)
variable {follow : String → Resolving (Option Entries)} {sub : Value → Resolving (Option Entries)}

/-- What a step comes to is typed. -/
abbrev EnsuresTyped (I : Session → Prop) (x : Resolving (Option Entries)) : Prop :=
  Ensures I (fun found => Typed (schemaValue found)) x

/-- Properties with names that are texts and with typed schemas. -/
def TypedProperties (es : Entries) : Prop :=
  ∀ p ∈ es, (∃ s, p.1 = .str s) ∧ Typed p.2

theorem typedProperties_update {es later : Entries} (hOld : TypedProperties es)
    (hNew : TypedProperties later) : TypedProperties (es.update later) := by
  rintro ⟨k, v⟩ hMem
  constructor
  · rcases Entries.key_of_mem_update hMem with ⟨w, hw⟩ | ⟨w, hw⟩
    · exact (hOld _ hw).1
    · exact (hNew _ hw).1
  · rcases Entries.mem_update hMem with hv | ⟨k', hv⟩
    · exact (hOld _ hv).2
    · exact (hNew _ hv).2

/-- The required names of a typed schema are scalars. -/
theorem required_scalars {es : Entries} (h : ∀ e ∈ es, TypedEntry e.1 e.2) {v : Value}
    (hv : v ∈ itemsUnder es "required") : ∃ s, v = .scalar s := by
  rw [itemsUnder] at hv
  rcases getOrNull_eq_null_or_mem es "required" with hNull | hMem
  · rw [hNull] at hv
    cases hv
  · rcases (h _ hMem).required rfl with hNull | ⟨names, hNames⟩
    · dsimp only at hNull
      rw [hNull] at hv
      cases hv
    · dsimp only at hNames
      rw [hNames] at hv
      obtain ⟨s, -, rfl⟩ := List.mem_map.mp hv
      exact ⟨s, rfl⟩

theorem propertiesOf_typed {member : Entries} (hMember : Typed (.map member)) :
    Ensures I TypedProperties (Merged.propertiesOf member) := by
  unfold Merged.propertiesOf
  split
  · exact .pure (by simp [TypedProperties])
  · next v hPresent =>
    obtain rfl := eq_of_present? hPresent
    refine .orMalformed fun es hes => ?_
    rcases getOrNull_eq_null_or_mem member "properties" with hNull | hMem
    · rw [hNull] at hes
      cases hes
    · rcases (hMember.entry _ hMem).properties rfl with hNull | ⟨inner, hInner, hNames⟩
      · dsimp only at hNull
        rw [hNull] at hes
        cases hes
      · dsimp only at hInner
        rw [hInner] at hes hMem
        cases hes
        exact fun p hp => ⟨hNames p hp, hMember.property hMem p hp⟩

/-- What a union holds has its types. -/
structure TypedUnion (u : Merged) : Prop where
  properties : TypedProperties u.properties
  required : ∀ v ∈ u.required, ∃ s, v = .scalar s

theorem addMember_typed {u : Merged} {member : Value} (hu : TypedUnion u)
    (hSub : EnsuresTyped I (sub member)) : Ensures I TypedUnion (addMember sub u member) := by
  refine hSub.bind fun found hFound => ?_
  match found with
  | none => exact .pure hu
  | some [] => exact .pure hu
  | some (e :: rest) =>
    refine (propertiesOf_typed hFound).bind fun properties hProperties => ?_
    refine (itemsAt_ensures (e :: rest) "required").bind fun required hRequired => .pure ?_
    refine ⟨typedProperties_update hu.properties hProperties, fun v hv => ?_⟩
    rcases mem_appendNew hv with hOld | hNew
    · exact hu.required v hOld
    · exact required_scalars hFound.entry (hRequired v hNew)

/-- A union is typed, if the keywords beside it are. -/
theorem toSchema_typed {u : Merged} {beside : Entries} (hu : TypedUnion u)
    (hBeside : ∀ e ∈ beside, TypedEntry e.1 e.2) : Typed (.map (u.toSchema beside)) := by
  refine typed_of_entries fun e he => ?_
  rcases List.mem_append.mp he with he | he
  · simp only [List.mem_cons, List.not_mem_nil, or_false] at he
    rcases he with rfl | rfl | rfl
    · exact .of_name _ (by decide)
    · refine ⟨typedEntry_properties_iff.mpr fun p hp => (hu.properties p hp).1, fun _ es hes p hp => ?_⟩
      cases hes
      exact (hu.properties p hp).2
    · obtain ⟨names, hNames⟩ := exists_scalars hu.required
      rw [hNames]
      have hOther : Scalar.str "required" ≠ .str "properties" := by decide
      exact .of_typed (typedEntry_required names) hOther
  · obtain ⟨key, hKey, hKept⟩ := List.mem_filterMap.mp he
    obtain ⟨v, hv, rfl⟩ := Option.map_eq_some_iff.mp hKept
    have hOther : ∀ key ∈ ["description", "example", "title"],
        Scalar.str key ≠ .str "properties" := by decide
    exact .of_typed (hBeside _ (Entries.get?_eq_some_mem hv)) (hOther key hKey)

theorem ownProperties_typed {schema : Entries} (hEntries : ∀ e ∈ schema, TypedEntry e.1 e.2)
    (hSub : ∀ p ∈ (Entries.getOrNull schema "properties").entryValues, EnsuresTyped I (sub p)) :
    Ensures I TypedProperties (ownProperties sub schema) := by
  unfold ownProperties
  rw [Entries.getOrNull] at hSub
  cases hProperties : Entries.get? schema "properties" with
  | none => exact .pure (by simp [TypedProperties])
  | some v =>
    rw [hProperties, Option.getD_some] at hSub
    cases v with
    | map properties =>
      refine (expandProperties_ensures fun e he => hSub e.2 (List.mem_map_of_mem he)).mono
        fun es hes p hp => ?_
      obtain ⟨⟨e, he, hSame⟩, hTyped⟩ := hes p hp
      rcases (hEntries _ (Entries.get?_eq_some_mem hProperties)).properties rfl with
        hNull | ⟨inner, hInner, hNames⟩
      · cases hNull
      · cases hInner
        exact ⟨hSame ▸ hNames e he, hTyped⟩
    | _ => exact .throw .malformed

theorem expandUnion_typed {schema : Entries} (hEntries : ∀ e ∈ schema, TypedEntry e.1 e.2)
    (hMembers : ∀ p ∈ itemsUnder schema "allOf", EnsuresTyped I (sub p))
    (hOwn : ∀ p ∈ (Entries.getOrNull schema "properties").entryValues, EnsuresTyped I (sub p)) :
    Ensures I (fun es => Typed (.map es)) (expandUnion sub schema) := by
  unfold expandUnion
  rw [itemsUnder] at hMembers
  cases hWalk : (Entries.getOrNull schema "allOf").walk? with
  | none => exact .throw .malformed
  | some members =>
    rw [hWalk, Option.getD_some] at hMembers
    refine Ensures.bind (P := TypedUnion) ?_ fun u hu => ?_
    · exact Ensures.foldlM ⟨by simp [TypedProperties], by simp⟩ fun u hu p hp =>
        addMember_typed hu (hMembers p hp)
    refine (ownProperties_typed hEntries hOwn).bind fun own hOwnTyped => ?_
    refine (itemsAt_ensures schema "required").bind fun required hRequired => .pure ?_
    refine toSchema_typed ⟨typedProperties_update hu.properties hOwnTyped, fun v hv => ?_⟩ hEntries
    rcases mem_appendNew hv with hOld | hNew
    · exact hu.required v hOld
    · exact required_scalars hEntries (hRequired v hNew)

theorem describedAs_typed {schema resolved : Entries} (h : Typed (.map resolved))
    (hEntries : ∀ e ∈ schema, TypedEntry e.1 e.2) :
    Typed (.map (describedAs schema resolved)) := by
  unfold describedAs
  split
  · next description hDescription =>
    split
    · exact h
    · refine typed_of_entries fun e he => ?_
      rcases Entries.mem_put (k := e.1) (v := e.2) he with ⟨hValue, hKey⟩ | hMem
      · have hName : e.1 = .str "description" := hKey.elim id Scalar.same_str.mp
        rw [hName, hValue]
        exact .of_typed (hEntries _ (Entries.get?_eq_some_mem hDescription)) (by decide)
      · exact h.entries e hMem
  · exact h

include hI in
theorem expandChoice_typed {schema : Entries} {keyword : String}
    (hEntries : ∀ e ∈ schema, TypedEntry e.1 e.2)
    (hSub : ∀ p ∈ itemsUnder schema keyword, EnsuresTyped I (sub p)) :
    EnsuresTyped I (expandChoice sub schema keyword) := by
  unfold expandChoice
  refine (itemsAt_ensures schema keyword).bind fun members hMembers => ?_
  refine (firstMember_ensures .null fun p hp => hSub p (hMembers p hp)).bind fun found hFound => ?_
  cases found with
  | none => exact .pure .null
  | some resolved =>
    refine (remarkChoice_ensures hI keyword members.length).bind fun _ _ => .pure ?_
    exact describedAs_typed hFound hEntries

/-- A keyword keeps its type. -/
theorem expandKeyword_typed {key : Scalar} {v : Value} (hTyped : TypedEntry key v)
    (hSub : ∀ p ∈ keywordParts key v, EnsuresTyped I (sub p)) :
    Ensures I (fun w => ResolvedEntry key w) (expandKeyword sub key v) := by
  cases v with
  | map inner =>
    unfold expandKeyword
    rw [keywordParts] at hSub
    dsimp only
    split
    · next hKey =>
      rw [if_pos hKey] at hSub
      subst hKey
      have hAll := expandProperties_ensures fun e he => hSub e.2 (List.mem_map_of_mem he)
      refine hAll.bind fun es hes => .pure ⟨typedEntry_properties_iff.mpr fun p hp => ?_, ?_⟩
      · obtain ⟨⟨e, he, hSame⟩, -⟩ := hes p hp
        rcases hTyped.properties rfl with hNull | ⟨named, hNamed, hNames⟩
        · cases hNull
        · cases hNamed
          exact hSame ▸ hNames e he
      · intro _ es' hes' p hp
        cases hes'
        exact (hes p hp).2
    · next hKey =>
      rw [if_neg hKey] at hSub
      split
      · next hAny =>
        rw [if_pos hAny] at hSub
        refine (hSub _ List.mem_cons_self).bind fun found _ => .pure ?_
        -- nothing is asked of a schema under another keyword
        obtain ⟨name, hName, hSame⟩ := List.any_eq_true.mp hAny
        rw [of_decide_eq_true hSame]
        have hOther : ∀ name ∈ innerKeywords, name ∉ typedKeys := by decide
        exact .of_name _ (hOther name hName)
      · exact .pure (.of_typed hTyped hKey)
  | _ => exact .pure ⟨hTyped, fun _ _ h => by cases h⟩

include hI in
/-- **The rules keep types**, if the given steps do on the reference and on the parts. -/
theorem expandWith_typed {v : Value}
    (hEntries : ∀ es, v = .map es → ∀ e ∈ es, TypedEntry e.1 e.2)
    (hFollow : ∀ ref, v.ref? = some ref → EnsuresTyped I (follow ref))
    (hSub : ∀ p ∈ v.parts, EnsuresTyped I (sub p)) : EnsuresTyped I (expandWith follow sub v) := by
  cases v with
  | map schema =>
    have hSchema := hEntries schema rfl
    cases form schema with
    | reference v hRef =>
      rw [expandWith_of_reference hRef]
      cases v with
      | scalar value =>
        cases value with
        | str ref =>
          refine hFollow ref ?_
          rw [ref?, hRef]
        | _ => exact (remark_ensures hI _ _).bind fun _ _ => .pure .null
      | _ => exact .throw .malformed
    | union hRef hAll =>
      rw [parts_of_union hRef hAll] at hSub
      rw [expandWith_of_union hRef hAll]
      refine Ensures.map (expandUnion_typed hSchema (fun p hp => ?_) fun p hp => ?_)
        fun es hes => hes
      · exact hSub p (List.mem_append_left _ hp)
      · exact hSub p (List.mem_append_right _ hp)
    | choice keyword hRef hAll hKeyword =>
      rw [parts_of_choice hRef hAll hKeyword] at hSub
      rw [expandWith_of_choice hRef hAll hKeyword]
      exact expandChoice_typed hI hSchema hSub
    | direct hDirect =>
      rw [parts_of_direct hDirect] at hSub
      rw [expandWith_of_direct hDirect]
      refine Ensures.map (P := fun es => Typed (.map es)) ?_ fun es hes => hes
      refine Ensures.mono (Ensures.mapM (Q := fun e => ResolvedEntry e.1 e.2) ?_)
        fun es hes => typed_of_entries hes
      rintro ⟨key, w⟩ he
      refine Ensures.bind (expandKeyword_typed (hSchema _ he) fun p hp => ?_) fun y hy => .pure hy
      exact hSub p (List.mem_flatMap.mpr ⟨(key, w), he, hp⟩)
  | _ => exact .pure .null

end Rules

/-! ## Resolving keeps types -/

/-- What is asked of the places of a document where raw schemas stand: keywords have their types, and
the parts of a schema and the schema that it names stand at such places as well. -/
structure Places (document : Value) (S : Value → Prop) : Prop where
  typed : ∀ es, S (.map es) → ∀ e ∈ es, TypedEntry e.1 e.2
  part : ∀ v p, S v → p ∈ v.parts → S p
  target : ∀ v ref w, S v → v.ref? = some ref → referent document ref = .ok w → S w

/-- Everything that is remembered is typed. -/
abbrev RemembersTyped : Session → Prop :=
  Remembers fun found => Typed (schemaValue found)

section

variable {document : Value} {S : Value → Prop} (hPlaces : Places document S)

include hPlaces in
theorem expandTo_typed {follow : String → Resolving (Option Entries)}
    (hFollow : ∀ v ref, S v → v.ref? = some ref → EnsuresTyped RemembersTyped (follow ref))
    (depth : Nat) {v : Value} (hv : S v) : EnsuresTyped RemembersTyped (expandTo follow depth v) := by
  induction depth generalizing v with
  | zero => exact .throw .malformed
  | succ depth ih =>
    refine expandWith_typed (remembers_logFree _) (fun es hes => ?_) (fun ref => hFollow v ref hv)
      fun p hp => ih (hPlaces.part v p hv hp)
    exact hPlaces.typed es (hes ▸ hv)

include hPlaces in
theorem followTo_typed (budget : Nat) {v : Value} {ref : String} (hv : S v)
    (hRef : v.ref? = some ref) : EnsuresTyped RemembersTyped (followTo document budget ref) := by
  induction budget generalizing v ref with
  | zero => exact .throw .malformed
  | succ budget ih =>
    refine followWith_ensures .null (placeholder_typed ref) fun w hNamed => ?_
    exact expandTo_typed hPlaces (fun u other hu hOther => ih hu hOther) _
      (hPlaces.target v ref w hv hRef hNamed)

include hPlaces in
/-- **Resolving keeps types**: at a place of a raw schema it leads to a typed one, and it remembers
no others. -/
theorem Resolver.resolve_typed {v : Value} (hv : S v) :
    EnsuresTyped RemembersTyped (resolve document v) :=
  expandTo_typed hPlaces (fun _ _ hu hRef => followTo_typed hPlaces _ hu hRef) _ hv

end

end IntegrationCompiler
