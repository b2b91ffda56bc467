import IntegrationCompiler.Proofs.Reference.Merging
import IntegrationCompiler.Proofs.Reference.Resolved
import Mathlib.Data.List.ReduceOption

/-!
# Well-made schemas are resolved

Resolving fails only where a keyword of a schema has a value of a kind that nobody planned for, or
where a pointer cannot be read. A schema from which no such place can be visited is resolved, by a
resolver that has served any calls.

* `Achieves` — a step that comes to a result, keeps an invariant, and whose results have a property;
* `Resolver.Visits`, `Resolver.WellMade` — what resolving a schema can visit, and what is asked of
  it;
* `Resolver.Shaped` — what can be relied on in the results;
* `Resolver.expandUnion_run` — what a union comes to, given what its members come to;
* `Resolver.resolve_achieves`, `Resolver.reliableAt_sessionAfter` — well-made schemas are resolved
  to such results, after any calls.
-/

namespace IntegrationCompiler

open Resolving Value

/-! ## Steps that come to a result -/

namespace Resolving

variable {α β : Type}

/-- From a session with `I`, a step comes to a result with `Q` and to a session with `I`. -/
def Achieves (I : Session → Prop) (Q : α → Prop) (x : Resolving α) : Prop :=
  ∀ s, I s → ∃ a t, x.on s = (.ok a, t) ∧ Q a ∧ I t

namespace Achieves

variable {I : Session → Prop} {P : α → Prop} {Q : β → Prop}

theorem pure {a : α} (h : P a) : Achieves I P (pure a) :=
  fun s hs => ⟨a, s, rfl, h, hs⟩

theorem bind {x : Resolving α} {f : α → Resolving β} (hx : Achieves I P x)
    (hf : ∀ a, P a → Achieves I Q (f a)) : Achieves I Q (x >>= f) := by
  intro s hs
  obtain ⟨a, t, hRun, ha, ht⟩ := hx s hs
  obtain ⟨b, u, hRun', hb, hu⟩ := hf a ha t ht
  exact ⟨b, u, by rw [on_bind, hRun]; exact hRun', hb, hu⟩

theorem map {x : Resolving α} {f : α → β} (hx : Achieves I P x) (h : ∀ a, P a → Q (f a)) :
    Achieves I Q (f <$> x) := by
  rw [map_eq_pure_bind]
  exact hx.bind fun a ha => pure (h a ha)

theorem mono {P' : α → Prop} {x : Resolving α} (hx : Achieves I P x) (h : ∀ a, P a → P' a) :
    Achieves I P' x := by
  intro s hs
  obtain ⟨a, t, hRun, ha, ht⟩ := hx s hs
  exact ⟨a, t, hRun, h a ha, ht⟩

theorem mapM {f : α → Resolving β} {xs : List α} (h : ∀ a ∈ xs, Achieves I Q (f a)) :
    Achieves I (fun bs => ∀ b ∈ bs, Q b) (xs.mapM f) := by
  induction xs with
  | nil => exact pure (by simp)
  | cons a rest ih =>
    rw [List.mapM_cons]
    refine (h a List.mem_cons_self).bind fun b hb => ?_
    refine (ih fun c hc => h c (List.mem_cons_of_mem _ hc)).bind fun bs hbs => ?_
    exact pure (List.forall_mem_cons.mpr ⟨hb, hbs⟩)

theorem remark (hI : Resolver.LogFree I) (level : Level) (text : String) :
    Achieves I (fun _ => True) (Resolving.remark level text) :=
  fun s hs => ⟨⟨⟩, _, rfl, trivial, hI s _ hs⟩

end Achieves

end Resolving

namespace Resolver

/-! ## Well-made schemas -/

/-- Properties are kept in a mapping, and required names in a list of texts. -/
structure ShapedEntry (key : Scalar) (v : Value) : Prop where
  properties : key = .str "properties" → ∃ inner, v = .map inner
  required : key = .str "required" → ∃ names, v = .texts names

/-- A schema with properties and required names as they have to be. -/
def Shaped (es : Entries) : Prop :=
  ∀ e ∈ es, ShapedEntry e.1 e.2

/-- A keyword of a well-made schema: a reference can be read as a pointer, and the members of a
composition can be walked through. Members of `oneOf` and `anyOf` may be missing. -/
structure WellMadeEntry (document : Value) (key : Scalar) (v : Value) : Prop
    extends ShapedEntry key v where
  reference : key = .str "$ref" → ∃ k, v = .scalar k ∧
    ∀ ref, k = .str ref → ∃ w, referent document ref = .ok w
  members : key = .str "allOf" → v.walk?.isSome
  alternatives : ∀ keyword ∈ ["oneOf", "anyOf"], key = .str keyword → v.truthy = true → v.walk?.isSome

/-- What can be visited while a schema is resolved: the schema itself, the parts of what is visited,
and what references name. -/
inductive Visits (document : Value) (first : Value) : Value → Prop where
  | self : Visits document first first
  | part {v p : Value} : Visits document first v → p ∈ v.parts → Visits document first p
  | target {v w : Value} {ref : String} : Visits document first v → v.ref? = some ref →
    referent document ref = .ok w → Visits document first w

/-- Every schema that can be visited from a well-made one has keywords of their kinds. -/
def WellMade (document v : Value) : Prop :=
  ∀ es, Visits document v (.map es) → ∀ e ∈ es, WellMadeEntry document e.1 e.2

section

variable {document v w p : Value} {ref : String}

theorem Visits.trans (huv : Visits document p v) (hvw : Visits document v w) :
    Visits document p w := by
  induction hvw with
  | self => exact huv
  | part _ hPart ih => exact ih.part hPart
  | target _ hRef hNamed ih => exact ih.target hRef hNamed

theorem WellMade.part (h : WellMade document v) (hPart : p ∈ v.parts) : WellMade document p :=
  fun es hes => h es ((Visits.self.part hPart).trans hes)

theorem WellMade.target (h : WellMade document v) (hRef : v.ref? = some ref)
    (hNamed : referent document ref = .ok w) : WellMade document w :=
  fun es hes => h es ((Visits.self.target hRef hNamed).trans hes)

/-- The pointer of a well-made reference can be read. -/
theorem WellMade.named (h : WellMade document v) (hRef : v.ref? = some ref) :
    ∃ w, referent document ref = .ok w := by
  cases v with
  | map es =>
    have hThere := Entries.get?_eq_some_mem (get?_of_ref?_eq_some hRef)
    obtain ⟨k, hk, hNamed⟩ := (h es .self _ hThere).reference rfl
    exact hNamed ref (Value.scalar.inj hk).symm
  | _ => cases hRef

end

/-! ## The rules come to results -/

section Rules

variable {I : Session → Prop} (hI : LogFree I)
variable {follow : String → Resolving (Option Entries)} {sub : Value → Resolving (Option Entries)}

/-- The results that can be relied on. -/
abbrev AchievesShaped (I : Session → Prop) (x : Resolving (Option Entries)) : Prop :=
  Achieves I (fun found => ∀ es ∈ found, Shaped es) x

theorem ShapedEntry.of_other {name : String} (v : Value)
    (h : name ≠ "properties" ∧ name ≠ "required") : ShapedEntry (.str name) v where
  properties hKey := absurd (Scalar.str.inj hKey) h.1
  required hKey := absurd (Scalar.str.inj hKey) h.2

theorem ShapedEntry.properties_map (inner : Entries) :
    ShapedEntry (.str "properties") (.map inner) where
  properties _ := ⟨inner, rfl⟩
  required hKey := absurd (Scalar.str.inj hKey) (by decide)

theorem ShapedEntry.required_texts (names : List String) :
    ShapedEntry (.str "required") (.texts names) where
  properties hKey := absurd (Scalar.str.inj hKey) (by decide)
  required _ := ⟨names, rfl⟩

theorem expandProperties_achieves {properties : Entries}
    (hSub : ∀ e ∈ properties, AchievesShaped I (sub e.2)) :
    Achieves I (fun _ => True) (expandProperties sub properties) := by
  refine (Achieves.mapM (Q := fun _ => True) fun e he => ?_).mono fun _ _ => trivial
  exact (hSub e he).bind fun _ _ => .pure trivial

/-! ### Unions -/

/-- The properties of a resolved schema. -/
def propertiesUnder (es : Entries) : Entries :=
  (Entries.getOrNull es "properties").entries?.getD []

/-- What a resolved schema contributes to a union that it is a member of. -/
def contributed (es : Entries) : Merged :=
  ⟨propertiesUnder es, itemsUnder es "required"⟩

theorem Shaped.properties_cases {es : Entries} (h : Shaped es) :
    Entries.getOrNull es "properties" = .null ∨
      ∃ inner, Entries.getOrNull es "properties" = .map inner :=
  (getOrNull_eq_null_or_mem es "properties").imp_right fun hMem => (h _ hMem).properties rfl

theorem Shaped.required_cases {es : Entries} (h : Shaped es) :
    Entries.getOrNull es "required" = .null ∨
      ∃ names, Entries.getOrNull es "required" = .texts names :=
  (getOrNull_eq_null_or_mem es "required").imp_right fun hMem => (h _ hMem).required rfl

theorem Shaped.propertiesOf {es : Entries} (h : Shaped es) :
    Merged.propertiesOf es = pure (propertiesUnder es) := by
  unfold Merged.propertiesOf propertiesUnder
  rcases h.properties_cases with hNull | ⟨inner, hInner⟩
  · rw [hNull]
    rfl
  · rw [hInner]
    cases inner <;> rfl

theorem Shaped.itemsAt_required {es : Entries} (h : Shaped es) :
    itemsAt es "required" = pure (itemsUnder es "required") := by
  refine itemsAt_eq fun hTruthy => ?_
  rcases h.required_cases with hNull | ⟨names, hNames⟩
  · rw [hNull] at hTruthy
    cases hTruthy
  · rw [hNames]
    rfl

theorem Shaped.required_texts {es : Entries} (h : Shaped es) :
    ∃ names : List String, itemsUnder es "required" = names.map .str := by
  unfold itemsUnder
  rcases h.required_cases with hNull | ⟨names, hNames⟩
  · exact ⟨[], by rw [hNull]; rfl⟩
  · exact ⟨names, by rw [hNames]; rfl⟩

/-- Members that were resolved to schemas with the right shape contribute what these have. -/
theorem contributions_run {members : List Value} {found : List (Option Entries)} {s t : Session}
    (hRun : (members.mapM sub).on s = (.ok found, t)) (hShaped : ∀ f ∈ found, ∀ es ∈ f, Shaped es) :
    (members.mapM (contribution sub)).on s = (.ok (found.map fun f => f.elim {} contributed), t) := by
  induction members generalizing s found with
  | nil =>
    cases hRun
    rfl
  | cons member rest ih =>
    rw [List.mapM_cons] at hRun ⊢
    obtain ⟨first, s', hFirst, hRun⟩ := on_bind_eq_ok hRun
    obtain ⟨others, t', hOthers, hRun⟩ := on_bind_eq_ok hRun
    cases hRun
    have hOne : (contribution sub member).on s = (.ok (first.elim {} contributed), s') := by
      rw [contribution, on_bind, hFirst]
      dsimp only
      match first, hShaped first List.mem_cons_self with
      | none, _ => rfl
      | some [], _ => rfl
      | some (e :: es), hFound =>
        dsimp only
        rw [(hFound _ rfl).propertiesOf, (hFound _ rfl).itemsAt_required]
        rfl
    rw [on_bind, hOne]
    dsimp only
    rw [on_bind, ih hOthers fun f hf => hShaped f (List.mem_cons_of_mem _ hf)]
    rfl

/-- The contributions to a union: those of its members, except the ones that lead to no schema, and
then its own. -/
def contributions (found : List (Option Entries)) (own : Entries) (schema : Entries) : List Merged :=
  found.reduceOption.map contributed ++ [⟨own, itemsUnder schema "required"⟩]

/-- Nothing changes if nothing is contributed. -/
theorem extend_reduceOption (u : Merged) (found : List (Option Entries)) :
    u.extend (found.map fun f => f.elim {} contributed) =
      u.extend (found.reduceOption.map contributed) := by
  induction found generalizing u with
  | nil => rfl
  | cons f rest ih =>
    cases f with
    | none => exact ih u
    | some es =>
      rw [List.reduceOption_cons_of_some, List.map_cons, List.map_cons, Merged.extend_cons, ih,
        ← Merged.extend_cons]
      rfl

/-- **A union brings the contributions of its members and its own together.** -/
theorem expandUnion_run {schema own : Entries} {members : List Value}
    {found : List (Option Entries)} {s t u : Session}
    (hAll : (Entries.getOrNull schema "allOf").walk? = some members) (hSchema : Shaped schema)
    (hFound : (members.mapM sub).on s = (.ok found, t))
    (hShaped : ∀ f ∈ found, ∀ es ∈ f, Shaped es)
    (hOwn : (ownProperties sub schema).on t = (.ok own, u)) :
    (expandUnion sub schema).on s =
      (.ok ((({} : Merged).extend (contributions found own schema)).toSchema schema), u) := by
  have hFold : (members.foldlM (addMember sub) {}).on s =
      (.ok (({} : Merged).extend (found.reduceOption.map contributed)), t) := by
    rw [foldlM_addMember, map_eq_pure_bind, on_bind, contributions_run hFound hShaped,
      ← extend_reduceOption]
    rfl
  rw [expandUnion, hAll, orMalformed, pure_bind, on_bind, hFold]
  dsimp only
  rw [on_bind, hOwn]
  dsimp only
  rw [hSchema.itemsAt_required, pure_bind, contributions, Merged.extend_append,
    Merged.extend_singleton]
  rfl

theorem extend_required_texts {cs : List Merged}
    (h : ∀ c ∈ cs, ∃ names : List String, c.required = names.map .str) :
    ∃ names : List String, cs.flatMap (·.required) = names.map .str ∧
      (({} : Merged).extend cs).required = names.eraseDups.map .str := by
  have hTexts : ∃ names : List String, cs.flatMap (·.required) = names.map .str := by
    induction cs with
    | nil => exact ⟨[], rfl⟩
    | cons c rest ih =>
      obtain ⟨names, hNames⟩ := h c List.mem_cons_self
      obtain ⟨others, hOthers⟩ := ih fun c hc => h c (List.mem_cons_of_mem _ hc)
      exact ⟨names ++ others, by rw [List.flatMap_cons, hNames, hOthers, List.map_append]⟩
  obtain ⟨names, hNames⟩ := hTexts
  refine ⟨names, hNames, ?_⟩
  rw [Merged.extend, hNames]
  exact appendNew_texts names

theorem contributions_texts {found : List (Option Entries)} {own schema : Entries}
    (hShaped : ∀ f ∈ found, ∀ es ∈ f, Shaped es) (hSchema : Shaped schema) :
    ∀ c ∈ contributions found own schema, ∃ names : List String, c.required = names.map .str := by
  intro c hc
  rcases List.mem_append.mp hc with hc | hc
  · obtain ⟨es, hes, rfl⟩ := List.mem_map.mp hc
    exact (hShaped _ (List.reduceOption_mem_iff.mp hes) es rfl).required_texts
  · cases List.mem_singleton.mp hc
    exact hSchema.required_texts

theorem toSchema_shaped {u : Merged} (hTexts : ∃ names : List String, u.required = names.map .str)
    (beside : Entries) : Shaped (u.toSchema beside) := by
  intro e he
  rcases List.mem_append.mp he with he | he
  · simp only [List.mem_cons, List.not_mem_nil, or_false] at he
    rcases he with rfl | rfl | rfl
    · exact .of_other _ (by decide)
    · exact .properties_map u.properties
    · obtain ⟨names, hNames⟩ := hTexts
      rw [hNames]
      exact .required_texts names
  · obtain ⟨key, hKey, hKept⟩ := List.mem_filterMap.mp he
    obtain ⟨v, -, rfl⟩ := Option.map_eq_some_iff.mp hKept
    have hOther : ∀ key ∈ ["description", "example", "title"],
        key ≠ "properties" ∧ key ≠ "required" := by decide
    exact .of_other v (hOther key hKey)

theorem ownProperties_achieves {schema : Entries} (hSchema : Shaped schema)
    (hSub : ∀ p ∈ (Entries.getOrNull schema "properties").entryValues, AchievesShaped I (sub p)) :
    Achieves I (fun _ => True) (ownProperties sub schema) := by
  unfold ownProperties
  rw [Entries.getOrNull] at hSub
  cases hProperties : Entries.get? schema "properties" with
  | none => exact .pure trivial
  | some v =>
    obtain ⟨inner, rfl⟩ := (hSchema _ (Entries.get?_eq_some_mem hProperties)).properties rfl
    rw [hProperties, Option.getD_some] at hSub
    exact expandProperties_achieves fun e he => hSub e.2 (List.mem_map_of_mem he)

theorem expandUnion_achieves {schema : Entries} {members : List Value}
    (hAll : (Entries.getOrNull schema "allOf").walk? = some members) (hSchema : Shaped schema)
    (hMembers : ∀ p ∈ members, AchievesShaped I (sub p))
    (hOwn : ∀ p ∈ (Entries.getOrNull schema "properties").entryValues, AchievesShaped I (sub p)) :
    Achieves I Shaped (expandUnion sub schema) := by
  intro s hs
  obtain ⟨found, t, hFound, hShaped, ht⟩ := Achieves.mapM hMembers s hs
  obtain ⟨own, u, hRun, -, hu⟩ := ownProperties_achieves hSchema hOwn t ht
  refine ⟨_, u, expandUnion_run hAll hSchema hFound hShaped hRun, toSchema_shaped ?_ schema, hu⟩
  obtain ⟨names, -, hNames⟩ := extend_required_texts (contributions_texts hShaped hSchema)
  exact ⟨_, hNames⟩

/-! ### Choices and plain schemas -/

theorem firstMember_achieves {members : List Value} (hSub : ∀ p ∈ members, AchievesShaped I (sub p)) :
    AchievesShaped I (firstMember sub members) := by
  induction members with
  | nil => exact .pure (by simp)
  | cons member rest ih =>
    refine (hSub member List.mem_cons_self).bind fun found hFound => ?_
    cases found with
    | none => exact ih fun p hp => hSub p (List.mem_cons_of_mem _ hp)
    | some resolved => exact .pure hFound

theorem describedAs_shaped {resolved : Entries} (h : Shaped resolved) (schema : Entries) :
    Shaped (describedAs schema resolved) := by
  unfold describedAs
  split
  · split
    · exact h
    · intro e he
      rcases Entries.mem_put he with ⟨-, hKey⟩ | hOld
      · -- only the key of the description can be new
        have hDescription : e.1 = .str "description" := hKey.elim id Scalar.same_str.mp
        rw [hDescription]
        exact .of_other _ (by decide)
      · exact h e hOld
  · exact h

include hI in
theorem expandChoice_achieves {schema : Entries} {keyword : String}
    (hItems : itemsAt schema keyword = pure (itemsUnder schema keyword))
    (hSub : ∀ p ∈ itemsUnder schema keyword, AchievesShaped I (sub p)) :
    AchievesShaped I (expandChoice sub schema keyword) := by
  unfold expandChoice
  rw [hItems, pure_bind]
  refine (firstMember_achieves hSub).bind fun found hFound => ?_
  cases found with
  | none => exact .pure (by simp)
  | some resolved =>
    refine Achieves.bind (P := fun _ => True) ?_ fun _ _ => .pure fun es hes => ?_
    · unfold remarkChoice
      split
      · exact .remark hI _ _
      · exact .pure trivial
    · cases hes
      exact describedAs_shaped (hFound resolved rfl) schema

theorem expandKeyword_achieves {key : Scalar} {v : Value} (hEntry : ShapedEntry key v)
    (hSub : ∀ p ∈ keywordParts key v, AchievesShaped I (sub p)) :
    Achieves I (fun w => ShapedEntry key w) (expandKeyword sub key v) := by
  unfold expandKeyword keywordParts at *
  split
  · next inner =>
    dsimp only at hSub
    split
    · next hKey =>
      rw [if_pos hKey] at hSub
      refine (expandProperties_achieves fun e he => hSub e.2 (List.mem_map_of_mem he)).bind
        fun resolved _ => .pure ?_
      exact hKey ▸ .properties_map resolved
    · next hKey =>
      rw [if_neg hKey] at hSub
      split
      · next hInner =>
        rw [if_pos hInner] at hSub
        refine (hSub _ List.mem_cons_self).bind fun found _ => .pure ?_
        obtain ⟨name, hName, hSame⟩ := List.any_eq_true.mp hInner
        have hOther : ∀ name ∈ innerKeywords, name ≠ "properties" ∧ name ≠ "required" := by decide
        rw [of_decide_eq_true hSame]
        exact .of_other _ (hOther name hName)
      · exact .pure hEntry
  · exact .pure hEntry

theorem exists_members {document : Value} {schema : Entries}
    (h : ∀ e ∈ schema, WellMadeEntry document e.1 e.2) (hAll : Entries.has schema "allOf" = true) :
    ∃ members, (Entries.getOrNull schema "allOf").walk? = some members := by
  obtain ⟨v, hv⟩ := Option.isSome_iff_exists.mp hAll
  rw [Entries.getOrNull, hv]
  exact Option.isSome_iff_exists.mp ((h _ (Entries.get?_eq_some_mem hv)).members rfl)

theorem itemsAt_alternatives {document : Value} {schema : Entries} {keyword : String}
    (h : ∀ e ∈ schema, WellMadeEntry document e.1 e.2) (hKeyword : keyword ∈ ["oneOf", "anyOf"]) :
    itemsAt schema keyword = pure (itemsUnder schema keyword) := by
  refine itemsAt_eq fun hTruthy => ?_
  rcases getOrNull_eq_null_or_mem schema keyword with hNull | hMem
  · rw [hNull] at hTruthy
    cases hTruthy
  · exact (h _ hMem).alternatives keyword hKeyword rfl hTruthy

include hI in
/-- **The rules come to results**, if the given steps do on the reference and on the parts. -/
theorem expandWith_achieves {document v : Value}
    (hEntries : ∀ es, v = .map es → ∀ e ∈ es, WellMadeEntry document e.1 e.2)
    (hFollow : ∀ ref, v.ref? = some ref → AchievesShaped I (follow ref))
    (hSub : ∀ p ∈ v.parts, AchievesShaped I (sub p)) :
    AchievesShaped I (expandWith follow sub v) := by
  cases v with
  | map schema =>
    have hSchema := hEntries schema rfl
    have hShaped : Shaped schema := fun e he => (hSchema e he).toShapedEntry
    cases form schema with
    | reference w hRef =>
      rw [expandWith_of_reference hRef]
      obtain ⟨k, rfl, -⟩ := (hSchema _ (Entries.get?_eq_some_mem hRef)).reference rfl
      cases k with
      | str ref =>
        refine hFollow ref ?_
        rw [ref?, hRef]
      | _ => exact (Achieves.remark hI _ _).bind fun _ _ => .pure (by simp)
    | union hRef hAll =>
      obtain ⟨members, hMembers⟩ := exists_members hSchema hAll
      rw [parts_of_union hRef hAll, itemsUnder, hMembers] at hSub
      rw [expandWith_of_union hRef hAll]
      refine Achieves.map (expandUnion_achieves hMembers hShaped (fun p hp => ?_) fun p hp => ?_)
        fun es hes => by simpa using hes
      · exact hSub p (List.mem_append_left _ hp)
      · exact hSub p (List.mem_append_right _ hp)
    | choice keyword hRef hAll hKeyword =>
      rw [parts_of_choice hRef hAll hKeyword] at hSub
      rw [expandWith_of_choice hRef hAll hKeyword]
      refine expandChoice_achieves hI (itemsAt_alternatives hSchema ?_) hSub
      rcases hKeyword with ⟨rfl, -⟩ | ⟨rfl, -⟩ <;> decide
    | direct hDirect =>
      rw [parts_of_direct hDirect] at hSub
      rw [expandWith_of_direct hDirect]
      refine Achieves.map (P := Shaped) (Achieves.mapM fun e he => ?_) fun es hes => by simpa using hes
      refine (expandKeyword_achieves (hShaped e he) fun p hp => ?_).bind fun w hw => .pure hw
      exact hSub p (List.mem_flatMap.mpr ⟨e, he, hp⟩)
  | _ => exact .pure (by simp)

end Rules

/-! ## Resolving comes to results -/

theorem placeholder_shaped (ref : String) : Shaped (placeholder ref) := by
  intro e he
  simp only [placeholder, List.mem_cons, List.not_mem_nil, or_false] at he
  rcases he with rfl | rfl
  · exact .of_other _ (by decide)
  · exact .of_other _ (by decide)

/-- What is remembered of references to well-made schemas can be relied on. -/
def RemembersShaped (document : Value) (memo : List (String × Option Entries)) : Prop :=
  ∀ ref found, (ref, found) ∈ memo → ∀ w, referent document ref = .ok w → WellMade document w →
    ∀ es ∈ found, Shaped es

/-- The same of a session in which the given references are active. -/
def ReliableAt (document : Value) (active : List String) (s : Session) : Prop :=
  s.active = active ∧ RemembersShaped document s.resolved

theorem reliableAt_logFree (document : Value) (active : List String) :
    LogFree (ReliableAt document active) :=
  fun _ _ h => h

theorem followWith_achieves {document v : Value} {target : Value → Resolving (Option Entries)}
    {active : List String} {ref : String} (hv : WellMade document v) (hRef : v.ref? = some ref)
    (hTarget : ref ∉ active → ∀ w, referent document ref = .ok w → w ≠ .null →
      Achieves (ReliableAt document (ref :: active)) (fun found => ∀ es ∈ found, Shaped es)
        (target w)) :
    AchievesShaped (ReliableAt document active) (followWith document target ref) := by
  rintro s ⟨rfl, hs⟩
  obtain ⟨w, hNamed⟩ := hv.named hRef
  cases following document ref s with
  | active _ hRun =>
    exact ⟨_, s, hRun target, by simpa using placeholder_shaped ref, rfl, hs⟩
  | remembered found _ hFound hRun =>
    obtain ⟨before, after, hMem, -⟩ := List.lookup_eq_some_iff.mp hFound
    refine ⟨found, s, hRun target, ?_, rfl, hs⟩
    exact hs ref found (by rw [hMem]; simp) w hNamed (hv.target hRef hNamed)
  | nowhere log _ _ hRun =>
    refine ⟨none, { s with log := log }, ?_, by simp, rfl, hs⟩
    rw [hRun, hNamed]
    rfl
  | target w' log hNew _ hReferent hw hRun =>
    obtain ⟨found, t, hEnded, hShaped, hActive, ht⟩ := hTarget hNew w' hReferent hw
      { s with log := log, active := ref :: s.active } ⟨rfl, hs⟩
    refine ⟨found, { t with active := t.active.drop 1, resolved := (ref, found) :: t.resolved },
      ?_, hShaped, congrArg (List.drop 1) hActive, fun other found' hMem => ?_⟩
    · rw [hRun, hEnded]
      rfl
    · rcases List.mem_cons.mp hMem with hEq | hMem
      · cases hEq
        exact fun _ _ _ => hShaped
      · exact ht other found' hMem

/-- **A well-made schema is resolved**, also while references are active. -/
theorem resolve_achieves (document : Value) (call : Call) (hCall : WellMade document call.schema) :
    AchievesShaped (ReliableAt document call.active) (resolve document call.schema) := by
  induction call using (Call.opens_wellFounded document).induction with
  | _ call ih =>
    rw [resolve_eq, resolveStep]
    refine expandWith_achieves (reliableAt_logFree document call.active)
      (fun es hes => hCall es (hes ▸ .self)) (fun ref hRef => ?_) fun p hp => ?_
    · refine followWith_achieves hCall hRef fun hNew w hNamed hw => ?_
      exact ih ⟨ref :: call.active, w⟩ (.target hRef hNew hNamed hw) (hCall.target hRef hNamed)
    · exact ih ⟨call.active, p⟩ (.part hp) (hCall.part hp)

/-- After any calls, what is remembered of well-made schemas can be relied on. -/
theorem reliableAt_sessionAfter (document : Entries) (calls : List ResolverCall) :
    ReliableAt (.map document) [] (sessionAfter document calls) := by
  refine sessionAfter_keeps (reliableAt_logFree _ _) ⟨rfl, fun ref found hMem => nomatch hMem⟩
    (fun v s hs => ⟨fun _ _ => trivial, ?_, ?_⟩) calls
  · rw [resolve_active, hs.1]
  · refine @resolved_invariant (.map document) (fun _ => True) (fun _ _ _ _ => trivial)
      (RemembersShaped (.map document)) ?_ ⟨s.active, v⟩ trivial s rfl hs.2
    intro call _ ref _ _ w hNamed hw s' hActive hs' _ resolved t hRun ht other found hMem
    rcases List.mem_cons.mp hMem with hEq | hMem
    · cases hEq
      intro w' hNamed' hWell
      cases hNamed.symm.trans hNamed'
      obtain ⟨found, t', hRun', hShaped, -⟩ :=
        resolve_achieves (.map document) ⟨ref :: call.active, w⟩ hWell s' ⟨hActive, hs'⟩
      cases hRun.symm.trans hRun'
      exact hShaped
    · exact ht other found hMem

end Resolver

end IntegrationCompiler
