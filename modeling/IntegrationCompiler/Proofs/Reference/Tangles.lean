import IntegrationCompiler.Proofs.Reference.History

/-!
# References that lead to each other

The expansion of a reference that was met inside another expansion holds a placeholder wherever it
comes back to the outer reference. It is remembered like any other, so two different references that
lead to each other are resolved differently after different calls.

* `Later` — what a session remembers, every later session remembers;
* `Value.Shows` — a schema mentions a reference at a place that its expansion keeps;
* `Resolver.depth_lt_of_leads` — if calls make no difference, the expansion of a reference holds the
  expansions of the references that it leads to in place;
* `earlier_calls` — calls make no difference for untangled schemas, and no larger class of
  references has this property where schemas are written out.
-/

namespace IntegrationCompiler

open Resolving Value Resolver

/-! ## Sessions only grow -/

/-- The same references are active, and what was remembered is remembered. -/
structure Later (s t : Session) : Prop where
  active : t.active = s.active
  lookup : ∀ ref resolved, s.resolved.lookup ref = some resolved →
    t.resolved.lookup ref = some resolved

namespace Later

theorem refl (s : Session) : Later s s := ⟨rfl, fun _ _ h => h⟩

theorem trans {s t u : Session} (hst : Later s t) (htu : Later t u) : Later s u :=
  ⟨htu.active.trans hst.active, fun ref resolved h => htu.lookup _ _ (hst.lookup ref resolved h)⟩

end Later

/-- A step after which nothing is forgotten. -/
def Grows {α : Type} (x : Resolving α) : Prop :=
  ∀ s, Later s (x.on s).2

namespace Grows

variable {α β : Type}

theorem ensures {x : Resolving α} (h : Grows x) (s : Session) :
    Ensures (Later s) (fun _ => True) x :=
  fun t ht => ⟨fun _ _ => trivial, ht.trans (h t)⟩

theorem of_ensures {Q : α → Prop} {x : Resolving α} (h : ∀ s, Ensures (Later s) Q x) : Grows x :=
  fun s => (h s s (.refl s)).2

theorem pure (a : α) : Grows (pure a) := fun s => .refl s

theorem bind {x : Resolving α} {f : α → Resolving β} (hx : Grows x) (hf : ∀ a, Grows (f a)) :
    Grows (x >>= f) :=
  of_ensures fun s => (hx.ensures s).bind fun a _ => (hf a).ensures s

theorem mapM {f : α → Resolving β} {xs : List α} (h : ∀ a ∈ xs, Grows (f a)) :
    Grows (xs.mapM f) :=
  of_ensures fun s => Ensures.mapM fun a ha => (h a ha).ensures s

end Grows

/-- Resolving forgets nothing. -/
theorem resolve_grows (document v : Value) : Grows (resolve document v) := by
  intro s
  refine ⟨resolve_active document v s, fun ref resolved h => ?_⟩
  refine @resolved_invariant document (fun _ => True) (fun _ _ _ _ => trivial)
    (fun memo => memo.lookup ref = some resolved) ?_ ⟨s.active, v⟩ trivial s rfl h
  intro call _ new _ _ w _ _ s' _ hBefore hNone found t _ ht
  -- the added reference was not remembered, so it is another one
  have hOther : ref ≠ new := by
    rintro rfl
    rw [hNone] at hBefore
    cases hBefore
  rw [List.lookup_cons, beq_false_of_ne hOther]
  exact ht

/-! ## What an expansion is made of -/

section

variable {α β : Type}

/-- Each member of a list was treated in a session between the first and the last. -/
theorem mapM_ok {f : α → Resolving β} {xs : List α} (hGrows : ∀ a ∈ xs, Grows (f a))
    {s t : Session} {bs : List β} (h : (xs.mapM f).on s = (.ok bs, t)) {a : α} (ha : a ∈ xs) :
    ∃ b ∈ bs, ∃ s' t', Later s s' ∧ (f a).on s' = (.ok b, t') ∧ Later t' t := by
  induction xs generalizing s bs with
  | nil => nomatch ha
  | cons c rest ih =>
    rw [List.mapM_cons] at h
    obtain ⟨b, s₁, hFirst, h⟩ := on_bind_eq_ok h
    obtain ⟨bs', s₂, hRest, h⟩ := on_bind_eq_ok h
    cases h
    have hGrowsRest : ∀ a ∈ rest, Grows (f a) := fun a ha => hGrows a (List.mem_cons_of_mem _ ha)
    rcases List.mem_cons.mp ha with rfl | ha
    · -- treated first; the others come later
      have hEnd := Grows.mapM hGrowsRest s₁
      rw [hRest] at hEnd
      exact ⟨b, List.mem_cons_self, s, s₁, .refl s, hFirst, hEnd⟩
    · -- treated after the first
      have hStart := hGrows c List.mem_cons_self s
      rw [hFirst] at hStart
      obtain ⟨b', hb', s', t', hLater, hRun, hEnd⟩ := ih hGrowsRest hRest ha
      exact ⟨b', List.mem_cons_of_mem _ hb', s', t', hStart.trans hLater, hRun, hEnd⟩

end

section

variable {sub : Value → Resolving (Option Entries)} (hSub : ∀ p, Grows (sub p))

include hSub in
theorem expandProperties_grows (properties : Entries) : Grows (expandProperties sub properties) :=
  Grows.mapM fun e _ => (hSub e.2).bind fun _ => .pure _

include hSub in
theorem expandKeyword_grows (key : Scalar) (v : Value) : Grows (expandKeyword sub key v) := by
  unfold expandKeyword
  split
  · split
    · exact (expandProperties_grows hSub _).bind fun _ => .pure _
    · split
      · exact (hSub _).bind fun _ => .pure _
      · exact .pure _
  · exact .pure _

include hSub in
/-- The expansion of a keyword holds the expansions of the schemas under it. -/
theorem expandKeyword_ok {key : Scalar} {v y p : Value} {s t : Session}
    (h : (expandKeyword sub key v).on s = (.ok y, t)) (hp : p ∈ keywordParts key v) :
    ∃ x s' t', Later s s' ∧ (sub p).on s' = (.ok x, t') ∧ Later t' t ∧
      (schemaValue x).depth ≤ y.depth := by
  cases v with
  | map inner =>
    rw [keywordParts] at hp
    unfold expandKeyword at h
    dsimp only at h
    split at h
    · next hKey =>
      -- under `properties`, the part is one of the entries
      rw [if_pos hKey] at hp
      obtain ⟨e, he, rfl⟩ := List.mem_map.mp hp
      obtain ⟨out, t₁, hRun, h⟩ := on_bind_eq_ok h
      cases h
      have hGrows : ∀ e ∈ inner, Grows (do return (e.1, schemaValue (← sub e.2))) :=
        fun e _ => (hSub e.2).bind fun _ => .pure _
      obtain ⟨b, hb, s', t', hStart, hEntry, hEnd⟩ := mapM_ok hGrows hRun he
      obtain ⟨x, t₂, hPart, h⟩ := on_bind_eq_ok hEntry
      cases h
      exact ⟨x, s', _, hStart, hPart, hEnd, Nat.le_of_lt (depth_lt_of_mem_entries hb)⟩
    · next hKey =>
      rw [if_neg hKey] at hp
      split at h
      · next hAny =>
        -- under another keyword, it is the value itself
        rw [if_pos hAny, List.mem_singleton] at hp
        subst hp
        obtain ⟨x, t₁, hRun, h⟩ := on_bind_eq_ok h
        cases h
        exact ⟨x, s, _, .refl s, hRun, .refl _, Nat.le_refl _⟩
      · next hAny =>
        rw [if_neg hAny] at hp
        cases hp
  | _ => cases hp

end

/-- The expansion of a schema in place holds the expansions of its parts, each made in a session on
the way. -/
theorem resolve_part {document : Value} {schema : Entries} (hDirect : Direct schema)
    {s t : Session} {resolved : Option Entries}
    (h : (resolve document (.map schema)).on s = (.ok resolved, t)) {p : Value}
    (hp : p ∈ (Value.map schema).parts) :
    ∃ x s' t', Later s s' ∧ (resolve document p).on s' = (.ok x, t') ∧ Later t' t ∧
      (schemaValue x).depth < (schemaValue resolved).depth := by
  rw [resolve_eq, resolveStep, expandWith_of_direct hDirect, map_eq_pure_bind] at h
  rw [parts_of_direct hDirect] at hp
  obtain ⟨⟨key, v⟩, hEntry, hp⟩ := List.mem_flatMap.mp hp
  obtain ⟨out, t₁, hRun, h⟩ := on_bind_eq_ok h
  cases h
  have hGrows : ∀ e ∈ schema, Grows (do return (e.1, ← expandKeyword (resolve document) e.1 e.2)) :=
    fun e _ => (expandKeyword_grows (resolve_grows document) e.1 e.2).bind fun _ => .pure _
  obtain ⟨b, hb, s', t', hStart, hKeyword, hEnd⟩ := mapM_ok hGrows hRun hEntry
  obtain ⟨y, t₂, hKeyword, h⟩ := on_bind_eq_ok hKeyword
  cases h
  obtain ⟨x, s'', t'', hStart', hPart, hEnd', hDepth⟩ :=
    expandKeyword_ok (resolve_grows document) hKeyword hp
  exact ⟨x, s'', t'', hStart.trans hStart', hPart, hEnd'.trans hEnd,
    Nat.lt_of_le_of_lt hDepth (depth_lt_of_mem_entries hb)⟩

/-! ## References that stand in place -/

/-- The schema mentions the reference at a place that its expansion keeps: no composition is on the
way. -/
inductive Value.Shows : Value → String → Prop where
  | self {v : Value} {ref : String} : v.ref? = some ref → Shows v ref
  | part {schema : Entries} {p : Value} {ref : String} : Direct schema →
    p ∈ (Value.map schema).parts → Shows p ref → Shows (.map schema) ref

theorem not_shows_null {ref : String} : ¬ Value.null.Shows ref := by
  intro h
  cases h with
  | self hRef => cases hRef

theorem Value.Shows.mentions {v : Value} {next : String} (h : v.Shows next) : v.Mentions next := by
  induction h with
  | self hRef => exact .self hRef
  | part _ hPart _ ih => exact .part hPart ih

section

variable {document : Value}

/-- A complete expansion of a reference is remembered. -/
theorem followWith_remembers {ref : String} {w : Value} {s t : Session} {resolved : Option Entries}
    (hNamed : referent document ref = .ok w) (hw : w ≠ .null) (hNew : ref ∉ s.active)
    (h : (followWith document (resolve document) ref).on s = (.ok resolved, t)) :
    t.resolved.lookup ref = some resolved := by
  cases following document ref s with
  | active hMem _ => exact absurd hMem hNew
  | remembered found _ hResolved hRun =>
    rw [hRun] at h
    cases h
    exact hResolved
  | nowhere _ _ hNull _ => exact absurd (hNull w hNamed) hw
  | target w' log _ _ _ _ hFollow =>
    rw [hFollow] at h
    cases hRun : (resolve document w').on { s with log := log, active := ref :: s.active } with
    | mk out t' =>
      rw [hRun] at h
      cases out with
      | error e => cases h
      | ok found =>
        cases h
        exact List.lookup_cons_self

/-- When a schema has been expanded, the references that it shows are remembered, and its
expansion holds theirs. -/
theorem remembered_of_shows {v w : Value} {ref : String} (hShows : v.Shows ref)
    (hNamed : referent document ref = .ok w) (hw : w ≠ .null) {s t : Session}
    {resolved : Option Entries} (hNew : ref ∉ s.active)
    (h : (resolve document v).on s = (.ok resolved, t)) :
    ∃ y, t.resolved.lookup ref = some y ∧ (schemaValue y).depth ≤ (schemaValue resolved).depth ∧
      (v.ref? = none → (schemaValue y).depth < (schemaValue resolved).depth) := by
  induction hShows generalizing s t resolved with
  | self hRef =>
    rw [resolve_of_ref? hRef] at h
    refine ⟨resolved, followWith_remembers hNamed hw hNew h, Nat.le_refl _, fun hNone => ?_⟩
    rw [hRef] at hNone
    cases hNone
  | part hDirect hPart _ ih =>
    obtain ⟨x, s', t', hStart, hRun, hEnd, hDepth⟩ := resolve_part hDirect h hPart
    obtain ⟨y, hLookup, hLe, -⟩ := ih hNamed (hStart.active ▸ hNew) hRun
    have hLt := Nat.lt_of_le_of_lt hLe hDepth
    exact ⟨y, hEnd.lookup _ _ hLookup, Nat.le_of_lt hLt, fun _ => hLt⟩

end

namespace Resolver

/-- What the first reference names is no reference, and shows the second. -/
def LeadsInPlace (document : Value) (ref next : String) : Prop :=
  ∃ w, referent document ref = .ok w ∧ w.ref? = none ∧ w.Shows next

/-- From the first reference, the second can be reached through places that expansions keep. -/
abbrev ReachesInPlace (document : Value) : String → String → Prop :=
  Relation.ReflTransGen (LeadsInPlace document)

/-- Calls make no difference to how the reference is resolved. -/
def Steady (document : Entries) (ref : String) : Prop :=
  ∀ calls, outcome (.map document) (ofRef ref) (sessionAfter document calls) =
    outcome (.map document) (ofRef ref) {}

/-- A fresh resolver finds something for the reference. -/
def Resolves (document : Entries) (ref : String) : Prop :=
  ∃ resolved, outcome (.map document) (ofRef ref) {} = .ok resolved

section

variable {document : Entries} {ref : String}

/-- **If calls make no difference, expansions are nested as the references are.** Resolving `ref`
first remembers the expansion of `next` that stands in that of `ref`. -/
theorem depth_lt_of_leads {next : String} {w : Value} {resolved found : Option Entries}
    (hLeads : LeadsInPlace (.map document) ref next) (hDistinct : ref ≠ next)
    (hNamed : referent (.map document) next = .ok w) (hw : w ≠ .null)
    (hSteady : Steady document next)
    (hRef : outcome (.map document) (ofRef ref) {} = .ok resolved)
    (hNext : outcome (.map document) (ofRef next) {} = .ok found) :
    (schemaValue found).depth < (schemaValue resolved).depth := by
  obtain ⟨v, hv, hPlain, hShows⟩ := hLeads
  -- `resolved` was made from `v` in a session where only `ref` is active, ...
  have hNotNull : v ≠ .null := by
    rintro rfl
    exact not_shows_null hShows
  obtain ⟨log, hFresh⟩ := resolve_ofRef_fresh hv hNotNull
  rw [outcome, hFresh, closing_fst] at hRef
  cases hRun : (resolve (.map document) v).on { log := log, active := [ref] } with
  | mk out t =>
    rw [hRun] at hRef
    dsimp only at hRef
    subst hRef
    -- ... so that `next` was expanded or remembered on the way, and its expansion stands in it
    have hNew : next ∉ [ref] := by simpa using hDistinct.symm
    obtain ⟨y, hLookup, -, hDepth⟩ := remembered_of_shows hShows hNamed hw hNew hRun
    -- the session that resolving `ref` leaves remembers `y` for `next`
    have hAfter : sessionAfter document [.resolve (ofRef ref)] =
        { t with active := t.active.drop 1, resolved := (ref, resolved) :: t.resolved } := by
      rw [sessionAfter, List.foldl_cons, List.foldl_nil, serve, on_discard, hFresh, hRun]
      rfl
    have hIdle : next ∉ (sessionAfter document [.resolve (ofRef ref)]).active := by
      rw [(soundAt_sessionAfter document _).1]
      exact List.not_mem_nil
    have hRemembered :
        (sessionAfter document [.resolve (ofRef ref)]).resolved.lookup next = some y := by
      rw [hAfter, List.lookup_cons, beq_false_of_ne hDistinct.symm]
      exact hLookup
    -- and steadiness makes `y` what a fresh resolver finds
    have hSame := hSteady [.resolve (ofRef ref)]
    rw [hNext, outcome, resolve_ofRef, followWith_of_remembered hIdle hRemembered] at hSame
    cases hSame
    exact hDepth hPlain

/-- Along a chain of references that resolve the same after any calls, expansions get shallower
with every new reference. -/
theorem eq_or_depth_lt
    (hResolves : ∀ other, ReachesInPlace (.map document) ref other → Resolves document other)
    (hSteady : ∀ other, ReachesInPlace (.map document) ref other → Steady document other)
    {other : String} (hReaches : ReachesInPlace (.map document) ref other)
    (hOn : ∃ next, LeadsInPlace (.map document) other next) {resolved found : Option Entries}
    (hRef : outcome (.map document) (ofRef ref) {} = .ok resolved)
    (hOther : outcome (.map document) (ofRef other) {} = .ok found) :
    ref = other ∨ (schemaValue found).depth < (schemaValue resolved).depth := by
  induction hReaches generalizing found with
  | refl => exact Or.inl rfl
  | @tail mid other hMid hStep ih =>
    obtain ⟨between, hBetween⟩ := hResolves mid hMid
    have hBefore := ih ⟨other, hStep⟩ hBetween
    by_cases hEq : mid = other
    · -- a reference that leads to itself changes nothing
      subst hEq
      rw [hBetween] at hOther
      cases hOther
      exact hBefore
    · obtain ⟨next, w, hNamed, -, hShows⟩ := hOn
      have hw : w ≠ .null := by
        rintro rfl
        exact not_shows_null hShows
      have hLt := depth_lt_of_leads hStep hEq hNamed hw (hSteady other (hMid.tail hStep))
        hBetween hOther
      right
      rcases hBefore with rfl | hBefore
      · rw [hRef] at hBetween
        cases hBetween
        exact hLt
      · exact Nat.lt_trans hLt hBefore

/-- **Two different references that lead to each other in place are not both steady**, nor are all
those between them: their expansions would contain each other. -/
theorem exists_not_steady {other : String} (hDistinct : ref ≠ other)
    (hTo : ReachesInPlace (.map document) ref other)
    (hBack : ReachesInPlace (.map document) other ref)
    (hResolves : ∀ r, ReachesInPlace (.map document) ref r → Resolves document r) :
    ∃ r, ReachesInPlace (.map document) ref r ∧ ¬ Steady document r := by
  by_contra hAll
  have hSteady : ∀ r, ReachesInPlace (.map document) ref r → Steady document r :=
    fun r hr => by_contra fun h => hAll ⟨r, hr, h⟩
  have hOn : ∀ {a b}, ReachesInPlace (.map document) a b → a ≠ b →
      ∃ next, LeadsInPlace (.map document) a next :=
    fun hReaches hNe => (Relation.ReflTransGen.cases_head hReaches).elim (fun h => absurd h hNe)
      fun ⟨next, hStep, _⟩ => ⟨next, hStep⟩
  -- each of the two expansions is deeper than the other
  obtain ⟨x, hx⟩ := hResolves ref .refl
  obtain ⟨y, hy⟩ := hResolves other hTo
  have hDown := eq_or_depth_lt hResolves hSteady hTo (hOn hBack hDistinct.symm) hx hy
  have hUp := eq_or_depth_lt (fun r h => hResolves r (hTo.trans h))
    (fun r h => hSteady r (hTo.trans h)) hBack (hOn hTo hDistinct) hy hx
  have hLt := hDown.resolve_left hDistinct
  have hLt' := hUp.resolve_left hDistinct.symm
  exact absurd (Nat.lt_trans hLt hLt') (Nat.lt_irrefl _)

/-- The schema that a reference names is written out: it is no reference, and what it mentions it
shows. -/
def WrittenOut (document : Entries) (ref : String) : Prop :=
  ∀ w, referent (.map document) ref = .ok w → w.ref? = none ∧ ∀ next, w.Mentions next → w.Shows next

theorem reachesInPlace_of_writtenOut
    (hWritten : ∀ r, Reaches (.map document) ref r → WrittenOut document r) {other : String}
    (h : Reaches (.map document) ref other) : ReachesInPlace (.map document) ref other := by
  induction h with
  | refl => exact .refl
  | tail hMid hStep ih =>
    obtain ⟨w, hNamed, hMentions⟩ := hStep
    obtain ⟨hPlain, hShows⟩ := hWritten _ hMid w hNamed
    exact ih.tail ⟨w, hNamed, hPlain, hShows _ hMentions⟩

theorem reaches_of_reachesInPlace {other : String}
    (h : ReachesInPlace (.map document) ref other) : Reaches (.map document) ref other :=
  Relation.ReflTransGen.mono (fun _ _ ⟨w, hNamed, _, hShows⟩ => ⟨w, hNamed, hShows.mentions⟩) _ _ h

/-- Where schemas are written out, the references that are steady are the untangled ones. -/
theorem steady_iff_untangled
    (hWritten : ∀ r, Reaches (.map document) ref r → WrittenOut document r ∧ Resolves document r) :
    (∀ r, Reaches (.map document) ref r → Steady document r) ↔
      Untangled (.map document) (ofRef ref) := by
  constructor
  · intro hSteady r hr other hTo hBack
    rw [meets_ofRef] at hr
    by_contra hDistinct
    have hOut : ∀ {a b}, Reaches (.map document) ref a → Reaches (.map document) a b →
        ReachesInPlace (.map document) a b :=
      fun ha => reachesInPlace_of_writtenOut fun c hc => (hWritten c (ha.trans hc)).1
    obtain ⟨c, hc, hNot⟩ := exists_not_steady hDistinct (hOut hr hTo) (hOut (hr.trans hTo) hBack)
      fun c hc => (hWritten c (hr.trans (reaches_of_reachesInPlace hc))).2
    exact hNot (hSteady c (hr.trans (reaches_of_reachesInPlace hc)))
  · intro h r hReaches
    exact outcome_after (h.mono fun u hu => meets_ofRef.mpr (hReaches.trans (meets_ofRef.mp hu)))

end

end Resolver

/-- **Earlier calls do not matter for untangled schemas, and this is the limit.** A schema that
meets no two references that lead to each other is resolved as by a fresh resolver, whatever calls
came before. Two references that lead to each other in place are not, or one between them is not.
Where the schemas are written out, in place is everywhere, so that exactly the untangled references
are resolved the same after any calls. -/
theorem earlier_calls (document : Entries) :
    (∀ schema, Untangled (.map document) schema → ∀ calls,
      outcome (.map document) schema (sessionAfter document calls) =
        outcome (.map document) schema {}) ∧
    (∀ ref other, ref ≠ other → ReachesInPlace (.map document) ref other →
      ReachesInPlace (.map document) other ref →
      (∀ r, ReachesInPlace (.map document) ref r → Resolves document r) →
      ∃ r, ReachesInPlace (.map document) ref r ∧ ∃ calls,
        outcome (.map document) (ofRef r) (sessionAfter document calls) ≠
          outcome (.map document) (ofRef r) {}) ∧
    ∀ ref, (∀ r, Reaches (.map document) ref r → WrittenOut document r ∧ Resolves document r) →
      ((∀ r, Reaches (.map document) ref r → ∀ calls,
        outcome (.map document) (ofRef r) (sessionAfter document calls) =
          outcome (.map document) (ofRef r) {}) ↔ Untangled (.map document) (ofRef ref)) := by
  refine ⟨fun schema h calls => outcome_after h calls, ?_, fun ref hWritten => ?_⟩
  · intro ref other hDistinct hTo hBack hResolves
    obtain ⟨r, hr, hNot⟩ := exists_not_steady hDistinct hTo hBack hResolves
    exact ⟨r, hr, not_forall.mp hNot⟩
  · exact steady_iff_untangled hWritten

/-- Two schemas that are properties of each other. -/
def mutualSchemas : Entries :=
  [(.str "components", .object [("schemas", .object [
    ("A", .object [("properties", .object [("b", ofRef "#/components/schemas/B")])]),
    ("B", .object [("properties", .object [("a", ofRef "#/components/schemas/A")])])])])]

theorem mutualSchemas_reaches {ref : String}
    (h : ReachesInPlace (.map mutualSchemas) "#/components/schemas/A" ref) :
    ref = "#/components/schemas/A" ∨ ref = "#/components/schemas/B" := by
  induction h with
  | refl => exact Or.inl rfl
  | tail _ hStep ih =>
    obtain ⟨w, hNamed, -, hShows⟩ := hStep
    have hMentions := mentions_iff.mp hShows.mentions
    rcases ih with rfl | rfl
    · cases hNamed
      rcases hMentions with hSelf | ⟨p, hPart, hMentions⟩
      · cases hSelf
      · obtain rfl : p = ofRef "#/components/schemas/B" := List.mem_singleton.mp hPart
        exact Or.inr (mentions_ofRef.mp hMentions)
    · cases hNamed
      rcases hMentions with hSelf | ⟨p, hPart, hMentions⟩
      · cases hSelf
      · obtain rfl : p = ofRef "#/components/schemas/A" := List.mem_singleton.mp hPart
        exact Or.inl (mentions_ofRef.mp hMentions)

theorem earlier_calls_mutualSchemas :
    ∃ r, ReachesInPlace (.map mutualSchemas) "#/components/schemas/A" r ∧ ∃ calls,
      outcome (.map mutualSchemas) (ofRef r) (sessionAfter mutualSchemas calls) ≠
        outcome (.map mutualSchemas) (ofRef r) {} := by
  refine (earlier_calls mutualSchemas).2.1 "#/components/schemas/A" "#/components/schemas/B"
    (by decide) (.single ⟨_, rfl, rfl, ?_⟩) (.single ⟨_, rfl, rfl, ?_⟩) fun r hr => ?_
  · exact .part (by decide) (List.mem_singleton.mpr rfl) (.self rfl)
  · exact .part (by decide) (List.mem_singleton.mpr rfl) (.self rfl)
  · rcases mutualSchemas_reaches hr with rfl | rfl
    · exact ⟨_, rfl⟩
    · exact ⟨_, rfl⟩

/-- A schema that is a choice whose member extends it. -/
def extendedChoice : Entries :=
  [(.str "components", .object [("schemas", .object [
    ("Parent", .object [("oneOf", .list [ofRef "#/components/schemas/Child"])]),
    ("Child", .object [("allOf", .list [ofRef "#/components/schemas/Parent",
      .object [("properties", .object [("name", .object [("type", .str "string")])])]])])])])]

/-- Once the member has been resolved, the choice is its own placeholder. -/
theorem earlier_calls_extendedChoice :
    outcome (.map extendedChoice) (ofRef "#/components/schemas/Parent")
        (sessionAfter extendedChoice [.resolve (ofRef "#/components/schemas/Child")]) ≠
      outcome (.map extendedChoice) (ofRef "#/components/schemas/Parent") {} := by
  intro h
  -- only the placeholder has the mark
  have hMark := congrArg (fun out => out.toOption.join.map (Entries.has · circularKey)) h
  revert hMark
  decide +kernel

end IntegrationCompiler
