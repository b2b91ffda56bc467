import IntegrationCompiler.Proofs.Reference.Chains
import IntegrationCompiler.Proofs.Reference.Tangles
import IntegrationCompiler.Proofs.Value.Updates

/-!
# What a resolver remembers

Between two calls no reference is active, and what a resolver remembers is written once: calls add to
it, and never change or drop what is there. So a reference that has been resolved is resolved to the
same schema ever after, even where it depends on earlier calls what that schema is.

* `Resolver.WrittenOnce` — a memory that came from another one by adding references that were not
  remembered yet, each of which names something;
* `Resolver.resolve_writtenOnce` — resolving adds to the memory in this way, also when it fails;
* `Resolver.Settled` — what a reference stands for, once and for all;
* `Resolver.Finds` — a call resolves a reference itself, not as a part of another schema;
* `Resolver.finds_settled` — what is found is settled; `Resolver.calls_settle` puts this together.
-/

namespace IntegrationCompiler

open Resolving Value

namespace Resolver

/-! ## Memories -/

/-- What was remembered is remembered as it was, behind what was added; no reference is remembered
twice, and each that is remembered names something. -/
structure WrittenOnce (document : Value) (old new : List (String × Option Entries)) : Prop where
  suffix : old <:+ new
  nodup : (new.map Prod.fst).Nodup
  named : ∀ e ∈ new, ∃ w, referent document e.1 = .ok w ∧ w ≠ .null

theorem not_mem_keys_of_lookup_eq_none {memory : List (String × Option Entries)} {ref : String}
    (h : memory.lookup ref = none) : ref ∉ memory.map Prod.fst := by
  intro hMem
  obtain ⟨e, he, hKey⟩ := List.mem_map.mp hMem
  have hOther : (ref == e.1) = false := by
    have hAll := List.lookup_eq_none_iff.mp h
    simpa using hAll e he
  rw [hKey] at hOther
  simp at hOther

/-- While a reference is active, it is not written into the memory. -/
theorem resolve_skips_active {document v : Value} {ref : String} {s : Session}
    (hActive : ref ∈ s.active) (h : s.resolved.lookup ref = none) :
    ((resolve document v).on s).2.resolved.lookup ref = none := by
  refine @resolved_invariant document (fun call => ref ∈ call.active) ?_
    (fun memory => memory.lookup ref = none) ?_ ⟨s.active, v⟩ hActive s rfl h
  · -- a call that is opened has the references active that were active, and at most one more
    intro inner outer hOpens hMem
    cases hOpens with
    | part => exact hMem
    | target => exact List.mem_cons_of_mem _ hMem
  · intro call hMem new _ hNew w _ _ s' _ _ _ found t _ ht
    have hOther : ref ≠ new := by
      rintro rfl
      exact hNew hMem
    rw [List.lookup_cons, beq_false_of_ne hOther]
    exact ht

/-- **Resolving writes each reference once**, whether or not it fails. -/
theorem resolve_writtenOnce {document : Value} {old : List (String × Option Entries)} (v : Value)
    {s : Session} (h : WrittenOnce document old s.resolved) :
    WrittenOnce document old ((resolve document v).on s).2.resolved := by
  refine @resolved_invariant document (fun _ => True) (fun _ _ _ _ => trivial)
    (WrittenOnce document old) ?_ ⟨s.active, v⟩ trivial s rfl h
  intro call _ ref _ hNew w hNamed hw s' hActive _ hNone found t hRun ht
  -- it was not remembered when it was entered, and was active from then on
  have hStill : t.resolved.lookup ref = none := by
    have hMem : ref ∈ s'.active := by
      rw [hActive]
      exact List.mem_cons_self
    have hSkipped : ((resolve document w).on s').2.resolved.lookup ref = none :=
      resolve_skips_active hMem hNone
    rw [hRun] at hSkipped
    exact hSkipped
  constructor
  case suffix => exact ht.suffix.trans (List.suffix_cons _ _)
  case nodup =>
    rw [List.map_cons]
    exact List.nodup_cons.mpr ⟨not_mem_keys_of_lookup_eq_none hStill, ht.nodup⟩
  case named =>
    intro e he
    rcases List.mem_cons.mp he with rfl | he
    · exact ⟨w, hNamed, hw⟩
    · exact ht.named e he

/-! ## Sessions between calls -/

/-- The session after some more calls. -/
def sessionFrom (document : Entries) (s : Session) (calls : List ResolverCall) : Session :=
  calls.foldl (fun s call => ((serve document call).on s).2) s

section

variable {document : Entries}

theorem sessionAfter_append (earlier later : List ResolverCall) :
    sessionAfter document (earlier ++ later) =
      sessionFrom document (sessionAfter document earlier) later := by
  rw [sessionAfter, List.foldl_append]
  rfl

theorem sessionAfter_append_cons (earlier later : List ResolverCall) (call : ResolverCall) :
    sessionAfter document (earlier ++ call :: later) =
      sessionFrom document ((serve document call).on (sessionAfter document earlier)).2 later := by
  rw [sessionAfter_append]
  rfl

/-- What resolving keeps, any more calls keep. -/
theorem sessionFrom_keeps {I : Session → Prop} (hI : LogFree I)
    (hResolve : ∀ v, Ensures I (fun _ => True) (resolve (.map document) v)) {s : Session} (hs : I s)
    (calls : List ResolverCall) : I (sessionFrom document s calls) := by
  induction calls generalizing s with
  | nil => exact hs
  | cons call rest ih =>
    have hCall := (serve_keeps hI hResolve call s hs).2
    exact ih hCall

/-- What is remembered stays remembered. -/
theorem serve_later (call : ResolverCall) (s : Session) :
    Later s ((serve document call).on s).2 := by
  have hLog : LogFree (Later s) := fun t log h => ⟨h.active, h.lookup⟩
  have hResolve : ∀ v, Ensures (Later s) (fun _ => True) (resolve (.map document) v) :=
    fun v => (resolve_grows (.map document) v).ensures s
  exact (serve_keeps hLog hResolve call s (.refl s)).2

theorem sessionFrom_later (s : Session) (calls : List ResolverCall) :
    Later s (sessionFrom document s calls) := by
  induction calls generalizing s with
  | nil => exact .refl s
  | cons call rest ih => exact (serve_later call s).trans (ih _)

theorem sessionFrom_writtenOnce {old : List (String × Option Entries)} {s : Session}
    (hs : WrittenOnce (.map document) old s.resolved) (calls : List ResolverCall) :
    WrittenOnce (.map document) old (sessionFrom document s calls).resolved := by
  refine sessionFrom_keeps (I := fun s => WrittenOnce (.map document) old s.resolved)
    (fun _ _ h => h) (fun v s hs => ?_) hs calls
  exact ⟨fun _ _ => trivial, resolve_writtenOnce v hs⟩

theorem sessionAfter_writtenOnce (calls : List ResolverCall) :
    WrittenOnce (.map document) [] (sessionAfter document calls).resolved := by
  have hEmpty : WrittenOnce (.map document) [] [] :=
    ⟨List.suffix_refl [], List.nodup_nil, by simp⟩
  exact sessionFrom_writtenOnce (s := {}) hEmpty calls

theorem sessionAfter_active (calls : List ResolverCall) :
    (sessionAfter document calls).active = [] :=
  (soundAt_sessionAfter document calls).1

end

/-! ## What is settled -/

/-- What a reference stands for is settled: it is remembered, or the reference names nothing, or it
is no text. -/
inductive Settled (document : Value) (s : Session) : Value → Option Entries → Prop where
  | remembered {ref : String} {found : Option Entries} : s.resolved.lookup ref = some found →
    Settled document s (.str ref) found
  | nothing {ref : String} : referent document ref = .ok .null → Settled document s (.str ref) none
  | unsupported {key : Scalar} : (∀ ref, key ≠ .str ref) → Settled document s (.scalar key) none

section

variable {document r : Value} {s t : Session} {found : Option Entries}

theorem Settled.later (h : Settled document s r found) (hLater : Later s t) :
    Settled document t r found := by
  cases h with
  | remembered hLookup => exact .remembered (hLater.lookup _ _ hLookup)
  | nothing hNull => exact .nothing hNull
  | unsupported hKey => exact .unsupported hKey

/-- What is remembered names something, so that there is one thing that a reference stands for. -/
theorem Settled.unique {old : List (String × Option Entries)} {found' : Option Entries}
    (hMemory : WrittenOnce document old s.resolved) (h : Settled document s r found)
    (h' : Settled document s r found') : found = found' := by
  have hNamed : ∀ ref found, s.resolved.lookup ref = some found →
      referent document ref ≠ .ok .null := by
    intro ref found hLookup hNull
    obtain ⟨before, after, hSplit, -⟩ := List.lookup_eq_some_iff.mp hLookup
    obtain ⟨w, hw, hNot⟩ := hMemory.named (ref, found) (by rw [hSplit]; simp)
    rw [hNull] at hw
    exact hNot (Except.ok.inj hw).symm
  cases h with
  | remembered hLookup =>
    cases h' with
    | remembered hLookup' => exact Option.some.inj (hLookup.symm.trans hLookup')
    | nothing hNull => exact absurd hNull (hNamed _ _ hLookup)
    | unsupported hKey => exact absurd rfl (hKey _)
  | nothing hNull =>
    cases h' with
    | remembered hLookup => exact absurd hNull (hNamed _ _ hLookup)
    | nothing => rfl
    | unsupported => rfl
  | unsupported hKey =>
    cases h' with
    | remembered => exact absurd rfl (hKey _)
    | nothing => rfl
    | unsupported => rfl

/-- Following a reference between two calls settles it. -/
theorem followWith_settles_ref {ref : String} (hActive : s.active = [])
    (h : (followWith document (resolve document) ref).on s = (.ok found, t)) :
    Settled document t (.str ref) found := by
  have hIdle : ref ∉ s.active := by simp [hActive]
  cases following document ref s with
  | active hMem _ => exact absurd hMem hIdle
  | remembered resolved _ hResolved hRun =>
    rw [hRun] at h
    cases h
    exact .remembered hResolved
  | nowhere log _ hNull hRun =>
    rw [hRun] at h
    cases hReferent : referent document ref with
    | error e =>
      rw [hReferent] at h
      cases h
    | ok w =>
      have hw := hNull w hReferent
      subst hw
      rw [hReferent] at h
      cases h
      exact .nothing hReferent
  | target w log _ _ hReferent hw _ =>
    exact .remembered (followWith_remembers hReferent hw hIdle h)

/-- Resolving a reference between two calls settles it. -/
theorem resolve_settles_ref {schema : Entries} (hRef : Entries.get? schema "$ref" = some r)
    (hActive : s.active = []) (h : (resolve document (.map schema)).on s = (.ok found, t)) :
    Settled document t r found := by
  rw [resolve_eq, resolveStep, expandWith_of_reference hRef] at h
  cases r with
  | scalar key =>
    cases key with
    | str ref => exact followWith_settles_ref hActive h
    | _ =>
      -- what is no text is not followed, wherever it stands
      cases h
      exact .unsupported (by simp)
  | _ => cases h

end

/-! ## The named schemas -/

/-- One step of collecting the named schemas: the schema of a name is added, if there is one. -/
def collectStep (follow : String → Resolving (Option Entries)) (acc : Entries) (name : Value) :
    Resolving Entries := do
  match name with
  | .str s =>
    match ← follow (componentRef s) with
    | some schema => pure (Entries.set acc s (.map schema))
    | none => pure acc
  | _ => throw .malformed

theorem collectSchemas_eq (follow : String → Resolving (Option Entries)) (document : Entries) :
    collectSchemas follow document = (do
      let names ← componentNames document
      names.foldlM (collectStep follow) []) := rfl

/-- Reading the names of the schemas leaves the session as it is. -/
theorem componentNames_on (document : Entries) (s : Session) :
    (componentNames document).on s = (((componentNames document).on {}).1, s) := by
  unfold componentNames
  cases Entries.get? document "components" with
  | none => rfl
  | some v =>
    cases v with
    | map components =>
      simp only [pure_bind]
      cases Entries.get? components "schemas" with
      | none => rfl
      | some raw =>
        dsimp only
        cases raw.walk? with
        | none => rfl
        | some names => rfl
    | _ => rfl

/-- The schema that is collected under a name. -/
def collected (es : Entries) (name : String) : Option Entries :=
  (Entries.get? es name).bind Value.entries?

/-- What has been collected so far is settled. -/
def Gathered (document : Value) (s : Session) (es : Entries) : Prop :=
  ∀ name v, Entries.get? es name = some v →
    ∃ schema, v = .map schema ∧ Settled document s (.str (componentRef name)) (some schema)

section

variable {document : Value} {s t : Session} {acc es : Entries}

theorem Gathered.later (h : Gathered document s es) (hLater : Later s t) : Gathered document t es := by
  intro name v hGet
  obtain ⟨schema, hSchema, hSettled⟩ := h name v hGet
  exact ⟨schema, hSchema, hSettled.later hLater⟩

theorem Gathered.set {name : String} {schema : Entries} (h : Gathered document s es)
    (hSettled : Settled document s (.str (componentRef name)) (some schema)) :
    Gathered document s (Entries.set es name (.map schema)) := by
  intro other v hGet
  rw [Entries.get?_set] at hGet
  split at hGet
  · next hSame =>
    subst hSame
    cases hGet
    exact ⟨schema, rfl, hSettled⟩
  · exact h other v hGet

/-- One step settles the reference to its name, and keeps what is settled. -/
theorem collectStep_settles {name : String} (hActive : s.active = [])
    (hAcc : Gathered document s acc)
    (h : (collectStep (fun ref => resolve document (ofRef ref)) acc (.str name)).on s =
      (.ok es, t)) :
    Later s t ∧ Gathered document t es ∧
      (∀ other, (Entries.get? acc other).isSome → (Entries.get? es other).isSome) ∧
      ∃ found, Settled document t (.str (componentRef name)) found ∧
        (found.isSome → (Entries.get? es name).isSome) := by
  obtain ⟨found, s', hFollow, hRest⟩ := on_bind_eq_ok h
  have hLater : Later s s' := by
    have hGrows := resolve_grows document (ofRef (componentRef name)) s
    rw [hFollow] at hGrows
    exact hGrows
  have hSettled : Settled document s' (.str (componentRef name)) found :=
    resolve_settles_ref rfl hActive hFollow
  cases found with
  | none =>
    cases hRest
    exact ⟨hLater, hAcc.later hLater, fun _ h => h, none, hSettled, by simp⟩
  | some schema =>
    cases hRest
    refine ⟨hLater, (hAcc.later hLater).set hSettled, fun other hOther => ?_, some schema,
      hSettled, fun _ => ?_⟩
    · rw [Entries.get?_set]
      split
      · rfl
      · exact hOther
    · rw [Entries.get?_set, if_pos rfl]
      rfl

/-- **Collecting settles the reference to every name**, and what is collected is what is settled. -/
theorem collect_settles {names : List Value} (hActive : s.active = [])
    (hAcc : Gathered document s acc)
    (h : (names.foldlM (collectStep fun ref => resolve document (ofRef ref)) acc).on s =
      (.ok es, t)) :
    Later s t ∧ Gathered document t es ∧
      (∀ other, (Entries.get? acc other).isSome → (Entries.get? es other).isSome) ∧
      ∀ name, .str name ∈ names → ∃ found,
        Settled document t (.str (componentRef name)) found ∧
          (found.isSome → (Entries.get? es name).isSome) := by
  induction names generalizing acc s with
  | nil =>
    cases h
    exact ⟨.refl _, hAcc, fun _ h => h, fun _ hMem => nomatch hMem⟩
  | cons first rest ih =>
    rw [List.foldlM_cons] at h
    obtain ⟨acc', s', hFirst, hRest⟩ := on_bind_eq_ok h
    cases first with
    | scalar key =>
      cases key with
      | str name =>
        obtain ⟨hLater, hAcc', hKept, hName⟩ := collectStep_settles hActive hAcc hFirst
        have hActive' : s'.active = [] := by rw [hLater.active, hActive]
        obtain ⟨hLater', hEnd, hKept', hNames⟩ := ih hActive' hAcc' hRest
        refine ⟨hLater.trans hLater', hEnd, fun other hOther => hKept' other (hKept other hOther),
          fun other hMem => ?_⟩
        rcases List.mem_cons.mp hMem with hSame | hMem
        · -- settled by the first step, and kept by the others
          cases hSame
          obtain ⟨found, hSettled, hFound⟩ := hName
          exact ⟨found, hSettled.later hLater', fun hSome => hKept' name (hFound hSome)⟩
        · exact hNames other hMem
      | _ => cases hFirst
    | _ => cases hFirst

/-- The reference to a name stands for what is collected under the name. -/
theorem Gathered.settled {name : String} {found : Option Entries} (h : Gathered document t es)
    (hSettled : Settled document t (.str (componentRef name)) found)
    (hFound : found.isSome → (Entries.get? es name).isSome) :
    Settled document t (.str (componentRef name)) (collected es name) := by
  unfold collected
  cases hGet : Entries.get? es name with
  | some v =>
    obtain ⟨schema, rfl, hSchema⟩ := h name v hGet
    exact hSchema
  | none =>
    have hNone : found = none := by
      rw [hGet] at hFound
      simpa using hFound
    rw [hNone] at hSettled
    exact hSettled

end

/-! ## What calls find -/

/-- A call that is made in a session resolves a reference itself, and finds what it stands for: it is
asked to resolve an object that is this reference, or all the named schemas, one of which the
reference is to. -/
inductive Finds (document : Entries) (s : Session) : ResolverCall → Value → Option Entries → Prop where
  | resolve {schema : Entries} {r : Value} {found : Option Entries} :
    Entries.get? schema "$ref" = some r →
    outcome (.map document) (.map schema) s = .ok found →
    Finds document s (.resolve (.map schema)) r found
  | named {names : List Value} {es : Entries} {name : String} :
    ((componentNames document).on s).1 = .ok names → .str name ∈ names →
    ((componentSchemas document).on s).1 = .ok es →
    Finds document s .componentSchemas (.str (componentRef name)) (collected es name)

/-- What a call finds between others, it settles. -/
theorem finds_settled {document : Entries} {s : Session} {call : ResolverCall} {r : Value}
    {found : Option Entries} (hActive : s.active = []) (h : Finds document s call r found) :
    Settled (.map document) ((serve document call).on s).2 r found := by
  cases h with
  | @resolve schema _ _ hRef hOutcome =>
    rw [serve, on_discard]
    exact resolve_settles_ref hRef hActive (Prod.ext hOutcome rfl)
  | @named names es name hNames hMem hSchemas =>
    rw [serve, on_discard]
    rw [componentSchemas_eq, collectSchemas_eq] at hSchemas ⊢
    obtain ⟨names', s', hFirst, hLoop⟩ := on_bind_eq_ok (Prod.ext hSchemas rfl)
    rw [componentNames_on] at hFirst hNames
    rw [hNames] at hFirst
    cases hFirst
    have hNothing : Gathered (.map document) s [] := by
      intro name v hGet
      cases hGet
    obtain ⟨-, hGathered, -, hAll⟩ := collect_settles hActive hNothing hLoop
    obtain ⟨found, hSettled, hFound⟩ := hAll name hMem
    exact hGathered.settled hSettled hFound

/-- **What is remembered is written once, and a reference that was resolved is settled.** Whatever
calls a resolver has served, failed ones among them: no reference is active any more; no reference was
remembered twice; more calls change nothing of what is remembered, and only add to it; and two calls
that resolve the same reference find the same, whatever calls were made in between. -/
theorem calls_settle (document : Entries) (earlier : List ResolverCall) :
    (sessionAfter document earlier).active = [] ∧
    ((sessionAfter document earlier).resolved.map Prod.fst).Nodup ∧
    (∀ later, (sessionAfter document earlier).resolved <:+
        (sessionAfter document (earlier ++ later)).resolved ∧
      ∀ ref found, (sessionAfter document earlier).resolved.lookup ref = some found →
        (sessionAfter document (earlier ++ later)).resolved.lookup ref = some found) ∧
    ∀ r call between call' found found',
      Finds document (sessionAfter document earlier) call r found →
      Finds document (sessionAfter document (earlier ++ call :: between)) call' r found' →
      found = found' := by
  have hMemory : WrittenOnce (.map document) [] (sessionAfter document earlier).resolved :=
    sessionAfter_writtenOnce earlier
  refine ⟨sessionAfter_active earlier, hMemory.nodup, fun later => ⟨?_, fun ref found h => ?_⟩, ?_⟩
  · rw [sessionAfter_append]
    have hSelf : WrittenOnce (.map document) (sessionAfter document earlier).resolved
        (sessionAfter document earlier).resolved :=
      ⟨List.suffix_refl _, hMemory.nodup, hMemory.named⟩
    exact (sessionFrom_writtenOnce hSelf later).suffix
  · rw [sessionAfter_append]
    exact (sessionFrom_later _ later).lookup ref found h
  · intro r call between call' found found' hFirst hSecond
    -- Both are settled when the second call has ended, and then they are the same.
    have hSettled := finds_settled (sessionAfter_active earlier) hFirst
    have hSettled' := finds_settled (sessionAfter_active _) hSecond
    have hBetween : Later ((serve document call).on (sessionAfter document earlier)).2
        (sessionAfter document (earlier ++ call :: between)) := by
      rw [sessionAfter_append_cons]
      exact sessionFrom_later _ between
    have hEnd : Later (sessionAfter document (earlier ++ call :: between))
        ((serve document call').on (sessionAfter document (earlier ++ call :: between))).2 :=
      serve_later call' _
    have hBoth := (hSettled.later hBetween).later hEnd
    have hOnce : WrittenOnce (.map document) []
        ((serve document call').on (sessionAfter document (earlier ++ call :: between))).2.resolved :=
      sessionFrom_writtenOnce (sessionAfter_writtenOnce _) [call']
    exact hBoth.unique hOnce hSettled'

/-- Of two schemas that lead to each other, the one that is resolved second keeps the other one's
placeholder, also when all schemas are resolved. -/
theorem calls_settle_mutualSchemas : ∃ found es,
    outcome (.map mutualSchemas) (ofRef "#/components/schemas/A")
        (sessionAfter mutualSchemas [.resolve (ofRef "#/components/schemas/B")]) = .ok found ∧
      ((componentSchemas mutualSchemas).on (sessionAfter mutualSchemas
        [.resolve (ofRef "#/components/schemas/B"), .resolve (ofRef "#/components/schemas/A"),
          .deref (ofRef "#/components/schemas/A")])).1 = .ok es ∧
      collected es "A" = found := by
  refine ⟨_, _, rfl, rfl, ?_⟩
  -- the second call is made after both references were followed once more
  have hSettled := (calls_settle mutualSchemas [.resolve (ofRef "#/components/schemas/B")]).2.2.2
    (.str "#/components/schemas/A") (.resolve (ofRef "#/components/schemas/A"))
    [.deref (ofRef "#/components/schemas/A")] .componentSchemas
  have hRef : componentRef "A" = "#/components/schemas/A" := by decide +kernel
  refine (hSettled _ _ (.resolve rfl rfl) ?_).symm
  have hNames : ((componentNames mutualSchemas).on {}).1 = .ok [.str "A", .str "B"] := rfl
  rw [← hRef]
  exact .named hNames List.mem_cons_self rfl

end Resolver

end IntegrationCompiler
