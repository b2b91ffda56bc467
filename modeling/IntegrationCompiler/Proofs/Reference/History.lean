import IntegrationCompiler.Proofs.Reference.Graph
import IntegrationCompiler.Proofs.Reference.Termination

/-!
# What earlier calls leave behind

A resolver remembers the expansions that it has completed, and what it remembers was expanded while
other references were active. For a reference that is not tangled up with another one this makes no
difference: its expansion is the one that a fresh resolver finds.

* `ResolverCall`, `Resolver.sessionAfter` — the calls that a resolver serves, and the session that
  they leave, whether or not they failed;
* `Resolver.Sound` — what is remembered of the untangled references is what a fresh resolver finds;
* `Resolver.resolve_agrees` — from two sound sessions, an untangled schema has one expansion, also
  under different active references as long as it meets none of those that differ;
* `Resolver.resolve_keeps` — every schema leaves a sound session sound;
* `Resolver.outcome_after` — earlier calls do not change how an untangled schema is resolved.
-/

namespace IntegrationCompiler

open Resolving Value

namespace Resolver

/-! ## What holds of everything remembered -/

/-- **A property of what is remembered holds for ever if adding a complete expansion keeps it.** An
expansion is added for a reference that was idle and not remembered when it was entered; `C` holds
of the calls that can be made. -/
theorem resolved_invariant {document : Value} {C : Call → Prop}
    (hOpens : ∀ inner outer, Call.Opens document inner outer → C outer → C inner)
    {I : List (String × Option Entries) → Prop}
    (hAdd : ∀ call, C call → ∀ ref, call.schema.ref? = some ref → ref ∉ call.active →
      ∀ w, referent document ref = .ok w → w ≠ .null →
      ∀ s, s.active = ref :: call.active → I s.resolved → s.resolved.lookup ref = none →
      ∀ resolved t, (resolve document w).on s = (.ok resolved, t) → I t.resolved →
        I ((ref, resolved) :: t.resolved))
    (call : Call) (hCall : C call) {s : Session} (hActive : s.active = call.active)
    (hs : I s.resolved) : I ((resolve document call.schema).on s).2.resolved := by
  -- An invariant is a relation that every session has to itself only.
  suffices h : Agrees (fun s t => s = t ∧ s.active = call.active ∧ I s.resolved)
      (resolve document call.schema) (resolve document call.schema) from
    (h s s ⟨rfl, hActive, hs⟩).2.2.2
  clear hActive hs s
  induction call using (Call.opens_wellFounded document).induction with
  | _ call ih =>
    rw [resolve_eq]
    have hLog : IgnoresLog fun s t => s = t ∧ s.active = call.active ∧ I s.resolved := by
      rintro s _ remark ⟨rfl, h⟩
      exact ⟨rfl, h⟩
    refine expandWith_agrees hLog (fun ref hRef => ?_) fun p hp => ?_
    · rintro s _ ⟨rfl, hActive, hs⟩
      refine ⟨rfl, rfl, ?_⟩
      cases following document ref s with
      | active _ hRun | remembered _ _ _ hRun | nowhere _ _ _ hRun =>
        -- nothing is added
        rw [hRun]
        exact ⟨hActive, hs⟩
      | target w log hMem hResolved hReferent hw hFollow =>
        have hNew : ref ∉ call.active := hActive ▸ hMem
        have hOpen := Call.Opens.target hRef hNew hReferent hw
        have hStack : ref :: s.active = ref :: call.active := congrArg _ hActive
        obtain ⟨-, -, hEnd, hNext⟩ := ih _ hOpen (hOpens _ _ hOpen hCall)
          { s with log := log, active := ref :: s.active } _ ⟨rfl, hStack, hs⟩
        rw [hFollow]
        refine ⟨by rw [closing_active, hEnd, List.drop_one, List.tail_cons], ?_⟩
        -- a failed expansion adds nothing, a complete one is added last
        cases hRun : (resolve document w).on { s with log := log, active := ref :: s.active } with
        | mk out t =>
          rw [hRun] at hNext
          cases out with
          | error e => exact hNext
          | ok resolved =>
            exact hAdd call hCall ref hRef hNew w hReferent hw
              { s with log := log, active := ref :: s.active } hStack hs hResolved resolved t
              hRun hNext
    · exact ih ⟨call.active, p⟩ (.part hp) (hOpens _ _ (.part hp) hCall)

/-! ## Sound sessions -/

/-- What resolving a schema comes to in a session. -/
def outcome (document v : Value) (s : Session) : Except Failure (Option Entries) :=
  ((resolve document v).on s).1

/-- What is remembered of the untangled references is what a fresh resolver finds. -/
def Sound (document : Value) (s : Session) : Prop :=
  ∀ ref resolved, (ref, resolved) ∈ s.resolved → Untangled document (ofRef ref) →
    outcome document (ofRef ref) {} = .ok resolved

/-- A sound session in which the given references are active. -/
def SoundAt (document : Value) (active : List String) (s : Session) : Prop :=
  s.active = active ∧ Sound document s

theorem sound_of_empty (document : Value) {s : Session} (h : s.resolved = []) :
    Sound document s := by
  intro ref resolved hMem
  rw [h] at hMem
  nomatch hMem

section

variable {document w : Value} {ref : String} {active : List String}

/-- When the expansion of what a reference names ends, the session is sound if the expansion is the
one that a fresh resolver finds. -/
theorem soundAt_closing {ended : Except Failure (Option Entries) × Session}
    (hEnded : SoundAt document (ref :: active) ended.2)
    (hFresh : Untangled document (ofRef ref) → outcome document (ofRef ref) {} = ended.1) :
    SoundAt document active (closing ref ended).2 := by
  obtain ⟨out, t⟩ := ended
  obtain ⟨hActive, hSound⟩ := hEnded
  refine ⟨by rw [closing_active, hActive, List.drop_one, List.tail_cons], ?_⟩
  cases out with
  | error e => exact hSound
  | ok resolved =>
    intro other found hMem hUntangled
    rcases List.mem_cons.mp hMem with hEq | hMem
    · cases hEq
      exact hFresh hUntangled
    · exact hSound other found hMem hUntangled

/-- A fresh resolver expands the schema that a reference names, with only the reference active. -/
theorem resolve_ofRef_fresh (hReferent : referent document ref = .ok w) (hw : w ≠ .null) :
    ∃ log, (resolve document (ofRef ref)).on {} =
      closing ref ((resolve document w).on { log := log, active := [ref] }) := by
  cases following document ref {} with
  | active hMem _ => cases hMem
  | remembered _ _ hResolved _ => cases hResolved
  | nowhere _ _ hNull _ => exact absurd (hNull w hReferent) hw
  | target w' log _ _ hReferent' _ hRun =>
    rw [hReferent] at hReferent'
    cases hReferent'
    exact ⟨log, by rw [resolve_ofRef, hRun]⟩

theorem outcome_ofRef (hReferent : referent document ref = .ok w) (hw : w ≠ .null) :
    ∃ log, outcome document (ofRef ref) {} =
      outcome document w { log := log, active := [ref] } := by
  obtain ⟨log, hFresh⟩ := resolve_ofRef_fresh hReferent hw
  exact ⟨log, by rw [outcome, hFresh, closing_fst, ← outcome]⟩

/-- For a reference that leads nowhere, a fresh resolver finds no schema or fails. -/
theorem outcome_ofRef_nowhere (hNull : ∀ w, referent document ref = .ok w → w = .null) :
    outcome document (ofRef ref) {} = (referent document ref).map fun _ => none := by
  cases following document ref {} with
  | active hMem _ => cases hMem
  | remembered _ _ hResolved _ => cases hResolved
  | nowhere log _ _ hRun => rw [outcome, resolve_ofRef, hRun]
  | target w _ _ _ hReferent hw _ => exact absurd (hNull w hReferent) hw

/-! ## Untangled schemas -/

/-- Sound sessions on both sides. -/
def SoundPair (document : Value) (active active' : List String) (s t : Session) : Prop :=
  SoundAt document active s ∧ SoundAt document active' t

theorem soundPair_ignoresLog (active active' : List String) :
    IgnoresLog (SoundPair document active active') :=
  fun _ _ _ h => h

/-- An idle reference is resolved as by a fresh resolver, remembered or not, if what it names has
one expansion under these active references and under the reference alone. -/
theorem followWith_fresh (hNew : ref ∉ active)
    (hTarget : ∀ w, referent document ref = .ok w → w ≠ .null →
      ∀ s, SoundAt document (ref :: active) s →
        (∀ log, outcome document w s = outcome document w { log := log, active := [ref] }) ∧
          SoundAt document (ref :: active) ((resolve document w).on s).2)
    {s : Session} (hs : SoundAt document active s) (hUntangled : Untangled document (ofRef ref)) :
    ((followWith document (resolve document) ref).on s).1 = outcome document (ofRef ref) {} ∧
      SoundAt document active ((followWith document (resolve document) ref).on s).2 := by
  obtain ⟨rfl, hSound⟩ := hs
  cases following document ref s with
  | active hMem _ => exact absurd hMem hNew
  | remembered resolved _ hResolved hRun =>
    -- what is remembered is what a fresh resolver finds, by soundness
    obtain ⟨before, after, hMem, -⟩ := List.lookup_eq_some_iff.mp hResolved
    rw [hRun]
    exact ⟨(hSound ref resolved (by rw [hMem]; simp) hUntangled).symm, rfl, hSound⟩
  | nowhere log _ hNull hRun =>
    rw [hRun, outcome_ofRef_nowhere hNull]
    exact ⟨rfl, rfl, hSound⟩
  | target w log _ _ hReferent hw hRun =>
    -- what is expanded now is what a fresh resolver expands, with other references active
    obtain ⟨log', hFresh⟩ := outcome_ofRef hReferent hw
    obtain ⟨hOut, hNext⟩ := hTarget w hReferent hw
      { s with log := log, active := ref :: s.active } ⟨rfl, hSound⟩
    have hSame := hFresh.trans (hOut log').symm
    rw [hRun, closing_fst]
    exact ⟨hSame.symm, soundAt_closing hNext fun _ => hSame⟩

/-- What a reference names has one expansion under any active references that lead to it and under
the reference alone, if this holds for any two lists that agree on what it meets: it meets no active
reference but the one that it stands for. -/
theorem target_agrees {v : Value} (hUntangled : Untangled document v)
    (hStacked : Stacked document active v) (hRef : v.ref? = some ref)
    (hReferent : referent document ref = .ok w)
    (hTarget : ∀ other, (∀ u, Meets document w u → (u ∈ ref :: active ↔ u ∈ other)) →
      Agrees (SoundPair document (ref :: active) other) (resolve document w) (resolve document w))
    {active' : List String} (hSame : ∀ u, Meets document v u → (u ∈ active ↔ u ∈ active'))
    {s : Session} (hs : SoundAt document (ref :: active') s) :
    (∀ log, outcome document w s = outcome document w { log := log, active := [ref] }) ∧
      SoundAt document (ref :: active') ((resolve document w).on s).2 := by
  have hEmpty : ∀ log active, SoundAt document active { log := log, active := active } :=
    fun log active => ⟨rfl, sound_of_empty document rfl⟩
  have hStart := hEmpty [] (ref :: active)
  -- the run compared with one under `active`, ...
  have hHere := hTarget (ref :: active') fun u hu => by
    rw [List.mem_cons, List.mem_cons, hSame u (hu.target hRef hReferent)]
  -- ... and that one with a run under the reference alone
  have hAlone := hTarget [ref] fun u hu => by
    rw [List.mem_cons, List.mem_singleton]
    exact or_iff_left_of_imp fun hOuter =>
      hStacked.eq_of_meets hUntangled hRef hReferent hOuter hu
  refine ⟨fun log => ?_, (hHere _ s ⟨hStart, hs⟩).2.2⟩
  exact (hHere _ s ⟨hStart, hs⟩).1.symm.trans (hAlone _ _ ⟨hStart, hEmpty log [ref]⟩).1

end

/-- **An untangled schema has one expansion.** Sound sessions lead to the same one, even when
different references are active, as long as the schema meets none of those that differ. -/
theorem resolve_agrees {document : Value} (call : Call) (active' : List String)
    (hUntangled : Untangled document call.schema)
    (hStacked : Stacked document call.active call.schema)
    (hSame : ∀ ref, Meets document call.schema ref → (ref ∈ call.active ↔ ref ∈ active')) :
    Agrees (SoundPair document call.active active') (resolve document call.schema)
      (resolve document call.schema) := by
  induction call using (Call.opens_wellFounded document).induction generalizing active' with
  | _ call ih =>
    rw [resolve_eq]
    refine expandWith_agrees (soundPair_ignoresLog _ _) (fun ref hRef => ?_) fun p hp => ?_
    · by_cases hActive : ref ∈ call.active
      · -- active on both sides, it is replaced by one placeholder
        rintro s t ⟨hs, ht⟩
        have hActive' := (hSame ref ⟨ref, .self hRef, .refl⟩).mp hActive
        rw [followWith_of_active (hs.1 ▸ hActive), followWith_of_active (ht.1 ▸ hActive')]
        exact ⟨rfl, hs, ht⟩
      · have hRefUntangled : Untangled document (ofRef ref) :=
          hUntangled.mono fun u hu => ⟨ref, .self hRef, meets_ofRef.mp hu⟩
        -- on either side, the outcome is the one of a fresh resolver
        have hFollow : ∀ active'',
            (∀ u, Meets document call.schema u → (u ∈ call.active ↔ u ∈ active'')) →
            ∀ s, SoundAt document active'' s →
              ((followWith document (resolve document) ref).on s).1 =
                  outcome document (ofRef ref) {} ∧
                SoundAt document active''
                  ((followWith document (resolve document) ref).on s).2 := by
          intro active'' hSame' s hs
          have hNew := mt (hSame' ref ⟨ref, .self hRef, .refl⟩).mpr hActive
          refine followWith_fresh hNew (fun w hReferent hw t ht => ?_) hs hRefUntangled
          refine target_agrees hUntangled hStacked hRef hReferent (fun other hOther => ?_) hSame' ht
          exact ih ⟨ref :: call.active, w⟩ (.target hRef hActive hReferent hw) other
            (hUntangled.mono fun u hu => hu.target hRef hReferent)
            (hStacked.target hRef hReferent) hOther
        rintro s t ⟨hs, ht⟩
        obtain ⟨hOut, hNext⟩ := hFollow call.active (fun _ _ => Iff.rfl) s hs
        obtain ⟨hOut', hNext'⟩ := hFollow active' hSame t ht
        exact ⟨hOut.trans hOut'.symm, hNext, hNext'⟩
    · exact ih ⟨call.active, p⟩ (.part hp) active' (hUntangled.mono fun u hu => hu.part hp)
        (hStacked.part hp) fun ref hMeets => hSame ref (hMeets.part hp)

/-! ## Any schema keeps sessions sound -/

/-- **Whatever is resolved leaves a sound session sound**, whether or not it fails. What it
remembers of a reference under other active references counts only if the reference is untangled. -/
theorem resolve_keeps {document : Value} (call : Call)
    (hStacked : Stacked document call.active call.schema) {s : Session}
    (hs : SoundAt document call.active s) :
    SoundAt document call.active ((resolve document call.schema).on s).2 := by
  obtain ⟨hActive, hSound⟩ := hs
  refine ⟨(resolve_active document call.schema s).trans hActive, ?_⟩
  refine @resolved_invariant document (fun call => Stacked document call.active call.schema)
    (fun inner outer hOpens hOuter => ?_) (fun resolved => Sound document { resolved := resolved })
    ?_ call hStacked s hActive hSound
  · -- the active references lead to the schema of every call that is opened
    cases hOpens with
    | part hp => exact hOuter.part hp
    | target hRef _ hNamed _ => exact hOuter.target hRef hNamed
  · intro call hStacked ref hRef hNew w hNamed hw s hActive hs _ resolved t hRun ht other found
      hMem hUntangled
    rcases List.mem_cons.mp hMem with hEq | hMem
    · cases hEq
      -- what the reference names meets no active reference but the reference itself
      have hTarget : Untangled document w :=
        hUntangled.mono fun u hu => hu.target (ref?_ofRef ref) hNamed
      obtain ⟨log, hFresh⟩ := outcome_ofRef hNamed hw
      have hSame := resolve_agrees ⟨ref :: call.active, w⟩ [ref]
        hTarget (hStacked.target hRef hNamed) (fun u hu => by
          rw [List.mem_cons, List.mem_singleton]
          exact or_iff_left_of_imp fun hOuter =>
            (hStacked.ofRef hRef).eq_of_meets hUntangled (ref?_ofRef ref) hNamed hOuter hu)
        s { log := log, active := [ref] } ⟨⟨hActive, hs⟩, rfl, sound_of_empty document rfl⟩
      rw [hFresh, outcome, ← hSame.1, hRun]
    · exact ht other found hMem hUntangled

end Resolver

/-! ## Calls -/

/-- A call on a resolver. -/
inductive ResolverCall where
  | resolve (schema : Value)
  | deref (v : Value)
  | lookup (ref : Value)
  | componentSchemas
  deriving Repr

namespace Resolver

/-- Serves a call; here only the session matters that it leaves. -/
def serve (document : Entries) : ResolverCall → Resolving Unit
  | .resolve schema => discard (resolve (.map document) schema)
  | .deref v => discard (deref (.map document) v)
  | .lookup ref => discard (lookupValue (.map document) ref)
  | .componentSchemas => discard (componentSchemas document)

/-- The session of a new resolver after some calls. A failed call leaves a session as well. -/
def sessionAfter (document : Entries) (calls : List ResolverCall) : Session :=
  calls.foldl (fun s call => ((serve document call).on s).2) {}

section

variable {I : Session → Prop}

/-- A property of sessions in which the log plays no part. -/
def LogFree (I : Session → Prop) : Prop :=
  ∀ s log, I s → I { s with log := log }

theorem remark_ensures (hI : LogFree I) (level : Level) (text : String) :
    Ensures I (fun _ => True) (Resolving.remark level text) :=
  fun s hs => ⟨fun _ _ => trivial, hI s _ hs⟩

theorem lookup_ensures (hI : LogFree I) (document : Value) (ref : String) :
    Ensures I (fun v => referent document ref = .ok v) (lookup document ref) := by
  intro s hs
  obtain ⟨log, hLookup⟩ := lookup_on document ref s
  rw [hLookup]
  exact ⟨fun v hv => hv, hI s log hs⟩

/-- A chain of references outside schemas ends at nothing, where it starts, or at something that is
named on the way; it leaves only remarks. -/
theorem derefTo_ensures (hI : LogFree I) {Q : Value → Prop} {document : Value} (hNull : Q .null)
    (hNamed : ∀ v ref w, Q v → v.ref? = some ref → referent document ref = .ok w → Q w)
    (budget : Nat) (seen : List String) {v : Value} (hv : Q v) :
    Ensures I Q (derefTo document budget seen v) := by
  induction budget generalizing seen v with
  | zero => exact .throw .malformed
  | succ budget ih =>
    unfold derefTo
    split
    · next entries =>
      split
      · exact .pure hv
      · next ref hRef =>
        have hRef : (Value.map entries).ref? = some ref := by rw [ref?, hRef]
        split
        · exact (remark_ensures hI _ _).bind fun _ _ => .pure hNull
        · exact (lookup_ensures hI document _).bind fun next hNext =>
            ih _ (hNamed _ ref next hv hRef hNext)
      · next other hOther hRef =>
        unfold lookupValue
        split
        · next text hText => exact absurd (Value.scalar.inj hText) (hOther text)
        · exact (remark_ensures hI _ _).bind fun _ _ => .pure hNull
      · exact .throw .malformed
    · exact .pure hv

theorem deref_ensures (hI : LogFree I) {Q : Value → Prop} {document : Value} (hNull : Q .null)
    (hNamed : ∀ v ref w, Q v → v.ref? = some ref → referent document ref = .ok w → Q w)
    {v : Value} (hv : Q v) : Ensures I Q (deref document v) :=
  derefTo_ensures hI hNull hNamed _ _ hv

/-- The session after looking something up, whatever is found. -/
theorem deref_keeps (hI : LogFree I) (document v : Value) :
    Ensures I (fun _ => True) (deref document v) :=
  deref_ensures hI trivial (fun _ _ _ _ _ _ => trivial) trivial

theorem lookupValue_keeps (hI : LogFree I) (document v : Value) :
    Ensures I (fun _ => True) (lookupValue document v) := by
  unfold lookupValue
  split
  · exact (lookup_ensures hI document _).mono fun _ _ => trivial
  · exact (remark_ensures hI _ _).bind fun _ _ => .pure trivial

theorem componentNames_ensures (document : Entries) :
    Ensures I (fun _ => True) (componentNames document) := by
  unfold componentNames
  cases Entries.get? document "components" with
  | none => exact .pure trivial
  | some v =>
    cases v with
    | map components =>
      simp only [pure_bind]
      split
      · exact .pure trivial
      · exact .orMalformed fun _ _ => trivial
    | _ => exact .throw .malformed

/-- Collecting the named schemas does to the session what following their references does. -/
theorem collectSchemas_ensures {Q : Option Entries → Prop}
    {follow : String → Resolving (Option Entries)} {document : Entries}
    (hFollow : ∀ name, Ensures I Q (follow (componentRef name))) :
    Ensures I (fun es => ∀ e ∈ es, ∃ schema, e.2 = .map schema ∧ Q (some schema))
      (collectSchemas follow document) := by
  refine (componentNames_ensures document).bind fun names _ => ?_
  refine Ensures.foldlM (by simp) fun acc hAcc name _ => ?_
  split
  · refine (hFollow _).bind fun found hFound => ?_
    cases found with
    | none => exact .pure hAcc
    | some schema =>
      refine .pure fun e he => ?_
      rcases Entries.mem_put he with ⟨hValue, -⟩ | hMem
      · exact ⟨schema, hValue, hFound⟩
      · exact hAcc e hMem
  · exact .throw .malformed

/-- What resolving keeps, every call keeps. -/
theorem serve_keeps (hI : LogFree I) {document : Entries}
    (hResolve : ∀ v, Ensures I (fun _ => True) (resolve (.map document) v)) (call : ResolverCall) :
    Ensures I (fun _ => True) (serve document call) := by
  cases call with
  | resolve schema => exact (hResolve schema).map fun _ _ => trivial
  | deref v => exact (deref_keeps hI _ v).map fun _ _ => trivial
  | lookup ref => exact (lookupValue_keeps hI _ ref).map fun _ _ => trivial
  | componentSchemas =>
    refine Ensures.map (P := fun _ => True) ?_ fun _ _ => trivial
    rw [componentSchemas_eq]
    have hFollow := fun name => hResolve (ofRef (componentRef name))
    exact (collectSchemas_ensures hFollow).mono fun _ _ => trivial

/-- **What resolving keeps holds after any calls.** -/
theorem sessionAfter_keeps (hI : LogFree I) {document : Entries} (hFirst : I {})
    (hResolve : ∀ v, Ensures I (fun _ => True) (resolve (.map document) v))
    (calls : List ResolverCall) : I (sessionAfter document calls) :=
  List.foldlRecOn calls _ (motive := I) hFirst fun s hs call _ =>
    (serve_keeps hI hResolve call s hs).2

end

theorem soundAt_logFree (document : Value) (active : List String) :
    LogFree (SoundAt document active) :=
  fun _ _ h => h

theorem resolve_ensures (document v : Value) :
    Ensures (SoundAt document []) (fun _ => True) (resolve document v) :=
  fun _ hs => ⟨fun _ _ => trivial, resolve_keeps ⟨[], v⟩ (Stacked.nil document v) hs⟩

/-- Calls leave a sound session without active references. -/
theorem soundAt_sessionAfter (document : Entries) (calls : List ResolverCall) :
    SoundAt (.map document) [] (sessionAfter document calls) :=
  sessionAfter_keeps (soundAt_logFree _ _) ⟨rfl, sound_of_empty _ rfl⟩ (resolve_ensures _) calls

/-- **Earlier calls do not change how an untangled schema is resolved.** -/
theorem outcome_after {document : Entries} {schema : Value}
    (h : Untangled (.map document) schema) (calls : List ResolverCall) :
    outcome (.map document) schema (sessionAfter document calls) =
      outcome (.map document) schema {} := by
  have hSame := resolve_agrees ⟨[], schema⟩ [] h (Stacked.nil _ schema) fun _ _ => Iff.rfl
  exact (hSame _ _ ⟨soundAt_sessionAfter document calls, soundAt_sessionAfter document []⟩).1

end Resolver

end IntegrationCompiler
