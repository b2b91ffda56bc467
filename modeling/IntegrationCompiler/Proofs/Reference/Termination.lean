import IntegrationCompiler.Proofs.Reference.Rules
import Mathlib.Data.Finset.Card
import Mathlib.Data.Prod.Lex
import Mathlib.Logic.Relation

/-!
# Resolving ends

Expanding a schema can lead to a larger one, since a reference can name anything in the document.
It ends all the same: a call on an inner schema gets a smaller schema, and a call on what a
reference names adds a reference to those that are active. Only references that are written in the
document or in the schema can be added, and each only once.

* `Call`, `Call.Opens` — a call of the recursion, and the calls that it makes;
* `Call.opens_wellFounded` — no chain of calls goes on for ever;
* `expand_followTo_agrees` — a budget above the number of idle references is never used up, so that
  the budget has no influence;
* `Resolver.resolve_eq` — resolving satisfies the recursion that mentions no budget;
* `resolving_ends` — all of this, and that no other function satisfies the recursion.
-/

namespace IntegrationCompiler

open Resolving Value Resolver

/-- A call of the recursion: the references that are active, the innermost first, and the schema
that is expanded. -/
structure Call where
  active : List String
  schema : Value

namespace Call

/-- The first call is made while the second runs: on a part of its schema, or on what the reference
names that its schema is. -/
inductive Opens (document : Value) : Call → Call → Prop where
  | part {active : List String} {p v : Value} :
    p ∈ v.parts → Opens document ⟨active, p⟩ ⟨active, v⟩
  | target {active : List String} {ref : String} {v w : Value} :
    v.ref? = some ref → ref ∉ active → referent document ref = .ok w → w ≠ .null →
    Opens document ⟨ref :: active, w⟩ ⟨active, v⟩

/-- How many references that can still become active a call can meet. -/
def idle (document : Value) (call : Call) : Nat :=
  ((document.refs ++ call.schema.refs).toFinset \ call.active.toFinset).card

theorem idle_part_le {document p v : Value} (active : List String) (h : p ∈ v.parts) :
    idle document ⟨active, p⟩ ≤ idle document ⟨active, v⟩ := by
  refine Finset.card_le_card (Finset.sdiff_subset_sdiff (fun ref hRef => ?_) subset_rfl)
  rw [List.mem_toFinset, List.mem_append] at hRef ⊢
  exact hRef.imp_right fun h' => (below_of_mem_parts h).refs_subset h'

/-- The reference that is entered is idle before and active after. -/
theorem idle_target_lt {document v w : Value} {active : List String} {ref : String}
    (hRef : v.ref? = some ref) (hNew : ref ∉ active) (hNamed : referent document ref = .ok w) :
    idle document ⟨ref :: active, w⟩ < idle document ⟨active, v⟩ := by
  refine Finset.card_lt_card ?_
  rw [Finset.ssubset_iff_of_subset]
  · -- the reference itself is lost
    refine ⟨ref, ?_, by simp⟩
    have hMem := mem_refs_of_ref? hRef
    simp [hMem, hNew]
  · -- and none is gained, since what it names is part of the document
    intro other hOther
    have hTarget := refs_subset_of_referent hNamed
    simp only [Finset.mem_sdiff, List.mem_toFinset, List.mem_append, List.mem_cons,
      not_or] at hOther ⊢
    exact ⟨Or.inl (hOther.1.elim id fun h => hTarget h), hOther.2.2⟩

theorem idle_le (document v : Value) (active : List String) :
    idle document ⟨active, v⟩ ≤ document.refCount + v.refCount := by
  have hCard : idle document ⟨active, v⟩ ≤ (document.refs ++ v.refs).length :=
    le_trans (Finset.card_le_card Finset.sdiff_subset) (List.toFinset_card_le _)
  have hDocument := length_refs_le document
  have hSchema := length_refs_le v
  rw [List.length_append] at hCard
  omega

/-- **No chain of calls goes on for ever.** The references that can still become active get fewer,
or stay and the schema gets smaller. -/
theorem opens_wellFounded (document : Value) : WellFounded (Opens document) := by
  refine Subrelation.wf (r := InvImage (Prod.Lex (· < ·) (· < ·))
    fun call : Call => (idle document call, call.schema.depth)) ?_
    (InvImage.wf _ (WellFounded.prod_lex Nat.lt_wfRel.wf Nat.lt_wfRel.wf))
  intro inner outer h
  cases h with
  | part hPart =>
    -- a part may hold fewer references; if not, it is nested less deep
    rcases Nat.lt_or_eq_of_le (@idle_part_le document _ _ _ hPart) with hLt | hEq
    · exact .left _ _ hLt
    · rw [InvImage, hEq]
      exact .right _ (below_of_mem_parts hPart).1
  | target hRef hNew hNamed _ => exact .left _ _ (idle_target_lt hRef hNew hNamed)

/-- What a call makes smaller or adds. -/
theorem opens_cases {document : Value} {inner outer : Call} (h : Opens document inner outer) :
    inner.active = outer.active ∧ inner.schema.depth < outer.schema.depth ∧
        inner.schema.refs ⊆ outer.schema.refs ∨
      ∃ ref ∈ outer.schema.refs, ref ∉ outer.active ∧ inner.active = ref :: outer.active ∧
        inner.schema.refs ⊆ document.refs := by
  cases h with
  | part hPart =>
    have hBelow := below_of_mem_parts hPart
    exact Or.inl ⟨rfl, hBelow.1, hBelow.refs_subset⟩
  | target hRef hNew hNamed _ =>
    exact Or.inr ⟨_, mem_refs_of_ref? hRef, hNew, rfl, refs_subset_of_referent hNamed⟩

/-- Below a first call, the active references are distinct and written in the document or in the
first schema. -/
theorem active_of_reached {document v : Value} {call : Call}
    (h : Relation.ReflTransGen (flip (Opens document)) ⟨[], v⟩ call) :
    call.active.Nodup ∧ call.active ⊆ document.refs ++ v.refs ∧
      call.schema.refs ⊆ document.refs ++ v.refs := by
  induction h with
  | refl => exact ⟨List.nodup_nil, List.nil_subset _, List.subset_append_right ..⟩
  | tail _ hStep ih =>
    obtain ⟨hNodup, hActive, hRefs⟩ := ih
    rcases opens_cases hStep with ⟨hSame, -, hSub⟩ | ⟨ref, hMem, hNew, hCons, hSub⟩
    · exact ⟨hSame ▸ hNodup, hSame ▸ hActive, List.Subset.trans hSub hRefs⟩
    · rw [hCons]
      refine ⟨List.nodup_cons.mpr ⟨hNew, hNodup⟩, ?_, ?_⟩
      · exact List.cons_subset.mpr ⟨hRefs hMem, hActive⟩
      · exact List.Subset.trans hSub (List.subset_append_left ..)

end Call

/-! ## The budget has no influence -/

/-- The same session, in which the given references are active. -/
def SameAt (active : List String) (s t : Session) : Prop :=
  s = t ∧ s.active = active

theorem sameAt_ignoresLog (active : List String) : IgnoresLog (SameAt active) := by
  rintro s _ remark ⟨rfl, h⟩
  exact ⟨rfl, h⟩

/-- Following a reference calls on what the reference names, when it is not active yet. -/
theorem followWith_agrees {document : Value} {target target' : Value → Resolving (Option Entries)}
    {active : List String} {ref : String}
    (hTarget : ref ∉ active → ∀ w, referent document ref = .ok w → w ≠ .null →
      Agrees (SameAt (ref :: active)) (target w) (target' w)) :
    Agrees (SameAt active) (followWith document target ref) (followWith document target' ref) := by
  rintro s _ ⟨rfl, rfl⟩
  cases following document ref s with
  | active _ hRun | remembered _ _ _ hRun | nowhere _ _ _ hRun =>
    rw [hRun, hRun]
    exact ⟨rfl, rfl, rfl⟩
  | target w log hNew _ hReferent hw hRun =>
    obtain ⟨hOut, hNext, hStack⟩ := hTarget hNew w hReferent hw
      { s with log := log, active := ref :: s.active } _ ⟨rfl, rfl⟩
    rw [hRun, hRun, ← Prod.ext hOut hNext]
    exact ⟨rfl, rfl, by rw [closing_active, hStack, List.drop_one, List.tail_cons]⟩

/-! ## The recursion -/

/-- One step of the recursion: the rules for a schema, given the calls on its parts and on what its
reference names. -/
def Resolver.resolveStep (document : Value) (recurse : Value → Resolving (Option Entries)) :
    Value → Resolving (Option Entries) :=
  expandWith (followWith document recurse) recurse

/-- **A step makes no other calls.** Two recursions that agree on the calls that a call opens agree
on the call. -/
theorem resolveStep_agrees {document : Value}
    {recurse recurse' : Value → Resolving (Option Entries)} (call : Call)
    (hCalls : ∀ inner, Call.Opens document inner call →
      Agrees (SameAt inner.active) (recurse inner.schema) (recurse' inner.schema)) :
    Agrees (SameAt call.active) (resolveStep document recurse call.schema)
      (resolveStep document recurse' call.schema) := by
  refine expandWith_agrees (sameAt_ignoresLog _) (fun ref hRef => ?_) fun p hp => ?_
  · refine followWith_agrees fun hNew w hNamed hw => ?_
    exact hCalls ⟨ref :: call.active, w⟩ (.target hRef hNew hNamed hw)
  · exact hCalls ⟨call.active, p⟩ (.part hp)

theorem eq_of_agreesAt {α : Type} {x y : Resolving α}
    (h : ∀ active, Agrees (SameAt active) x y) : x = y :=
  ext_on fun s =>
    have hSame := h s.active s s ⟨rfl, rfl⟩
    Prod.ext hSame.1 hSame.2.1

/-- A budget above the number of idle references is never used up, and so any two of them lead to
the same expansion. -/
theorem expand_followTo_agrees {document : Value} (call : Call) {b b' : Nat}
    (hb : Call.idle document call < b) (hb' : Call.idle document call < b') :
    Agrees (SameAt call.active) (expand (followTo document b) call.schema)
      (expand (followTo document b') call.schema) := by
  induction call using (Call.opens_wellFounded document).induction generalizing b b' with
  | _ call ih =>
    rw [expand_eq, expand_eq]
    refine expandWith_agrees (sameAt_ignoresLog _) (fun ref hRef => ?_) fun p hp => ?_
    · -- one idle reference and one unit of either budget are spent together
      obtain ⟨rest, rfl⟩ := Nat.exists_eq_add_of_lt hb
      obtain ⟨rest', rfl⟩ := Nat.exists_eq_add_of_lt hb'
      rw [followTo, followTo]
      refine followWith_agrees fun hNew w hNamed hw => ?_
      have hLess : Call.idle document _ < Call.idle document call :=
        Call.idle_target_lt hRef hNew hNamed
      exact ih ⟨ref :: call.active, w⟩ (.target hRef hNew hNamed hw) (by omega) (by omega)
    · -- a part is expanded with the whole budget
      have hLess : Call.idle document _ ≤ Call.idle document call :=
        Call.idle_part_le call.active hp
      exact ih ⟨call.active, p⟩ (.part hp) (by omega) (by omega)

namespace Resolver

/-- Resolving makes no use of its budget: it satisfies the recursion that has none. -/
theorem resolve_eq (document v : Value) :
    resolve document v = resolveStep document (resolve document) v := by
  -- The budget of a schema differs from those of its parts; all of them are large enough.
  refine eq_of_agreesAt fun active => ?_
  have hIdle := Call.idle_le document v active
  rw [resolve, expand_eq, resolveStep]
  refine expandWith_agrees (sameAt_ignoresLog _) (fun ref hRef => ?_) fun p hp => ?_
  · rw [budget, followTo]
    refine followWith_agrees fun hNew w hNamed hw => ?_
    have hLess := Call.idle_target_lt hRef hNew hNamed
    have hTarget := Call.idle_le document w (ref :: active)
    exact expand_followTo_agrees ⟨ref :: active, w⟩ (by omega) (by rw [budget]; omega)
  · have hLess : Call.idle document _ ≤ Call.idle document ⟨active, v⟩ :=
      Call.idle_part_le active hp
    have hPart := Call.idle_le document p active
    rw [budget]
    exact expand_followTo_agrees ⟨active, p⟩ (by omega) (by rw [budget]; omega)

/-- The recursion determines what it computes, since no chain of calls goes on for ever. -/
theorem eq_resolve {document : Value} {recurse : Value → Resolving (Option Entries)}
    (h : ∀ v, recurse v = resolveStep document recurse v) : recurse = resolve document := by
  have hCalls : ∀ call : Call,
      Agrees (SameAt call.active) (recurse call.schema) (resolve document call.schema) := by
    intro call
    -- on the chains of calls, none of which goes on for ever
    induction call using (Call.opens_wellFounded document).induction with
    | _ call ih =>
      rw [h, resolve_eq]
      exact resolveStep_agrees call ih
  exact funext fun v => eq_of_agreesAt fun active => hCalls ⟨active, v⟩

/-- Resolving ends with the references active that were active before. -/
theorem resolve_active (document v : Value) (s : Session) :
    ((resolve document v).on s).2.active = s.active := by
  have hIdle := Call.idle_le document v s.active
  have hLess : Call.idle document ⟨s.active, v⟩ < budget document v := by
    rw [budget]
    omega
  exact (expand_followTo_agrees ⟨s.active, v⟩ hLess hLess s s ⟨rfl, rfl⟩).2.2

/-- A schema that is a reference is resolved by following it. -/
theorem resolve_of_ref? {document v : Value} {ref : String} (h : v.ref? = some ref) :
    resolve document v = followWith document (resolve document) ref := by
  cases v with
  | map schema =>
    rw [resolve_eq, resolveStep]
    unfold expandWith
    dsimp only
    rw [get?_of_ref?_eq_some h]
    rfl
  | _ => cases h

theorem resolve_ofRef (document : Value) (ref : String) :
    resolve document (ofRef ref) = followWith document (resolve document) ref :=
  resolve_of_ref? (ref?_ofRef ref)

/-- Where a document is resolved as a whole, its named schemas are resolved as references are. -/
theorem componentSchemas_eq (es : Entries) :
    componentSchemas es = collectSchemas (fun ref => resolve (.map es) (ofRef ref)) es := by
  have hFollow : followTo (.map es) (budget (.map es) (.map es)) =
      fun ref => resolve (.map es) (ofRef ref) := by
    refine funext fun ref => eq_of_agreesAt fun active => ?_
    rw [resolve_ofRef, budget, followTo]
    refine followWith_agrees fun hNew w hNamed hw => ?_
    have hLess := Call.idle_target_lt (ref?_ofRef ref) hNew hNamed
    have hIdle := Call.idle_le (.map es) (ofRef ref) active
    have hTarget := Call.idle_le (.map es) w (ref :: active)
    have hCount : (ofRef ref).refCount = 1 := rfl
    exact expand_followTo_agrees ⟨ref :: active, w⟩ (by omega) (by rw [budget]; omega)
  rw [componentSchemas, hFollow]

end Resolver

/-- **Resolving ends**, whatever the references of the document lead to. No chain of calls goes on
for ever; a call that is opened gets a smaller schema or makes one more reference active, of which
there are finitely many to begin with; a step calls on nothing but the calls it opens; and so the
recursion has one solution, which resolving computes. The named schemas are resolved by as many
calls as there are names, each of which ends. -/
theorem resolving_ends (document : Value) :
    WellFounded (Call.Opens document) ∧
    (∀ inner outer, Call.Opens document inner outer →
      inner.active = outer.active ∧ inner.schema.depth < outer.schema.depth ∨
        ∃ ref ∈ outer.schema.refs, ref ∉ outer.active ∧ inner.active = ref :: outer.active) ∧
    (∀ schema call, Relation.ReflTransGen (flip (Call.Opens document)) ⟨[], schema⟩ call →
      call.active.Nodup ∧ call.active ⊆ document.refs ++ schema.refs) ∧
    (∀ recurse recurse' call,
      (∀ inner, Call.Opens document inner call →
        Agrees (SameAt inner.active) (recurse inner.schema) (recurse' inner.schema)) →
      Agrees (SameAt call.active) (resolveStep document recurse call.schema)
        (resolveStep document recurse' call.schema)) ∧
    (∀ recurse, (∀ v, recurse v = resolveStep document recurse v) ↔
      recurse = resolve document) ∧
    ∀ es, document = .map es →
      componentSchemas es = collectSchemas (fun ref => resolve document (ofRef ref)) es := by
  refine ⟨Call.opens_wellFounded document, fun inner outer h => ?_, fun schema call h => ?_,
    fun _ _ call h => resolveStep_agrees call h, fun recurse => ⟨eq_resolve, ?_⟩, ?_⟩
  · rcases Call.opens_cases h with ⟨hSame, hDepth, -⟩ | ⟨ref, hMem, hNew, hCons, -⟩
    · exact Or.inl ⟨hSame, hDepth⟩
    · exact Or.inr ⟨ref, hMem, hNew, hCons⟩
  · obtain ⟨hNodup, hActive, -⟩ := Call.active_of_reached h
    exact ⟨hNodup, hActive⟩
  · rintro rfl v
    exact resolve_eq document v
  · rintro es rfl
    exact componentSchemas_eq es

end IntegrationCompiler
