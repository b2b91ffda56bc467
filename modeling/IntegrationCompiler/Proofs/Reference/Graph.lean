import IntegrationCompiler.Proofs.Reference.Parts
import Mathlib.Logic.Relation

/-!
# Which references lead to which

The references of a document form a graph: a reference leads to those that the schema it names
mentions. A schema can meet every reference that its own references reach.

* `Value.Mentions` — a schema or one of its parts is the reference;
* `Resolver.Leads`, `Resolver.Reaches`, `Resolver.Meets` — one step from reference to reference,
  any number of them, and from a schema onwards;
* `Resolver.Acyclic` — no reference that a schema meets comes back to itself;
* `Resolver.Untangled` — a reference that a schema meets may come back to itself, but not through
  another one;
* `Resolver.Stacked` — the references that are active lead to the schema that is being expanded.
-/

namespace IntegrationCompiler

open Value

/-- Expanding the schema can ask for the reference. -/
inductive Value.Mentions : Value → String → Prop where
  | self {v : Value} {ref : String} : v.ref? = some ref → Mentions v ref
  | part {v p : Value} {ref : String} : p ∈ v.parts → Mentions p ref → Mentions v ref

theorem Value.mentions_iff {v : Value} {ref : String} :
    v.Mentions ref ↔ v.ref? = some ref ∨ ∃ p ∈ v.parts, p.Mentions ref := by
  constructor
  · intro h
    cases h with
    | self hRef => exact Or.inl hRef
    | part hPart h => exact Or.inr ⟨_, hPart, h⟩
  · rintro (hRef | ⟨p, hPart, h⟩)
    · exact .self hRef
    · exact .part hPart h

theorem Value.mentions_ofRef {ref other : String} : (ofRef ref).Mentions other ↔ other = ref := by
  constructor
  · intro h
    cases h with
    | self hRef => exact (Option.some.inj hRef).symm
    | part hPart _ => cases hPart
  · rintro rfl
    exact .self (ref?_ofRef other)

namespace Resolver

/-- What the first reference names mentions the second. -/
def Leads (document : Value) (ref next : String) : Prop :=
  ∃ w, referent document ref = .ok w ∧ w.Mentions next

/-- From the first reference, the second can be reached. -/
abbrev Reaches (document : Value) : String → String → Prop :=
  Relation.ReflTransGen (Leads document)

/-- From the first reference, the second can be reached in at least one step. -/
abbrev ComesTo (document : Value) : String → String → Prop :=
  Relation.TransGen (Leads document)

/-- Expanding the schema, and what its references name, can ask for the reference. -/
def Meets (document v : Value) (ref : String) : Prop :=
  ∃ first, v.Mentions first ∧ Reaches document first ref

/-- No reference cycle can be reached from the schema. -/
def Acyclic (document v : Value) : Prop :=
  ∀ ref, Meets document v ref → ¬ ComesTo document ref ref

/-- No two different references that can be reached from the schema lead to each other. -/
def Untangled (document v : Value) : Prop :=
  ∀ ref, Meets document v ref → ∀ other, Reaches document ref other →
    Reaches document other ref → ref = other

/-- Each active reference comes to every reference that the schema mentions. -/
def Stacked (document : Value) (active : List String) (v : Value) : Prop :=
  ∀ outer ∈ active, ∀ ref, v.Mentions ref → ComesTo document outer ref

section

variable {document v w p : Value} {ref : String} {active : List String}

theorem meets_ofRef {other : String} :
    Meets document (ofRef ref) other ↔ Reaches document ref other := by
  constructor
  · rintro ⟨first, hFirst, hReaches⟩
    rw [mentions_ofRef] at hFirst
    exact hFirst ▸ hReaches
  · exact fun h => ⟨ref, mentions_ofRef.mpr rfl, h⟩

theorem Meets.part (hPart : p ∈ v.parts) (h : Meets document p ref) : Meets document v ref :=
  h.imp fun _ hFirst => ⟨.part hPart hFirst.1, hFirst.2⟩

theorem Meets.step {other : String} (h : Meets document v ref)
    (hNext : Reaches document ref other) : Meets document v other :=
  h.imp fun _ hFirst => ⟨hFirst.1, hFirst.2.trans hNext⟩

/-- A set of references that is closed under what they lead to holds all that a schema meets, once
it holds those that the schema mentions. -/
theorem Meets.of_closed {P : String → Prop} (hFirst : ∀ first, v.Mentions first → P first)
    (hNext : ∀ first next, P first → Leads document first next → P next)
    (h : Meets document v ref) : P ref := by
  obtain ⟨first, hMentions, hReaches⟩ := h
  induction hReaches with
  | refl => exact hFirst first hMentions
  | tail _ hStep ih => exact hNext _ _ ih hStep

/-- What a reference meets through what it names, it reaches in at least one step. -/
theorem Meets.comesTo {other : String} (hNamed : referent document ref = .ok w)
    (h : Meets document w other) : ComesTo document ref other :=
  have ⟨_, hFirst, hReaches⟩ := h
  .head' ⟨w, hNamed, hFirst⟩ hReaches

theorem Meets.target {other : String} (hRef : v.ref? = some ref)
    (hNamed : referent document ref = .ok w) (h : Meets document w other) :
    Meets document v other :=
  ⟨ref, .self hRef, (h.comesTo hNamed).to_reflTransGen⟩

theorem Untangled.mono (h : Untangled document v)
    (hMeets : ∀ other, Meets document w other → Meets document v other) : Untangled document w :=
  fun other hOther => h other (hMeets other hOther)

/-- Without any cycle, no two references lead to each other. -/
theorem Acyclic.untangled (h : Acyclic document v) : Untangled document v := by
  intro ref hRef other hTo hBack
  rcases Relation.reflTransGen_iff_eq_or_transGen.mp hTo with hEq | hComes
  · exact hEq.symm
  · exact absurd (hComes.trans_left hBack) (h ref hRef)

/-- There is no cycle if every reference that the schema meets leads to lower ones only. -/
theorem Acyclic.of_rank (rank : String → Nat)
    (h : ∀ ref next, Meets document v ref → Leads document ref next → rank next < rank ref) :
    Acyclic document v := by
  intro ref hRef hComes
  have hLower : ∀ {next}, ComesTo document ref next → rank next < rank ref := by
    intro next hNext
    induction hNext with
    | single hStep => exact h ref _ hRef hStep
    | tail hBefore hStep ih =>
      exact Nat.lt_trans (h _ _ (hRef.step hBefore.to_reflTransGen) hStep) ih
  exact absurd (hLower hComes) (Nat.lt_irrefl _)

theorem Stacked.nil (document v : Value) : Stacked document [] v :=
  fun _ hOuter => nomatch hOuter

theorem Stacked.part (h : Stacked document active v) (hPart : p ∈ v.parts) :
    Stacked document active p :=
  fun outer hOuter ref hRef => h outer hOuter ref (.part hPart hRef)

theorem Stacked.ofRef (h : Stacked document active v) (hRef : v.ref? = some ref) :
    Stacked document active (ofRef ref) := by
  intro outer hOuter other hOther
  rw [mentions_ofRef.mp hOther]
  exact h outer hOuter ref (.self hRef)

/-- Entering a reference puts it on top of those that lead to it. -/
theorem Stacked.target (h : Stacked document active v) (hRef : v.ref? = some ref)
    (hNamed : referent document ref = .ok w) : Stacked document (ref :: active) w := by
  intro outer hOuter other hOther
  have hStep : Leads document ref other := ⟨w, hNamed, hOther⟩
  rcases List.mem_cons.mp hOuter with rfl | hOuter
  · -- the reference that is entered
    exact .single hStep
  · exact (h outer hOuter ref (.self hRef)).tail hStep

/-- An active reference that an untangled schema meets again is the one that it just entered. -/
theorem Stacked.eq_of_meets (h : Stacked document active v) (hUntangled : Untangled document v)
    (hRef : v.ref? = some ref) (hNamed : referent document ref = .ok w) {outer : String}
    (hOuter : outer ∈ active) (hMeets : Meets document w outer) : outer = ref := by
  -- `outer` leads to `ref`, being active, and `ref` to `outer`: untangled, they are one
  have hBack := (h outer hOuter ref (.self hRef)).to_reflTransGen
  have hTo := (hMeets.comesTo hNamed).to_reflTransGen
  exact (hUntangled ref ⟨ref, .self hRef, .refl⟩ outer hTo hBack).symm

end

end Resolver

end IntegrationCompiler
