import IntegrationCompiler.Diagnostics.Failure
import Mathlib.Data.List.Forall2

/-!
# Computations that end with a result

What a result says of the computations it came from. Remarks never change a result, so a statement
about results does not mention the log.

* `Logged.Returns` — a computation can end with a result, with one rule for each way to build a
  computation: `returns_bind`, `returns_map`, `returns_liftExcept`, `returns_orFail`;
* `Logged.returns_filterMapM` — what a loop collects stands in the order of what it passes;
* `Logged.returns_foldlM` — an invariant of a loop holds at its end;
* `ok_of_bind`, `ok_of_orFail`, `ok_of_mapM` — the same for computations without a log;
* `exists_left_of_mem`, `exists_right_of_mem` — members of two lists that belong together.
-/

namespace IntegrationCompiler

/-! ## Members of lists that belong together -/

theorem exists_left_of_mem {α β : Type} {R : α → β → Prop} {as : List α} {bs : List β}
    (h : List.Forall₂ R as bs) {b : β} (hb : b ∈ bs) : ∃ a ∈ as, R a b := by
  induction h with
  | nil => cases hb
  | cons hR _ ih =>
    rcases List.mem_cons.mp hb with rfl | hb
    · exact ⟨_, List.mem_cons_self, hR⟩
    · obtain ⟨a, ha, hR⟩ := ih hb
      exact ⟨a, List.mem_cons_of_mem _ ha, hR⟩

theorem exists_right_of_mem {α β : Type} {R : α → β → Prop} {as : List α} {bs : List β}
    (h : List.Forall₂ R as bs) {a : α} (ha : a ∈ as) : ∃ b ∈ bs, R a b := by
  obtain ⟨b, hb, hR⟩ := exists_left_of_mem h.flip ha
  exact ⟨b, hb, hR⟩

/-! ## Computations without a log -/

section

variable {α β : Type}

theorem ok_of_bind {ε : Type} {x : Except ε α} {f : α → Except ε β} {b : β}
    (h : (x >>= f) = .ok b) : ∃ a, x = .ok a ∧ f a = .ok b := by
  cases x with
  | ok a => exact ⟨a, rfl, h⟩
  | error e => cases h

theorem ok_of_orMalformed {x : Option α} {a : α} (h : (orMalformed x : Except Failure α) = .ok a) :
    x = some a := by
  cases x with
  | none => cases h
  | some b =>
    cases h
    rfl

theorem ok_of_orFail {c : Checked α} {a : α} (h : (c.orFail : Except Failure α) = .ok a) :
    c = .ok a := by
  cases c with
  | ok b => exact congrArg Checked.ok (Except.ok.inj h)
  | bad issues => cases h

theorem ok_of_mapM {f : α → Except Failure β} {xs : List α} {ys : List β}
    (h : xs.mapM f = .ok ys) : List.Forall₂ (fun a b => f a = .ok b) xs ys := by
  induction xs generalizing ys with
  | nil =>
    cases h
    exact .nil
  | cons a rest ih =>
    rw [List.mapM_cons] at h
    obtain ⟨b, hb, h⟩ := ok_of_bind h
    obtain ⟨bs, hbs, h⟩ := ok_of_bind h
    cases h
    exact .cons hb (ih hbs)

/-- What is selected is what the test accepts. -/
theorem filter_of_filterM {f : α → Except Failure Bool} {xs ys : List α}
    (h : xs.filterM f = .ok ys) : ys = xs.filter fun a => f a matches .ok true := by
  obtain ⟨kept, hScan, h⟩ := ok_of_bind h
  cases h
  -- what was kept so far is collected backwards
  suffices hAll : ∀ acc, xs.filterAuxM f acc = .ok kept →
      kept.reverse = acc.reverse ++ xs.filter fun a => f a matches .ok true from hAll [] hScan
  clear hScan h
  induction xs with
  | nil =>
    intro acc hScan
    cases hScan
    exact (List.append_nil _).symm
  | cons a rest ih =>
    intro acc hScan
    obtain ⟨keep, hKeep, hRest⟩ := ok_of_bind hScan
    rw [ih _ hRest, List.filter_cons, hKeep]
    cases keep with
    | true => simp
    | false => simp

/-- What is selected is a part of the list, in the same order. -/
theorem sublist_of_filterM {f : α → Except Failure Bool} {xs ys : List α}
    (h : xs.filterM f = .ok ys) : ys.Sublist xs :=
  filter_of_filterM h ▸ List.filter_sublist

/-- What a loop keeps that it starts with, it ends with. -/
theorem ok_of_foldlM {f : β → α → Except Failure β} {xs : List α} {b c : β} {I : β → Prop}
    (hStart : I b) (hStep : ∀ a ∈ xs, ∀ b b', I b → f b a = .ok b' → I b')
    (h : xs.foldlM f b = .ok c) : I c := by
  induction xs generalizing b with
  | nil =>
    cases h
    exact hStart
  | cons a rest ih =>
    rw [List.foldlM_cons] at h
    obtain ⟨b', hb', h⟩ := ok_of_bind h
    have hNext := hStep a List.mem_cons_self b b' hStart hb'
    exact ih hNext (fun a' ha' => hStep a' (List.mem_cons_of_mem _ ha')) h

end

/-! ## Computations with a log -/

namespace Logged

variable {α β : Type}

/-- Outcome and remarks of a computation that is started with some remarks. -/
def on (x : Logged α) (log : Log) : Except Failure α × Log :=
  Id.run (StateT.run (ExceptT.run x) log)

/-- Started with some remarks, the computation ends with a result. -/
def Returns (x : Logged α) (a : α) : Prop :=
  ∃ log, (x.on log).1 = .ok a

theorem returns_of_run {x : Logged α} {a : α} (h : (Logged.run x).1 = .ok a) : x.Returns a :=
  ⟨[], h⟩

/-! ## One rule for each way to build a computation -/

theorem returns_pure {a b : α} (h : (pure a : Logged α).Returns b) : b = a := by
  obtain ⟨log, h⟩ := h
  exact (Except.ok.inj h).symm

theorem not_returns_throw {e : Failure} {a : α} : ¬ (throw e : Logged α).Returns a :=
  fun ⟨_, h⟩ => nomatch h

theorem on_bind (x : Logged α) (f : α → Logged β) (log : Log) :
    (x >>= f).on log = match x.on log with
      | (.ok a, log') => (f a).on log'
      | (.error e, log') => (.error e, log') := by
  simp only [on, bind, ExceptT.bind, ExceptT.run, ExceptT.mk, StateT.bind, StateT.run, Id.run,
    ExceptT.bindCont]
  cases h : x log with
  | mk out log' => cases out <;> rfl

/-- A sequence ends with a result if both its computations do. -/
theorem returns_bind {x : Logged α} {f : α → Logged β} {b : β} (h : (x >>= f).Returns b) :
    ∃ a, x.Returns a ∧ (f a).Returns b := by
  obtain ⟨log, h⟩ := h
  rw [on_bind] at h
  cases hx : x.on log with
  | mk out log' =>
    rw [hx] at h
    cases out with
    | ok a => exact ⟨a, ⟨log, congrArg Prod.fst hx⟩, ⟨log', h⟩⟩
    | error e => cases h

theorem returns_map {x : Logged α} {f : α → β} {b : β} (h : (f <$> x).Returns b) :
    ∃ a, x.Returns a ∧ f a = b := by
  rw [map_eq_pure_bind] at h
  obtain ⟨a, hx, hb⟩ := returns_bind h
  exact ⟨a, hx, (returns_pure hb).symm⟩

theorem returns_liftExcept {x : Except Failure α} {a : α}
    (h : (liftExcept x : Logged α).Returns a) : x = .ok a := by
  cases x with
  | ok b => rw [returns_pure h]
  | error e => exact absurd h not_returns_throw

theorem returns_orFail {c : Checked α} {a : α} (h : (c.orFail : Logged α).Returns a) :
    c = .ok a := by
  cases c with
  | ok b => rw [returns_pure h]
  | bad issues => exact absurd h not_returns_throw

/-- A remark does not change what comes after it. -/
theorem returns_after_remark {level : Level} {text : String} {x : Logged α} {a : α}
    (h : (do remark level text; x).Returns a) : x.Returns a := by
  obtain ⟨-, -, h⟩ := returns_bind h
  exact h

/-! ## Loops -/

/-- What a loop keeps that it starts with, it ends with. -/
theorem returns_foldlM {f : β → α → Logged β} {xs : List α} {b c : β} {I : β → Prop}
    (hStart : I b) (hStep : ∀ a ∈ xs, ∀ b b', I b → (f b a).Returns b' → I b')
    (h : (xs.foldlM f b).Returns c) : I c := by
  induction xs generalizing b with
  | nil =>
    rw [returns_pure h]
    exact hStart
  | cons a rest ih =>
    rw [List.foldlM_cons] at h
    obtain ⟨b', hb', h⟩ := returns_bind h
    have hNext := hStep a List.mem_cons_self b b' hStart hb'
    exact ih hNext (fun a' ha' => hStep a' (List.mem_cons_of_mem _ ha')) h

/-- What a loop collects stands in the order of what it came from, if `g` tells what that is. -/
theorem returns_filterMapM {γ : Type} {R : γ → β → Prop} {f : α → Logged (Option β)}
    {g : α → Option γ} {xs : List α} {ys : List β}
    (hSome : ∀ a ∈ xs, ∀ b, (f a).Returns (some b) → ∃ c, g a = some c ∧ R c b)
    (hNone : ∀ a ∈ xs, (f a).Returns none → g a = none) (h : (xs.filterMapM f).Returns ys) :
    List.Forall₂ R (xs.filterMap g) ys := by
  induction xs generalizing ys with
  | nil =>
    rw [returns_pure h]
    exact .nil
  | cons a rest ih =>
    have hRest := fun ys => @ih ys (fun a ha => hSome a (List.mem_cons_of_mem _ ha))
      (fun a ha => hNone a (List.mem_cons_of_mem _ ha))
    rw [List.filterMapM_cons] at h
    obtain ⟨found, hFound, h⟩ := returns_bind h
    -- `g` leaves out what the loop leaves out, so the lists stay paired
    cases found with
    | none =>
      rw [List.filterMap_cons_none (hNone a List.mem_cons_self hFound)]
      exact hRest ys h
    | some b =>
      obtain ⟨bs, hbs, h⟩ := returns_bind h
      obtain ⟨c, hc, hR⟩ := hSome a List.mem_cons_self b hFound
      rw [List.filterMap_cons_some hc, returns_pure h]
      exact .cons hR (hRest bs hbs)

/-- Everything that a loop collects came from something. -/
theorem returns_of_mem_filterMapM {f : α → Logged (Option β)} {xs : List α} {ys : List β}
    (h : (xs.filterMapM f).Returns ys) {b : β} (hb : b ∈ ys) :
    ∃ a ∈ xs, (f a).Returns (some b) := by
  induction xs generalizing ys with
  | nil =>
    rw [returns_pure h] at hb
    cases hb
  | cons a rest ih =>
    rw [List.filterMapM_cons] at h
    obtain ⟨found, hFound, h⟩ := returns_bind h
    have hLater : ∀ ys, (rest.filterMapM f).Returns ys → b ∈ ys →
        ∃ a' ∈ a :: rest, (f a').Returns (some b) := fun ys hys hb => by
      obtain ⟨a', ha', hReturns⟩ := ih hys hb
      exact ⟨a', List.mem_cons_of_mem _ ha', hReturns⟩
    cases found with
    | none => exact hLater ys h hb
    | some c =>
      obtain ⟨bs, hbs, h⟩ := returns_bind h
      rw [returns_pure h] at hb
      rcases List.mem_cons.mp hb with rfl | hb
      · exact ⟨a, List.mem_cons_self, hFound⟩
      · exact hLater bs hbs hb

end Logged

end IntegrationCompiler
