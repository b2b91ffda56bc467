import IntegrationCompiler.Proofs.Diagnostics.Returns

/-!
# Outcomes do not depend on the log

A computation adds remarks to a log, and nothing that it does depends on what the log has. So two
computations can be compared by their outcomes, whatever remarks each of them starts with.

* `Logged.Agree` — two computations have the same outcome;
* `Logged.Steady` — a computation has the same outcome after all logs, with one rule for each way to
  build a computation;
* `Logged.Steady.agree_pure` — a steady computation that can end with a result always does;
* `Logged.returns_mapM`, `Logged.agree_pure_mapM` — the same for all members of a list.
-/

namespace IntegrationCompiler.Logged

variable {α β : Type}

/-! ## Agreement -/

/-- The same outcome, whatever remarks each of the two starts with. -/
def Agree (x y : Logged α) : Prop :=
  ∀ log log', (x.on log).1 = (y.on log').1

theorem Agree.trans {x y z : Logged α} (h : Agree x y) (h' : Agree y z) : Agree x z :=
  fun log log' => (h log []).trans (h' [] log')

theorem Agree.run_eq {x y : Logged α} (h : Agree x y) : (Logged.run x).1 = (Logged.run y).1 :=
  h [] []

theorem Agree.returns {x y : Logged α} (h : Agree x y) {a : α} (hx : x.Returns a) : y.Returns a :=
  let ⟨log, hx⟩ := hx
  ⟨[], (h log []).symm.trans hx⟩

/-- Sequences agree if their parts do, as far as the second part is reached. -/
theorem agree_bind {x y : Logged α} {f g : α → Logged β} (hx : Agree x y)
    (hf : ∀ a, x.Returns a → Agree (f a) (g a)) : Agree (x >>= f) (y >>= g) := by
  intro log log'
  have hSame := hx log log'
  rw [on_bind, on_bind]
  cases hOn : x.on log with
  | mk out next =>
    cases hOn' : y.on log' with
    | mk out' next' =>
      rw [hOn, hOn'] at hSame
      dsimp only at hSame
      subst hSame
      cases out with
      | ok a => exact hf a ⟨log, congrArg Prod.fst hOn⟩ next next'
      | error e => rfl

/-- Where the first part always ends with one result, only the second part counts. -/
theorem agree_bind_pure {x : Logged α} {f : α → Logged β} {y : Logged β} {a : α}
    (hx : Agree x (pure a)) (hf : Agree (f a) y) : Agree (x >>= f) y := by
  have hSame : Agree (x >>= f) (pure a >>= fun _ => y) := agree_bind hx fun b hb => by
    cases returns_pure (hx.returns hb)
    exact hf
  rwa [pure_bind] at hSame

/-- A remark does not change what comes after it. -/
theorem agree_after_remark {level : Level} {text : String} {x y : Logged α} (h : Agree x y) :
    Agree (do remark level text; x) y := by
  intro log log'
  rw [on_bind]
  exact h _ log'

/-! ## Steady computations -/

/-- The same outcome after all logs. -/
def Steady (x : Logged α) : Prop :=
  Agree x x

namespace Steady

theorem pure (a : α) : (pure a : Logged α).Steady :=
  fun _ _ => rfl

theorem throw (e : Failure) : (throw e : Logged α).Steady :=
  fun _ _ => rfl

/-- After a failure nothing is done any more. -/
theorem throw_bind (e : Failure) (f : α → Logged β) :
    (MonadExcept.throw e >>= f : Logged β).Steady :=
  fun _ _ => rfl

theorem remark (level : Level) (text : String) : (remark level text).Steady :=
  fun _ _ => rfl

theorem liftExcept (x : Except Failure α) : (liftExcept x : Logged α).Steady := by
  cases x with
  | ok a => exact pure a
  | error e => exact throw e

theorem orFail (c : Checked α) : (c.orFail : Logged α).Steady := by
  cases c with
  | ok a => exact pure a
  | bad issues => exact throw _

theorem bind {x : Logged α} {f : α → Logged β} (hx : x.Steady) (hf : ∀ a, (f a).Steady) :
    (x >>= f).Steady :=
  agree_bind hx fun a _ => hf a

theorem map {x : Logged α} {f : α → β} (hx : x.Steady) : (f <$> x).Steady := by
  rw [map_eq_pure_bind]
  exact hx.bind fun a => pure (f a)

theorem foldlM {f : β → α → Logged β} (hf : ∀ b a, (f b a).Steady) (xs : List α) (b : β) :
    (xs.foldlM f b).Steady := by
  induction xs generalizing b with
  | nil => exact pure b
  | cons a rest ih =>
    rw [List.foldlM_cons]
    exact (hf b a).bind ih

theorem filterMapM {f : α → Logged (Option β)} (hf : ∀ a, (f a).Steady) (xs : List α) :
    (xs.filterMapM f).Steady := by
  induction xs with
  | nil => exact pure []
  | cons a rest ih =>
    rw [List.filterMapM_cons]
    refine (hf a).bind fun found => ?_
    cases found with
    | none => exact ih
    | some b => exact ih.bind fun bs => pure (b :: bs)

theorem forIn {f : α → β → Logged (ForInStep β)} (hf : ∀ a b, (f a b).Steady) (xs : List α)
    (b : β) : (forIn xs b f).Steady := by
  induction xs generalizing b with
  | nil => exact pure b
  | cons a rest ih =>
    rw [List.forIn_cons]
    refine (hf a b).bind fun step => ?_
    cases step with
    | done b => exact pure b
    | yield b => exact ih b

/-- A steady computation that ends with a result after some log does so after every log. -/
theorem agree_pure {x : Logged α} (hx : x.Steady) {a : α} (h : x.Returns a) :
    Agree x (Pure.pure a) :=
  let ⟨log, h⟩ := h
  fun log' _ => (hx log' log).trans h

end Steady

/-! ## Computations for the members of a list -/

theorem returns_mapM {f : α → Logged β} {as : List α} {bs : List β} (h : (as.mapM f).Returns bs) :
    List.Forall₂ (fun a b => (f a).Returns b) as bs := by
  induction as generalizing bs with
  | nil =>
    rw [List.mapM_nil] at h
    cases returns_pure h
    exact .nil
  | cons a rest ih =>
    rw [List.mapM_cons] at h
    obtain ⟨b, hb, h⟩ := returns_bind h
    obtain ⟨bs, hbs, h⟩ := returns_bind h
    cases returns_pure h
    exact .cons hb (ih hbs)

theorem agree_pure_mapM {f : α → Logged β} {as : List α} {bs : List β}
    (h : List.Forall₂ (fun a b => Agree (f a) (pure b)) as bs) : Agree (as.mapM f) (pure bs) := by
  induction h with
  | nil =>
    rw [List.mapM_nil]
    exact Steady.pure []
  | cons ha _ ih =>
    rw [List.mapM_cons]
    exact agree_bind_pure ha (agree_bind_pure ih (Steady.pure _))

end IntegrationCompiler.Logged
