import IntegrationCompiler.Proofs.Diagnostics.Agreement

/-!
# Computations that end with a failure

Where a failure comes from. A sequence fails in one of its parts, and the parts before that one
ended with results.

* `error_of_bind`, `error_of_mapM`, `error_of_foldlM`, … — computations without a log;
* `Logged.Fails` — a computation can end with a failure, with one rule for each way to build a
  computation: `fails_bind`, `fails_mapM`, `fails_foldlM`, …
-/

namespace IntegrationCompiler

/-! ## Computations without a log -/

section

variable {α β : Type} {e : Failure}

theorem error_of_bind {x : Except Failure α} {f : α → Except Failure β}
    (h : (x >>= f) = .error e) : x = .error e ∨ ∃ a, x = .ok a ∧ f a = .error e := by
  cases x with
  | ok a => exact Or.inr ⟨a, rfl, h⟩
  | error e' => exact Or.inl (congrArg Except.error (Except.error.inj h))

theorem error_of_map {x : Except Failure α} {f : α → β} (h : (x.map f) = .error e) :
    x = .error e := by
  cases x with
  | ok a => cases h
  | error e' => exact congrArg Except.error (Except.error.inj h)

theorem error_of_orFail {c : Checked α} (h : (c.orFail : Except Failure α) = .error e) :
    ∃ issues, c = .bad issues ∧ e = .invalid issues := by
  cases c with
  | ok a => cases h
  | bad issues => exact ⟨issues, rfl, (Except.error.inj h).symm⟩

theorem error_of_orMalformed {x : Option α} (h : (orMalformed x : Except Failure α) = .error e) :
    x = none ∧ e = .malformed := by
  cases x with
  | none => exact ⟨rfl, (Except.error.inj h).symm⟩
  | some a => cases h

theorem error_of_mapM {f : α → Except Failure β} {xs : List α} (h : xs.mapM f = .error e) :
    ∃ a ∈ xs, f a = .error e := by
  induction xs with
  | nil => cases h
  | cons a rest ih =>
    rw [List.mapM_cons] at h
    rcases error_of_bind h with ha | ⟨b, -, h⟩
    · exact ⟨a, List.mem_cons_self, ha⟩
    · rcases error_of_bind h with hRest | ⟨bs, -, h⟩
      · obtain ⟨a', ha', hFails⟩ := ih hRest
        exact ⟨a', List.mem_cons_of_mem _ ha', hFails⟩
      · cases h

theorem error_of_filterM {f : α → Except Failure Bool} {xs : List α}
    (h : xs.filterM f = .error e) : ∃ a ∈ xs, f a = .error e := by
  rcases error_of_bind h with hScan | ⟨kept, -, h⟩
  · clear h
    -- what was kept so far is collected backwards
    generalize ([] : List α) = kept at hScan
    induction xs generalizing kept with
    | nil => cases hScan
    | cons a rest ih =>
      rcases error_of_bind hScan with ha | ⟨keep, -, hRest⟩
      · exact ⟨a, List.mem_cons_self, ha⟩
      · obtain ⟨a', ha', hFails⟩ := ih _ hRest
        exact ⟨a', List.mem_cons_of_mem _ ha', hFails⟩
  · cases h

/-- A loop fails in one step, after steps that did not. -/
theorem error_of_foldlM {f : β → α → Except Failure β} {xs : List α} {b : β}
    (h : xs.foldlM f b = .error e) : ∃ before a after b', xs = before ++ a :: after ∧
      before.foldlM f b = .ok b' ∧ f b' a = .error e := by
  induction xs generalizing b with
  | nil => cases h
  | cons a rest ih =>
    rw [List.foldlM_cons] at h
    rcases error_of_bind h with ha | ⟨next, hNext, h⟩
    · exact ⟨[], a, rest, b, rfl, rfl, ha⟩
    · obtain ⟨before, a', after, b', rfl, hBefore, ha'⟩ := ih h
      refine ⟨a :: before, a', after, b', rfl, ?_, ha'⟩
      rw [List.foldlM_cons, hNext]
      exact hBefore

end

/-! ## Computations with a log -/

namespace Logged

variable {α β : Type} {e : Failure}

/-- Started with some remarks, the computation ends with a failure. -/
def Fails (x : Logged α) (e : Failure) : Prop :=
  ∃ log, (x.on log).1 = .error e

theorem fails_of_run {x : Logged α} (h : (Logged.run x).1 = .error e) : x.Fails e :=
  ⟨[], h⟩

/-- What cannot fail ends with a result. -/
theorem returns_of_not_fails {x : Logged α} (h : ∀ e, ¬ x.Fails e) : ∃ a, x.Returns a := by
  cases hRun : (x.on []).1 with
  | ok a => exact ⟨a, [], hRun⟩
  | error e => exact absurd ⟨[], hRun⟩ (h e)

theorem Agree.fails {x y : Logged α} (h : Agree x y) (hx : x.Fails e) : y.Fails e :=
  let ⟨log, hx⟩ := hx
  ⟨[], (h log []).symm.trans hx⟩

theorem not_fails_pure {a : α} : ¬ (pure a : Logged α).Fails e :=
  fun ⟨_, h⟩ => nomatch h

theorem fails_throw {e' : Failure} (h : (throw e' : Logged α).Fails e) : e' = e :=
  let ⟨_, h⟩ := h
  Except.error.inj h

theorem not_fails_remark {level : Level} {text : String} : ¬ (remark level text).Fails e :=
  fun ⟨_, h⟩ => nomatch h

/-- A sequence fails in its first part, or in its second part after a result of the first. -/
theorem fails_bind {x : Logged α} {f : α → Logged β} (h : (x >>= f).Fails e) :
    x.Fails e ∨ ∃ a, x.Returns a ∧ (f a).Fails e := by
  obtain ⟨log, h⟩ := h
  rw [on_bind] at h
  cases hx : x.on log with
  | mk out log' =>
    rw [hx] at h
    cases out with
    | ok a => exact Or.inr ⟨a, ⟨log, congrArg Prod.fst hx⟩, log', h⟩
    | error e' =>
      refine Or.inl ⟨log, ?_⟩
      rw [hx]
      exact congrArg Except.error (Except.error.inj h)

theorem fails_map {x : Logged α} {f : α → β} (h : (f <$> x).Fails e) : x.Fails e := by
  rw [map_eq_pure_bind] at h
  rcases fails_bind h with hx | ⟨a, -, h⟩
  · exact hx
  · exact absurd h not_fails_pure

/-- A remark does not fail. -/
theorem fails_after_remark {level : Level} {text : String} {x : Logged α}
    (h : (do remark level text; x).Fails e) : x.Fails e := by
  rcases fails_bind h with hRemark | ⟨-, -, h⟩
  · exact absurd hRemark not_fails_remark
  · exact h

theorem fails_liftExcept {x : Except Failure α} (h : (liftExcept x : Logged α).Fails e) :
    x = .error e := by
  cases x with
  | ok a => exact absurd h not_fails_pure
  | error e' => exact congrArg Except.error (fails_throw h)

theorem fails_orFail {c : Checked α} (h : (c.orFail : Logged α).Fails e) :
    ∃ issues, c = .bad issues ∧ e = .invalid issues := by
  cases c with
  | ok a => exact absurd h not_fails_pure
  | bad issues => exact ⟨issues, rfl, (fails_throw h).symm⟩

theorem fails_mapM {f : α → Logged β} {xs : List α} (h : (xs.mapM f).Fails e) :
    ∃ a ∈ xs, (f a).Fails e := by
  induction xs with
  | nil =>
    rw [List.mapM_nil] at h
    exact absurd h not_fails_pure
  | cons a rest ih =>
    rw [List.mapM_cons] at h
    rcases fails_bind h with ha | ⟨b, -, h⟩
    · exact ⟨a, List.mem_cons_self, ha⟩
    · rcases fails_bind h with hRest | ⟨bs, -, h⟩
      · obtain ⟨a', ha', hFails⟩ := ih hRest
        exact ⟨a', List.mem_cons_of_mem _ ha', hFails⟩
      · exact absurd h not_fails_pure

theorem fails_filterMapM {f : α → Logged (Option β)} {xs : List α} (h : (xs.filterMapM f).Fails e) :
    ∃ a ∈ xs, (f a).Fails e := by
  induction xs with
  | nil => exact absurd h not_fails_pure
  | cons a rest ih =>
    have hLater (hRest : (rest.filterMapM f).Fails e) : ∃ a' ∈ a :: rest, (f a').Fails e := by
      obtain ⟨a', ha', hFails⟩ := ih hRest
      exact ⟨a', List.mem_cons_of_mem _ ha', hFails⟩
    rw [List.filterMapM_cons] at h
    rcases fails_bind h with ha | ⟨found, -, h⟩
    · exact ⟨a, List.mem_cons_self, ha⟩
    · cases found with
      | none => exact hLater h
      | some b =>
        rcases fails_bind h with hRest | ⟨bs, -, h⟩
        · exact hLater hRest
        · exact absurd h not_fails_pure

theorem not_fails_forIn {f : α → β → Logged (ForInStep β)} (hf : ∀ a b, ¬ (f a b).Fails e)
    (xs : List α) (b : β) : ¬ (forIn xs b f).Fails e := by
  induction xs generalizing b with
  | nil => exact not_fails_pure
  | cons a rest ih =>
    intro h
    rw [List.forIn_cons] at h
    rcases fails_bind h with ha | ⟨step, -, h⟩
    · exact hf a b ha
    · cases step with
      | done b => exact not_fails_pure h
      | yield b => exact ih b h

/-- A loop fails in one step, after steps that did not. -/
theorem fails_foldlM {f : β → α → Logged β} {xs : List α} {b : β} (h : (xs.foldlM f b).Fails e) :
    ∃ before a after b', xs = before ++ a :: after ∧ (before.foldlM f b).Returns b' ∧
      (f b' a).Fails e := by
  obtain ⟨log, h⟩ := h
  -- the log is kept in view, so that the steps can be put together again
  suffices hStep : ∃ before a after b' log', xs = before ++ a :: after ∧
      (before.foldlM f b).on log = (.ok b', log') ∧ ((f b' a).on log').1 = .error e by
    obtain ⟨before, a, after, b', log', hSplit, hBefore, ha⟩ := hStep
    exact ⟨before, a, after, b', hSplit, ⟨log, congrArg Prod.fst hBefore⟩, log', ha⟩
  induction xs generalizing b log with
  | nil => cases h
  | cons a rest ih =>
    rw [List.foldlM_cons, on_bind] at h
    cases hFirst : (f b a).on log with
    | mk out log' =>
      rw [hFirst] at h
      cases out with
      | error e' => exact ⟨[], a, rest, b, log, rfl, rfl, by rw [hFirst]; exact h⟩
      | ok next =>
        obtain ⟨before, a', after, b', log'', rfl, hBefore, ha'⟩ := ih log' h
        refine ⟨a :: before, a', after, b', log'', rfl, ?_, ha'⟩
        rw [List.foldlM_cons, on_bind, hFirst]
        exact hBefore

end Logged

end IntegrationCompiler
