import IntegrationCompiler.Reference.Resolver

/-!
# Steps of a resolver, run and compared

A step of a resolver is read as what it does: from a session it leads to an outcome and to the
session after it, also when it fails.

* `Resolving.on` — outcome and session after a step, with one equation for each way to build one;
* `Resolving.Agrees` — two steps that, started in related sessions, have one outcome and end in
  related sessions. With a relation below equality this says that a step keeps an invariant;
* `Resolving.Ensures` — a step that keeps an invariant and whose results have a property.

Both notions pass through sequences and loops, so that a statement about the rules for a schema
follows from the same statement about the steps that the rules are given.
-/

namespace IntegrationCompiler

namespace Resolving

variable {α β : Type}

/-- The outcome of a step and the session after it. -/
def on (x : Resolving α) (s : Session) : Except Failure α × Session :=
  Id.run (StateT.run (ExceptT.run x) s)

/-! ## One equation for each way to build a step -/

@[simp] theorem on_pure (a : α) (s : Session) : (pure a : Resolving α).on s = (.ok a, s) := rfl

@[simp] theorem on_throw (e : Failure) (s : Session) :
    (throw e : Resolving α).on s = (.error e, s) := rfl

@[simp] theorem on_get (s : Session) : (get : Resolving Session).on s = (.ok s, s) := rfl

theorem on_bind (x : Resolving α) (f : α → Resolving β) (s : Session) :
    (x >>= f).on s = match x.on s with
      | (.ok a, t) => (f a).on t
      | (.error e, t) => (.error e, t) := by
  simp only [on, bind, ExceptT.bind, ExceptT.run, ExceptT.mk, StateT.bind, StateT.run, Id.run,
    ExceptT.bindCont]
  cases h : x s with
  | mk r t => cases r <;> rfl

/-- Without its result, a step leaves the same session. -/
theorem on_discard (x : Resolving α) (s : Session) :
    ((discard x : Resolving PUnit).on s).2 = (x.on s).2 := by
  have h : (discard x : Resolving PUnit) = (x >>= fun _ => pure ⟨⟩) := by
    rw [← map_eq_pure_bind]
    rfl
  rw [h, on_bind]
  obtain ⟨_ | _, _⟩ := x.on s <;> rfl

/-- A sequence ends well if both its steps do. -/
theorem on_bind_eq_ok {x : Resolving α} {f : α → Resolving β} {s t : Session} {b : β}
    (h : (x >>= f).on s = (.ok b, t)) :
    ∃ a s', x.on s = (.ok a, s') ∧ (f a).on s' = (.ok b, t) := by
  rw [on_bind] at h
  cases hx : x.on s with
  | mk out s' =>
    rw [hx] at h
    cases out with
    | ok a => exact ⟨a, s', rfl, h⟩
    | error e => simp at h

/-- The reference is active while the step runs and no longer, whatever the outcome. -/
theorem on_during (ref : String) (x : Resolving α) (s : Session) :
    (during ref x).on s =
      ((x.on { s with active := ref :: s.active }).1,
        { (x.on { s with active := ref :: s.active }).2 with
          active := (x.on { s with active := ref :: s.active }).2.active.drop 1 }) := rfl

theorem ext_on {x y : Resolving α} (h : ∀ s, x.on s = y.on s) : x = y := funext h

/-! ## Steps that agree -/

/-- From sessions related by `I`, two steps have the same outcome and lead to sessions related
by `I` again. -/
def Agrees (I : Session → Session → Prop) (x y : Resolving α) : Prop :=
  ∀ s t, I s t → (x.on s).1 = (y.on t).1 ∧ I (x.on s).2 (y.on t).2

/-- A relation between sessions that remarks do not disturb. -/
def IgnoresLog (I : Session → Session → Prop) : Prop :=
  ∀ s t remark, I s t →
    I { s with log := s.log ++ [remark] } { t with log := t.log ++ [remark] }

namespace Agrees

variable {I : Session → Session → Prop}

theorem pure (a : α) : Agrees I (pure a) (pure a) := fun _ _ h => ⟨rfl, h⟩

theorem throw (e : Failure) : Agrees (α := α) I (throw e) (throw e) := fun _ _ h => ⟨rfl, h⟩

theorem remark (hI : IgnoresLog I) (level : Level) (text : String) :
    Agrees I (Resolving.remark level text) (Resolving.remark level text) :=
  fun s t h => ⟨rfl, hI s t ⟨level, text⟩ h⟩

theorem bind {x y : Resolving α} {f g : α → Resolving β} (hxy : Agrees I x y)
    (hfg : ∀ a, Agrees I (f a) (g a)) : Agrees I (x >>= f) (y >>= g) := by
  intro s t h
  obtain ⟨hOut, hNext⟩ := hxy s t h
  rw [on_bind, on_bind]
  cases hx : x.on s with
  | mk out s' =>
    cases hy : y.on t with
    | mk out' t' =>
      rw [hx, hy] at hOut hNext
      dsimp only at hOut hNext
      subst hOut
      cases out with
      | ok a => exact hfg a s' t' hNext
      | error e =>
        -- both fail alike, and neither goes on
        exact ⟨rfl, hNext⟩

theorem map {x y : Resolving α} (f : α → β) (h : Agrees I x y) :
    Agrees I (f <$> x) (f <$> y) := by
  rw [map_eq_pure_bind, map_eq_pure_bind]
  exact h.bind fun a => pure (f a)

theorem mapM {f g : α → Resolving β} {xs : List α} (h : ∀ a ∈ xs, Agrees I (f a) (g a)) :
    Agrees I (xs.mapM f) (xs.mapM g) := by
  induction xs with
  | nil => exact pure []
  | cons a rest ih =>
    rw [List.mapM_cons, List.mapM_cons]
    refine (h a List.mem_cons_self).bind fun b => ?_
    exact (ih fun c hc => h c (List.mem_cons_of_mem _ hc)).bind fun bs => pure (b :: bs)

theorem foldlM {f g : β → α → Resolving β} {xs : List α}
    (h : ∀ b, ∀ a ∈ xs, Agrees I (f b a) (g b a)) (b : β) :
    Agrees I (xs.foldlM f b) (xs.foldlM g b) := by
  induction xs generalizing b with
  | nil => exact pure b
  | cons a rest ih =>
    rw [List.foldlM_cons, List.foldlM_cons]
    refine (h b a List.mem_cons_self).bind fun b' => ?_
    exact ih (fun b'' c hc => h b'' c (List.mem_cons_of_mem _ hc)) b'

theorem orMalformed (x : Option α) :
    Agrees (α := α) I (IntegrationCompiler.orMalformed x) (IntegrationCompiler.orMalformed x) := by
  cases x with
  | none => exact throw .malformed
  | some a => exact pure a

end Agrees

/-! ## Steps that keep an invariant -/

/-- From a session with `I`, a step leads to a session with `I`, and its result has `Q`. -/
def Ensures (I : Session → Prop) (Q : α → Prop) (x : Resolving α) : Prop :=
  ∀ s, I s → (∀ a, (x.on s).1 = .ok a → Q a) ∧ I (x.on s).2

namespace Ensures

variable {I : Session → Prop} {P : α → Prop} {Q : β → Prop}

theorem pure {a : α} (h : P a) : Ensures I P (pure a) := by
  intro s hs
  refine ⟨fun b hb => ?_, hs⟩
  rw [on_pure] at hb
  exact Except.ok.inj hb ▸ h

theorem throw (e : Failure) : Ensures I P (throw e : Resolving α) := by
  intro s hs
  refine ⟨fun b hb => ?_, hs⟩
  rw [on_throw] at hb
  cases hb

theorem bind {x : Resolving α} {f : α → Resolving β} (hx : Ensures I P x)
    (hf : ∀ a, P a → Ensures I Q (f a)) : Ensures I Q (x >>= f) := by
  intro s hs
  obtain ⟨hOut, hNext⟩ := hx s hs
  rw [on_bind]
  cases h : x.on s with
  | mk out t =>
    rw [h] at hOut hNext
    cases out with
    | ok a => exact hf a (hOut a rfl) t hNext
    | error e => exact ⟨fun b hb => (nomatch hb), hNext⟩

theorem mono {P' : α → Prop} {x : Resolving α} (hx : Ensures I P x) (h : ∀ a, P a → P' a) :
    Ensures I P' x :=
  fun s hs => ⟨fun a ha => h a ((hx s hs).1 a ha), (hx s hs).2⟩

theorem map {x : Resolving α} {f : α → β} (hx : Ensures I P x) (h : ∀ a, P a → Q (f a)) :
    Ensures I Q (f <$> x) := by
  rw [map_eq_pure_bind]
  exact hx.bind fun a ha => pure (h a ha)

theorem mapM {f : α → Resolving β} {xs : List α} (h : ∀ a ∈ xs, Ensures I Q (f a)) :
    Ensures I (fun bs => ∀ b ∈ bs, Q b) (xs.mapM f) := by
  induction xs with
  | nil => exact pure (by simp)
  | cons a rest ih =>
    rw [List.mapM_cons]
    refine (h a List.mem_cons_self).bind fun b hb => ?_
    refine (ih fun c hc => h c (List.mem_cons_of_mem _ hc)).bind fun bs hbs => ?_
    exact pure (by simpa using ⟨hb, hbs⟩)

theorem foldlM {f : β → α → Resolving β} {xs : List α} {b : β} (hb : Q b)
    (h : ∀ b, Q b → ∀ a ∈ xs, Ensures I Q (f b a)) : Ensures I Q (xs.foldlM f b) := by
  induction xs generalizing b with
  | nil => exact pure hb
  | cons a rest ih =>
    rw [List.foldlM_cons]
    refine (h b hb a List.mem_cons_self).bind fun b' hb' => ?_
    exact ih hb' fun b'' hb'' c hc => h b'' hb'' c (List.mem_cons_of_mem _ hc)

theorem filterM {f : α → Resolving Bool} {xs : List α} (hAll : ∀ a ∈ xs, P a)
    (h : ∀ a ∈ xs, Ensures I (fun _ => True) (f a)) :
    Ensures I (fun as => ∀ a ∈ as, P a) (xs.filterM f) := by
  -- the loop collects what it keeps in reverse
  have hAux : ∀ kept : List α, (∀ a ∈ kept, P a) →
      Ensures I (fun as => ∀ a ∈ as, P a) (xs.filterAuxM f kept) := by
    induction xs with
    | nil => exact fun kept hKept => pure hKept
    | cons a rest ih =>
      intro kept hKept
      refine (h a List.mem_cons_self).bind fun keep _ => ?_
      refine ih (fun b hb => hAll b (List.mem_cons_of_mem _ hb))
        (fun b hb => h b (List.mem_cons_of_mem _ hb)) _ ?_
      cases keep with
      | true => exact List.forall_mem_cons.mpr ⟨hAll a List.mem_cons_self, hKept⟩
      | false => exact hKept
  exact (hAux [] (by simp)).bind fun as hAs => pure (by simpa using hAs)

theorem filterMapM {f : α → Resolving (Option β)} {xs : List α}
    (h : ∀ a ∈ xs, Ensures I (fun found => ∀ b ∈ found, Q b) (f a)) :
    Ensures I (fun bs => ∀ b ∈ bs, Q b) (xs.filterMapM f) := by
  have hLoop : ∀ found : List β, (∀ b ∈ found, Q b) →
      Ensures I (fun bs => ∀ b ∈ bs, Q b) (List.filterMapM.loop f xs found) := by
    induction xs with
    | nil => exact fun found hFound => pure (by simpa using hFound)
    | cons a rest ih =>
      intro found hFound
      refine (h a List.mem_cons_self).bind fun next hNext => ?_
      have hRest := ih fun c hc => h c (List.mem_cons_of_mem _ hc)
      cases next with
      | none => exact hRest found hFound
      | some b => exact hRest (b :: found) (List.forall_mem_cons.mpr ⟨hNext b rfl, hFound⟩)
  exact hLoop [] (by simp)

theorem orFail {c : Checked α} (h : ∀ a, c = .ok a → P a) :
    Ensures I P (Checked.orFail c : Resolving α) := by
  cases c with
  | ok a => exact pure (h a rfl)
  | bad issues => exact throw (.invalid issues)

theorem orMalformed {x : Option α} (h : ∀ a ∈ x, P a) :
    Ensures I P (IntegrationCompiler.orMalformed x : Resolving α) := by
  cases x with
  | none => exact throw .malformed
  | some a => exact pure (h a rfl)

end Ensures

end Resolving

end IntegrationCompiler
