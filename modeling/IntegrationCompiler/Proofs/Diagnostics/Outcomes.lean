/-!
# Outcomes of two kinds

A computation ends with a result or with an error, and both can be described at once. What is known
of the parts of a computation then carries over to the whole.

* `Ends` — the results and the errors with which a computation can end;
* `Ends.bind`, `Ends.map`, `Ends.ite`, `Ends.mapM` — one rule for each way to build a computation.
-/

namespace IntegrationCompiler

/-- The outcome is a result of which `P` holds, or an error of which `E` holds. -/
def Ends {ε α : Type} (P : α → Prop) (E : ε → Prop) (outcome : Except ε α) : Prop :=
  match outcome with
  | .ok a => P a
  | .error e => E e

namespace Ends

variable {ε α β : Type} {P : α → Prop} {Q : β → Prop} {E : ε → Prop} {x : Except ε α}

theorem bind {f : α → Except ε β} (h : Ends P E x) (hf : ∀ a, P a → Ends Q E (f a)) :
    Ends Q E (x >>= f) := by
  cases x with
  | ok a => exact hf a h
  | error e => exact h

theorem map {f : α → β} (h : Ends P E x) (hf : ∀ a, P a → Q (f a)) : Ends Q E (x.map f) := by
  cases x with
  | ok a => exact hf a h
  | error e => exact h

theorem mono {P' : α → Prop} {E' : ε → Prop} (h : Ends P E x) (hP : ∀ a, P a → P' a)
    (hE : ∀ e, E e → E' e) : Ends P' E' x := by
  cases x with
  | ok a => exact hP a h
  | error e => exact hE e h

theorem ite {p : Prop} [Decidable p] {y : Except ε α} (hx : Ends P E x) (hy : Ends P E y) :
    Ends P E (if p then x else y) := by
  split
  · exact hx
  · exact hy

/-- The results of a list are all as the single ones are. -/
theorem mapM {f : α → Except ε β} {as : List α} (hf : ∀ a ∈ as, Ends Q E (f a)) :
    Ends (fun bs => ∀ b ∈ bs, Q b) E (as.mapM f) := by
  induction as with
  | nil =>
    intro b hb
    cases hb
  | cons a rest ih =>
    obtain ⟨hFirst, hRest⟩ := List.forall_mem_cons.mp hf
    rw [List.mapM_cons]
    refine hFirst.bind fun b hb => (ih hRest).bind fun bs hbs => ?_
    exact List.forall_mem_cons.mpr ⟨hb, hbs⟩

end Ends

end IntegrationCompiler
