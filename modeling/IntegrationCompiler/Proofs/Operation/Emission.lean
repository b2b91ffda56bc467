import IntegrationCompiler.Operation.Compile
import IntegrationCompiler.Proofs.Operation.OfEndpoint
import Mathlib.Data.List.Nodup

/-!
# What a compilation emits

A compilation walks over endpoints and emits an operation wherever its key is still free. Seen from
its end, the operations belong one to one to a list of origins that is known beforehand: those that
are met on the walk, then the hidden triggers, each origin only where no earlier one has its key.

* `Origin`, `Origin.firsts` — where an operation comes from; the origins whose key is free;
* `Emitted` — what some steps of the walk have added, with one lemma for each step;
* `Compiles`, `compile_returns` — the operations of a document are those that its origins yield;
  `Compiles.forall_operations` — what holds of all that is built for them; `Compiles.nodup_ids` — no
  two have the same kind and key.
-/

namespace IntegrationCompiler

open Logged

/-- The kind of an operation and its key. -/
def Operation.id (o : Operation) : OperationKind × String :=
  (o.kind, o.key)

/-! ## Origins -/

/-- Where an operation comes from: an endpoint becomes an action, or a configured trigger polls an
endpoint. -/
inductive Origin where
  | action (e : Endpoint)
  | trigger (e : Endpoint) (key : String) (config : TriggerConfig)

namespace Origin

/-- The kind and the key that the operation will have. -/
def id : Origin → OperationKind × String
  | .action e => (.action, e.actionKey)
  | .trigger _ key _ => (.trigger, key)

/-- The origins whose key is not claimed and that no earlier one has. -/
def firsts (claimed : List (OperationKind × String)) : List Origin → List Origin
  | [] => []
  | o :: rest =>
    if o.id ∈ claimed then firsts claimed rest else o :: firsts (o.id :: claimed) rest

/-- What is claimed once the origins have been passed. -/
def claims (claimed : List (OperationKind × String)) (origins : List Origin) :
    List (OperationKind × String) :=
  ((firsts claimed origins).map id).reverse ++ claimed

section

variable {claimed : List (OperationKind × String)}

theorem firsts_append (as bs : List Origin) :
    firsts claimed (as ++ bs) = firsts claimed as ++ firsts (claims claimed as) bs := by
  induction as generalizing claimed with
  | nil => rfl
  | cons o rest ih =>
    rw [List.cons_append, firsts, firsts]
    unfold claims
    rw [firsts]
    -- claims are listed last first
    split
    · exact ih
    · rw [ih, List.map_cons, List.reverse_cons, List.append_assoc]
      rfl

theorem claims_append (as bs : List Origin) :
    claims claimed (as ++ bs) = claims (claims claimed as) bs := by
  rw [claims, firsts_append, List.map_append, List.reverse_append, List.append_assoc]
  rfl

theorem mem_of_mem_firsts {origins : List Origin} {o : Origin} (h : o ∈ firsts claimed origins) :
    o ∈ origins ∧ o.id ∉ claimed := by
  induction origins generalizing claimed with
  | nil => cases h
  | cons first rest ih =>
    rw [firsts] at h
    split at h
    · exact ⟨List.mem_cons_of_mem _ (ih h).1, (ih h).2⟩
    · next hFree =>
      rcases List.mem_cons.mp h with rfl | h
      · exact ⟨List.mem_cons_self, hFree⟩
      · obtain ⟨hMem, hOther⟩ := ih h
        exact ⟨List.mem_cons_of_mem _ hMem,
          fun hClaimed => hOther (List.mem_cons_of_mem _ hClaimed)⟩

/-- No two origins that are kept have the same key. -/
theorem nodup_firsts (origins : List Origin) : ((firsts claimed origins).map id).Nodup := by
  induction origins generalizing claimed with
  | nil => exact List.nodup_nil
  | cons o rest ih =>
    rw [firsts]
    split
    · exact ih
    · rw [List.map_cons, List.nodup_cons]
      refine ⟨fun hLater => ?_, ih⟩
      obtain ⟨o', ho', hSame⟩ := List.mem_map.mp hLater
      exact (mem_of_mem_firsts ho').2 (hSame ▸ List.mem_cons_self)

/-- A key that is free is taken by the first origin that has it. -/
theorem mem_ids_firsts {origins : List Origin} {i : OperationKind × String} :
    i ∈ (firsts claimed origins).map id ↔ i ∈ origins.map id ∧ i ∉ claimed := by
  constructor
  · intro h
    obtain ⟨o, ho, rfl⟩ := List.mem_map.mp h
    exact ⟨List.mem_map_of_mem (mem_of_mem_firsts ho).1, (mem_of_mem_firsts ho).2⟩
  · rintro ⟨h, hFree⟩
    induction origins generalizing claimed with
    | nil => cases h
    | cons o rest ih =>
      rw [firsts]
      rcases List.mem_cons.mp h with rfl | h
      · rw [if_neg hFree, List.map_cons]
        exact List.mem_cons_self
      · split
        · exact ih h hFree
        · -- the origin that is kept here may have the same key; if not, a later one is kept
          by_cases hSame : i = o.id
          · rw [List.map_cons, hSame]
            exact List.mem_cons_self
          · refine List.mem_cons_of_mem _ (ih h fun hClaimed => ?_)
            exact (List.mem_cons.mp hClaimed).elim hSame hFree

/-- What is claimed in the end are the keys of the origins, and what was claimed before. -/
theorem mem_claims {origins : List Origin} {i : OperationKind × String} :
    i ∈ claims claimed origins ↔ i ∈ origins.map id ∨ i ∈ claimed := by
  rw [claims, List.mem_append, List.mem_reverse, mem_ids_firsts]
  by_cases h : i ∈ claimed <;> simp [h]

/-- An origin is kept if no earlier one has its key. -/
theorem mem_firsts_of_first {before after : List Origin} {o : Origin} (hFree : o.id ∉ claimed)
    (hBefore : ∀ o' ∈ before, o'.id ≠ o.id) : o ∈ firsts claimed (before ++ o :: after) := by
  have hUnclaimed : o.id ∉ claims claimed before := by
    rw [mem_claims]
    rintro (hEarlier | hClaimed)
    · obtain ⟨o', ho', hSame⟩ := List.mem_map.mp hEarlier
      exact hBefore o' ho' hSame
    · exact hFree hClaimed
  rw [firsts_append, firsts, if_neg hUnclaimed]
  exact List.mem_append_right _ List.mem_cons_self

/-- Of origins with different keys those stay whose key is free. -/
theorem firsts_of_nodup {origins : List Origin} (h : (origins.map id).Nodup) :
    firsts claimed origins = origins.filter fun o => o.id ∉ claimed := by
  induction origins generalizing claimed with
  | nil => rfl
  | cons o rest ih =>
    obtain ⟨hOther, hRest⟩ := List.nodup_cons.mp h
    rw [firsts, List.filter_cons]
    by_cases hClaimed : o.id ∈ claimed
    · rw [if_pos hClaimed, if_neg (by simpa using hClaimed), ih hRest]
    · rw [if_neg hClaimed, if_pos (by simpa using hClaimed), ih hRest]
      refine congrArg (o :: ·) (List.filter_congr fun o' ho' => ?_)
      have hDifferent : o'.id ≠ o.id := fun hSame => hOther (hSame ▸ List.mem_map_of_mem ho')
      simp [hDifferent]

end

end Origin

/-! ## Emitting -/

/-- What the origins that were passed have added: each whose key was free has yielded one operation,
and these stand in the order of their origins. -/
structure Emitted (Yields : Origin → Operation → Prop) (p : Progress) (origins : List Origin)
    (q : Progress) : Prop where
  claimed_eq : q.claimed = Origin.claims p.claimed origins
  operations : ∃ new, q.operations = p.operations ++ new ∧
    List.Forall₂ Yields (Origin.firsts p.claimed origins) new

namespace Emitted

variable {Yields : Origin → Operation → Prop} {p q r : Progress}

theorem nil (p : Progress) : Emitted Yields p [] p where
  claimed_eq := rfl
  operations := ⟨[], (List.append_nil _).symm, .nil⟩

theorem append {as bs : List Origin} (ha : Emitted Yields p as q) (hb : Emitted Yields q bs r) :
    Emitted Yields p (as ++ bs) r where
  claimed_eq := by rw [hb.claimed_eq, ha.claimed_eq, Origin.claims_append]
  operations := by
    obtain ⟨new, hNew, hYields⟩ := ha.operations
    obtain ⟨more, hMore, hYieldsMore⟩ := hb.operations
    refine ⟨new ++ more, by rw [hMore, hNew, List.append_assoc], ?_⟩
    rw [Origin.firsts_append, ← ha.claimed_eq]
    exact List.rel_append hYields hYieldsMore

theorem cons {o : Origin} {rest : List Origin} (ho : Emitted Yields p [o] q)
    (hRest : Emitted Yields q rest r) : Emitted Yields p (o :: rest) r :=
  ho.append hRest

/-- One emission: nothing happens if the key is taken. -/
theorem of_emit {o : Origin} {build : Logged Operation}
    (hYields : ∀ operation, build.Returns operation → Yields o operation)
    (h : (p.emit o.id.1 o.id.2 build).Returns q) : Emitted Yields p [o] q := by
  unfold Progress.emit at h
  split at h
  · next hTaken =>
    cases returns_pure h
    have hNone : Origin.firsts p.claimed [o] = [] := by
      rw [Origin.firsts, if_pos (List.contains_iff_mem.mp hTaken), Origin.firsts]
    refine ⟨?_, [], (List.append_nil _).symm, ?_⟩
    · rw [Origin.claims, hNone]
      rfl
    · rw [hNone]
      exact .nil
  · next hFree =>
    obtain ⟨operation, hBuilt, h⟩ := returns_bind h
    cases returns_pure h
    have hOne : Origin.firsts p.claimed [o] = [o] := by
      rw [Origin.firsts, if_neg fun hMem => hFree (List.contains_iff_mem.mpr hMem), Origin.firsts]
    refine ⟨?_, [operation], rfl, ?_⟩
    · rw [Origin.claims, hOne]
      rfl
    · rw [hOne]
      exact .cons (hYields operation hBuilt) .nil

end Emitted

/-! ## Origins of a compilation -/

/-- What an endpoint yields: nothing if its action is omitted; otherwise its action, and the
triggers configured for its path if it can be polled. -/
def GeneratorConfig.origins (config : GeneratorConfig) (e : Endpoint) : List Origin :=
  if (config.action e.actionKey).isOmitted then []
  else .action e ::
    if e.method = .get then
      (config.triggers.filter fun (_, c) => c.endpoint == e.path).map fun (key, c) =>
        .trigger e key c
    else []

/-- The hidden triggers whose path can be polled, in the order of the configuration. -/
def GeneratorConfig.hiddenOrigins (config : GeneratorConfig) (document : ApiDocument) :
    List Origin :=
  config.triggers.filterMap fun (key, c) =>
    if c.hidden then (document.endpoint? c.endpoint .get).map fun e => .trigger e key c else none

/-- What an origin yields: an action or a trigger is built, except that a hidden trigger may be
there already. -/
inductive Surroundings.Builds (s : Surroundings) : Origin → Operation → Prop where
  | action {e : Endpoint} {a : Action} :
    (Action.ofEndpoint s e e.actionKey).Returns a → Builds s (.action e) (.action a)
  | trigger {e : Endpoint} {key : String} {c : TriggerConfig} {t : Trigger} :
    (Trigger.ofEndpoint s e key c).Returns t → Builds s (.trigger e key c) (.trigger t)
  | hidden {e : Endpoint} {key : String} {c : TriggerConfig} {t : Trigger} :
    c.hidden = true → (key, t) ∈ s.hidden → Builds s (.trigger e key c) (.trigger t)

namespace Surroundings

variable {s : Surroundings} {p q : Progress}

theorem emitAction_returns {e : Endpoint} (h : (s.emitAction e p).Returns q) :
    Emitted s.Builds p [.action e] q := by
  have hBuilds : ∀ operation, (Operation.action <$> Action.ofEndpoint s e e.actionKey).Returns
      operation → s.Builds (.action e) operation := fun operation hBuilt => by
    obtain ⟨a, ha, rfl⟩ := returns_map hBuilt
    exact .action ha
  unfold emitAction at h
  dsimp only at h
  split at h
  · exact .of_emit hBuilds (returns_after_remark h)
  · exact .of_emit hBuilds h

theorem triggerFor_returns {e : Endpoint} {key : String} {c : TriggerConfig} {o : Operation}
    (h : (s.triggerFor e key c).Returns o) : s.Builds (.trigger e key c) o := by
  unfold triggerFor at h
  split at h
  · next t hFound =>
    cases returns_pure h
    split at hFound
    · next hHidden =>
      obtain ⟨front, back, hSplit, -⟩ := List.lookup_eq_some_iff.mp hFound
      refine .hidden hHidden ?_
      rw [hSplit]
      exact List.mem_append_right _ List.mem_cons_self
    · cases hFound
  · obtain ⟨t, ht, rfl⟩ := returns_map h
    exact .trigger ht

theorem emitTriggers_returns {e : Endpoint} (h : (s.emitTriggers e p).Returns q) :
    Emitted s.Builds p ((s.config.triggers.filter fun (_, c) => c.endpoint == e.path).map
      fun (key, c) => .trigger e key c) q := by
  unfold emitTriggers at h
  generalize s.config.triggers.filter (fun (_, c) => c.endpoint == e.path) = entries at h
  induction entries generalizing p with
  | nil =>
    cases returns_pure h
    exact .nil _
  | cons entry rest ih =>
    rw [List.foldlM_cons] at h
    obtain ⟨next, hNext, h⟩ := returns_bind h
    have hFirst : Emitted s.Builds p [.trigger e entry.1 entry.2] next :=
      .of_emit (fun _ => triggerFor_returns) hNext
    exact hFirst.cons (ih h)

theorem emitEndpoint_returns {e : Endpoint} (h : (s.emitEndpoint p e).Returns q) :
    Emitted s.Builds p (s.config.origins e) q := by
  unfold emitEndpoint at h
  unfold GeneratorConfig.origins
  split at h
  · next hOmitted =>
    cases returns_pure (returns_after_remark h)
    rw [if_pos hOmitted]
    exact .nil _
  · next hKept =>
    obtain ⟨next, hNext, h⟩ := returns_bind h
    rw [if_neg hKept]
    refine (emitAction_returns hNext).cons ?_
    split at h
    · next hGet =>
      rw [if_pos hGet]
      exact emitTriggers_returns h
    · next hOther =>
      cases returns_pure h
      rw [if_neg hOther]
      exact .nil _

/-- **The walk emits what the endpoints yield**, one after another. -/
theorem walk_returns {endpoints : List Endpoint}
    (h : (endpoints.foldlM s.emitEndpoint p).Returns q) :
    Emitted s.Builds p (endpoints.flatMap s.config.origins) q := by
  induction endpoints generalizing p with
  | nil =>
    cases returns_pure h
    exact .nil _
  | cons e rest ih =>
    rw [List.foldlM_cons] at h
    obtain ⟨next, hNext, h⟩ := returns_bind h
    exact (emitEndpoint_returns hNext).append (ih h)

/-! ## Hidden triggers -/

/-- The hidden trigger that belongs to an origin. -/
inductive IsHidden (s : Surroundings) : Origin → String × Trigger → Prop where
  | intro {e : Endpoint} {key : String} {c : TriggerConfig} {t : Trigger} :
    (key, c) ∈ s.config.triggers → c.hidden = true →
    s.document.endpoint? c.endpoint .get = some e → (Trigger.ofEndpoint s e key c).Returns t →
    IsHidden s (.trigger e key c) (key, t)

theorem hiddenTriggers_returns {hidden : List (String × Trigger)}
    (h : s.hiddenTriggers.Returns hidden) :
    List.Forall₂ s.IsHidden (s.config.hiddenOrigins s.document) hidden := by
  refine returns_filterMapM (fun (key, c) hEntry found hFound => ?_) (fun (key, c) _ hFound => ?_) h
  · -- a trigger that was collected
    dsimp only at hFound ⊢
    split at hFound
    · exact nomatch returns_pure hFound
    · next hHidden =>
      have hTrue : c.hidden = true := by simpa using hHidden
      split at hFound
      · exact nomatch returns_pure hFound
      · next e he =>
        obtain ⟨t, ht, hFound⟩ := returns_bind hFound
        cases returns_pure hFound
        rw [if_pos hTrue, he]
        exact ⟨_, rfl, .intro hEntry hTrue he ht⟩
  · -- one that was left out is visible or has no endpoint
    dsimp only at hFound ⊢
    split at hFound
    · next hVisible => exact if_neg (by simpa using hVisible)
    · split at hFound
      · next hNone =>
        rw [hNone]
        exact ite_self _
      · obtain ⟨t, -, hFound⟩ := returns_bind hFound
        exact nomatch returns_pure hFound

theorem emitHidden_returns {origins : List Origin} {hidden : List (String × Trigger)}
    (hOrigins : List.Forall₂ s.IsHidden origins hidden) {s' : Surroundings}
    (hSame : s'.hidden = hidden)
    (h : (s'.emitHidden p).Returns q) : Emitted s'.Builds p origins q := by
  unfold emitHidden at h
  rw [hSame] at h
  -- the induction passes through the list, while the surroundings keep all of it
  have hThere : ∀ entry ∈ hidden, entry ∈ s'.hidden := fun entry hEntry => hSame ▸ hEntry
  clear hSame
  induction hOrigins generalizing p with
  | nil =>
    cases returns_pure h
    exact .nil _
  | cons hFirst _ ih =>
    obtain ⟨hMem, hRest⟩ := List.forall_mem_cons.mp hThere
    rw [List.foldlM_cons] at h
    obtain ⟨next, hNext, hLater⟩ := returns_bind h
    cases hFirst with
    | intro _ hHidden _ _ =>
      refine Emitted.cons (.of_emit (fun operation hBuilt => ?_) hNext) (ih hLater hRest)
      cases returns_pure hBuilt
      exact .hidden hHidden hMem

end Surroundings

/-! ## All operations -/

/-- The origins of the operations of a document, if some of its endpoints are selected. -/
def GeneratorConfig.allOrigins (config : GeneratorConfig) (document : ApiDocument)
    (selected : List Endpoint) : List Origin :=
  selected.flatMap config.origins ++ config.hiddenOrigins document

/-- How the operations of a document came about: which endpoints were selected, and which hidden
triggers were there for their dropdowns. -/
structure Compiles (document : ApiDocument) (config : GeneratorConfig) (onlyPath : Option String)
    (hidden : List (String × Trigger)) (selected : List Endpoint) (operations : List Operation) :
    Prop where
  hidden_entries : List.Forall₂ (Surroundings.IsHidden ⟨document, config, []⟩)
    (config.hiddenOrigins document) hidden
  selected_eq : selectEndpoints document onlyPath = .ok selected
  builds : List.Forall₂ (Surroundings.Builds ⟨document, config, hidden⟩)
    (Origin.firsts [] (config.allOrigins document selected)) operations

section

variable {document : ApiDocument} {config : GeneratorConfig} {onlyPath : Option String}
  {hidden : List (String × Trigger)} {selected : List Endpoint} {operations : List Operation}

/-- **The operations of a document are what its origins yield**, in order, each key once. -/
theorem compile_returns (h : (compile document config onlyPath).Returns operations) :
    ∃ hidden selected, Compiles document config onlyPath hidden selected operations := by
  unfold compile at h
  -- hidden triggers, endpoints, walk, hidden triggers again, and remarks
  obtain ⟨hidden, hHidden, h⟩ := returns_bind h
  obtain ⟨selected, hSelected, h⟩ := returns_bind h
  obtain ⟨p, hWalk, h⟩ := returns_bind h
  obtain ⟨q, hTail, h⟩ := returns_bind h
  obtain ⟨-, -, h⟩ := returns_bind h
  cases returns_pure (returns_after_remark h)
  have hEntries := Surroundings.hiddenTriggers_returns hHidden
  have hEmitted := (Surroundings.walk_returns hWalk).append
    (Surroundings.emitHidden_returns hEntries rfl hTail)
  obtain ⟨new, hNew, hBuilds⟩ := hEmitted.operations
  refine ⟨hidden, selected, hEntries, returns_liftExcept hSelected, ?_⟩
  rw [hNew]
  exact hBuilds

/-- What holds of every action and every trigger that is built for an origin holds of all
operations. The trigger of an origin may have been built before there were hidden triggers. -/
theorem Compiles.forall_operations (h : Compiles document config onlyPath hidden selected operations)
    {P : Operation → Prop}
    (hAction : ∀ e a, .action e ∈ config.allOrigins document selected →
      (Action.ofEndpoint ⟨document, config, hidden⟩ e e.actionKey).Returns a → P (.action a))
    (hTrigger : ∀ hidden e key c t, .trigger e key c ∈ config.allOrigins document selected →
      (Trigger.ofEndpoint ⟨document, config, hidden⟩ e key c).Returns t → P (.trigger t)) :
    ∀ o ∈ operations, P o := by
  intro o ho
  obtain ⟨origin, hOrigin, hBuilds⟩ := exists_left_of_mem h.builds ho
  have hMem := (Origin.mem_of_mem_firsts hOrigin).1
  cases hBuilds with
  | action ha => exact hAction _ _ hMem ha
  | trigger ht => exact hTrigger hidden _ _ _ _ hMem ht
  | hidden _ hEntry =>
    -- a hidden trigger was built for the origin that its configuration has by itself
    obtain ⟨origin', hOrigin', hIsHidden⟩ := exists_left_of_mem h.hidden_entries hEntry
    cases hIsHidden with
    | intro _ _ _ ht => exact hTrigger [] _ _ _ _ (List.mem_append_right _ hOrigin') ht

theorem selectEndpoints_subset (h : selectEndpoints document onlyPath = .ok selected) :
    ∀ e ∈ selected, e ∈ document.endpoints := by
  unfold selectEndpoints at h
  split at h
  · cases h
    exact fun e he => he
  · dsimp only at h
    split at h
    · cases h
    · cases h
      exact fun e he => List.mem_of_mem_filter he

theorem allOrigins_subset {selected : List Endpoint} (h : ∀ e ∈ selected, e ∈ document.endpoints) :
    ∀ o ∈ config.allOrigins document selected,
      o ∈ config.allOrigins document document.endpoints := by
  intro o ho
  rcases List.mem_append.mp ho with hWalk | hTail
  · obtain ⟨e, he, hMem⟩ := List.mem_flatMap.mp hWalk
    exact List.mem_append_left _ (List.mem_flatMap.mpr ⟨e, h e he, hMem⟩)
  · exact List.mem_append_right _ hTail

/-! ## Members of lists -/

/-- The only member with a property is what a filter for it leaves. -/
theorem filter_eq_singleton {α : Type} {p : α → Bool} {a : α} {as : List α} (hDistinct : as.Nodup)
    (ha : a ∈ as) (hp : p a = true) (hOnly : ∀ b ∈ as, p b = true → b = a) : as.filter p = [a] := by
  have hPerm : (as.filter p).Perm [a] := by
    rw [List.perm_ext_iff_of_nodup (hDistinct.filter _) (List.nodup_singleton a)]
    intro b
    rw [List.mem_filter, List.mem_singleton]
    exact ⟨fun ⟨hb, hpb⟩ => hOnly b hb hpb, fun hSame => hSame ▸ ⟨ha, hp⟩⟩
  exact List.perm_singleton.mp hPerm

/-! ## Keys -/

namespace Compiles

/-- A hidden trigger stands under its own key and polls the path it is configured for. -/
theorem of_mem_hidden (h : Compiles document config onlyPath hidden selected operations)
    {entry : String × Trigger} (hEntry : entry ∈ hidden) :
    ∃ c e, (entry.1, c) ∈ config.triggers ∧ c.hidden = true ∧
      document.endpoint? c.endpoint .get = some e ∧ entry.2.head.key = entry.1 ∧
      entry.2.head.path = e.path ∧ entry.2.hidden = true ∧
      ∀ f ∈ entry.2.head.inputFields, f.Plain := by
  obtain ⟨o, -, hIsHidden⟩ := exists_left_of_mem h.hidden_entries hEntry
  cases hIsHidden with
  | @intro e key c t hMem hHidden hEndpoint hBuilt =>
    obtain ⟨hKey, hPath, -, hFlag, hPlain⟩ := Trigger.ofEndpoint_returns hBuilt
    exact ⟨c, e, hMem, hHidden, hEndpoint, hKey, hPath, hFlag.trans hHidden, hPlain⟩

/-- An operation has the kind and the key of its origin. -/
theorem id_eq (h : Compiles document config onlyPath hidden selected operations) {origin : Origin}
    {o : Operation} (hBuilds : Surroundings.Builds ⟨document, config, hidden⟩ origin o) :
    o.id = origin.id := by
  cases hBuilds with
  | action ha => exact congrArg (OperationKind.action, ·) (Action.ofEndpoint_head ha).1
  | trigger ht => exact congrArg (OperationKind.trigger, ·) (Trigger.ofEndpoint_returns ht).1
  | hidden _ hEntry =>
    obtain ⟨c, e, -, -, -, hKey, -⟩ := h.of_mem_hidden hEntry
    exact congrArg (OperationKind.trigger, ·) hKey

theorem ids_eq (h : Compiles document config onlyPath hidden selected operations) :
    operations.map Operation.id =
      (Origin.firsts [] (config.allOrigins document selected)).map Origin.id := by
  have hSame : List.Forall₂ (fun origin o => Origin.id origin = Operation.id o)
      (Origin.firsts [] (config.allOrigins document selected)) operations :=
    h.builds.imp fun _ _ hBuilds => (h.id_eq hBuilds).symm
  have hEq := List.forall₂_map_left_iff.mpr (List.forall₂_map_right_iff.mpr hSame)
  rw [List.forall₂_eq_eq_eq] at hEq
  exact hEq.symm

theorem nodup_ids (h : Compiles document config onlyPath hidden selected operations) :
    (operations.map Operation.id).Nodup :=
  h.ids_eq ▸ Origin.nodup_firsts _

/-- An operation is the only one with its kind and its key. -/
theorem filter_id (h : Compiles document config onlyPath hidden selected operations) {o : Operation}
    (ho : o ∈ operations) : operations.filter (fun o' => o'.id == o.id) = [o] :=
  filter_eq_singleton (List.Nodup.of_map _ h.nodup_ids) ho (beq_self_eq_true _) fun _ ho' hSame =>
    List.inj_on_of_nodup_map h.nodup_ids ho' ho (eq_of_beq hSame)

/-- The operation that an origin yields, if no earlier origin has its key. -/
theorem exists_of_mem (h : Compiles document config onlyPath hidden selected operations)
    {origin : Origin} (hMem : origin ∈ config.allOrigins document selected) :
    ∃ origin' ∈ config.allOrigins document selected, origin'.id = origin.id ∧
      ∃ o ∈ operations, Surroundings.Builds ⟨document, config, hidden⟩ origin' o := by
  have hFirst :
      origin.id ∈ (Origin.firsts [] (config.allOrigins document selected)).map Origin.id :=
    Origin.mem_ids_firsts.mpr ⟨List.mem_map_of_mem hMem, List.not_mem_nil⟩
  obtain ⟨origin', hKept, hSame⟩ := List.mem_map.mp hFirst
  obtain ⟨o, ho, hBuilds⟩ := exists_right_of_mem h.builds hKept
  exact ⟨origin', (Origin.mem_of_mem_firsts hKept).1, hSame, o, ho, hBuilds⟩

end Compiles

end

end IntegrationCompiler
