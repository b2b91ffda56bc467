import IntegrationCompiler.Proofs.Draft.Steady
import IntegrationCompiler.Proofs.Operation.Triggers

/-!
# What each origin yields

What an origin yields depends on the endpoint, the configuration and the hidden triggers, and not on
what was compiled before it. So a compilation can be written as one pass over its origins.

* `Surroundings.yield` — the operation of an origin; `Surroundings.yield_steady`;
* `Surroundings.walk_agrees` — the walk over endpoints is a walk over origins;
* `compile_agrees` — a compilation builds the hidden triggers, and then what the origins yield whose
  key is free;
* `Yielded` — the same for a compilation that returned.
-/

namespace IntegrationCompiler

open Logged

/-! ## Builders do not depend on the log -/

theorem ResponsePlan.ofEndpoint_steady (e : Endpoint) (noun : String)
    (simplify : Option SimplifyConfig) : (ResponsePlan.ofEndpoint e noun simplify).Steady := by
  unfold ofEndpoint
  split
  · exact .pure _
  · split
    · exact (Steady.remark _ _).bind fun _ => .pure _
    · dsimp only
      split
      · exact .pure _
      · split
        · split
          · split
            · exact (Steady.pure _).bind fun _ => .pure _
            · exact (Steady.liftExcept _).bind fun _ => .pure _
          · exact .pure _
        · exact .pure _

theorem PaginationPlan.ofEndpoint?_steady (e : Endpoint) (extraction : ArrayExtraction)
    (hidden : Bool) (fixed : Entries) :
    (PaginationPlan.ofEndpoint? e extraction hidden fixed).Steady := by
  unfold ofEndpoint?
  dsimp only
  split
  · exact .pure _
  · exact (Steady.liftExcept _).bind fun _ => (Steady.remark _ _).bind fun _ => .pure _

theorem Action.ofEndpoint_steady (s : Surroundings) (e : Endpoint) (key : String) :
    (Action.ofEndpoint s e key).Steady := by
  unfold ofEndpoint
  dsimp only
  refine (Steady.liftExcept _).bind fun fields => (Steady.liftExcept _).bind fun request =>
    (ResponsePlan.ofEndpoint_steady _ _ _).bind fun response => ?_
  -- an action without content differs in its samples only
  split
  · exact (Steady.pure _).bind fun raw => (Draft.refine_steady _ _).bind fun d =>
      (Steady.pure _).bind fun sample => .pure _
  · exact (Steady.liftExcept _).bind fun raw => (Draft.refine_steady _ _).bind fun d =>
      (Steady.liftExcept _).bind fun sample => .pure _

theorem Trigger.ofEndpoint_steady (s : Surroundings) (e : Endpoint) (key : String)
    (config : TriggerConfig) : (Trigger.ofEndpoint s e key config).Steady := by
  unfold ofEndpoint
  dsimp only
  exact (Steady.liftExcept _).bind fun description => (Steady.liftExcept _).bind fun own =>
    (Steady.liftExcept _).bind fun request => (Steady.liftExcept _).bind fun extraction =>
    (PaginationPlan.ofEndpoint?_steady _ _ _ _).bind fun pagination =>
    (Steady.liftExcept _).bind fun raw => (Steady.liftExcept _).bind fun sample => .pure _

namespace Surroundings

theorem hiddenTriggers_steady (s : Surroundings) : s.hiddenTriggers.Steady := by
  refine Steady.filterMapM (fun (key, c) => ?_) _
  dsimp only
  split
  · exact .pure _
  · split
    · exact .pure _
    · exact (Trigger.ofEndpoint_steady _ _ _ _).bind fun t => .pure _

theorem warnUnreachable_agrees (s : Surroundings) : Agree s.warnUnreachable (pure ()) := by
  unfold warnUnreachable
  dsimp only
  generalize s.config.triggers = entries
  induction entries with
  | nil => exact Steady.pure _
  | cons entry rest ih =>
    rw [List.forIn_cons]
    split
    · exact ih
    · exact agree_after_remark ih

/-! ## Origins -/

/-- The operation of an origin. -/
def yield (s : Surroundings) : Origin → Logged Operation
  | .action e => Operation.action <$> Action.ofEndpoint s e e.actionKey
  | .trigger e key c => s.triggerFor e key c

variable {s : Surroundings}

theorem yield_steady (origin : Origin) : (s.yield origin).Steady := by
  cases origin with
  | action e => exact (Action.ofEndpoint_steady s e _).map
  | trigger e key c =>
    dsimp only [yield, triggerFor]
    split
    · exact .pure _
    · exact (Trigger.ofEndpoint_steady s e key c).map

theorem yield_builds {origin : Origin} {o : Operation} (h : (s.yield origin).Returns o) :
    s.Builds origin o := by
  cases origin with
  | action e =>
    obtain ⟨a, ha, rfl⟩ := returns_map h
    exact .action ha
  | trigger e key c => exact triggerFor_returns h

theorem yield_unique {origin : Origin} {o o' : Operation} (h : (s.yield origin).Returns o)
    (h' : (s.yield origin).Returns o') : o' = o :=
  returns_pure (((yield_steady origin).agree_pure h).returns h')

/-- A hidden trigger that is there already is what its origin yields. -/
theorem yield_hidden {e : Endpoint} {key : String} {c : TriggerConfig} {t : Trigger}
    (hHidden : c.hidden = true) (hFound : s.hidden.lookup key = some t) :
    s.yield (.trigger e key c) = pure (.trigger t) := by
  dsimp only [yield, triggerFor]
  rw [if_pos hHidden, hFound]

/-! ## The walk -/

/-- Emits what an origin yields unless its key is taken. -/
def emitOrigin (s : Surroundings) (p : Progress) (origin : Origin) : Logged Progress :=
  p.emit origin.id.1 origin.id.2 (s.yield origin)

theorem emitOrigin_steady (p : Progress) (origin : Origin) : (s.emitOrigin p origin).Steady := by
  unfold emitOrigin Progress.emit
  split
  · exact .pure _
  · exact (yield_steady origin).bind fun o => .pure _

theorem emitAction_agrees (e : Endpoint) (p : Progress) :
    Agree (s.emitAction e p) (s.emitOrigin p (.action e)) := by
  unfold emitAction
  dsimp only
  split
  · exact agree_after_remark (emitOrigin_steady p (.action e))
  · exact emitOrigin_steady p (.action e)

theorem emitTriggers_eq (e : Endpoint) (p : Progress) : s.emitTriggers e p =
    ((s.config.triggers.filter fun (_, c) => c.endpoint == e.path).map
      fun (key, c) => Origin.trigger e key c).foldlM s.emitOrigin p := by
  rw [List.foldlM_map]
  rfl

theorem emitEndpoint_agrees (p : Progress) (e : Endpoint) :
    Agree (s.emitEndpoint p e) ((s.config.origins e).foldlM s.emitOrigin p) := by
  unfold emitEndpoint GeneratorConfig.origins
  split
  · exact agree_after_remark (Steady.pure p)
  · rw [List.foldlM_cons]
    refine agree_bind (emitAction_agrees e p) fun next _ => ?_
    split
    · rw [emitTriggers_eq]
      exact Steady.foldlM emitOrigin_steady _ _
    · exact Steady.pure next

/-- The walk over endpoints is a walk over their origins. -/
theorem walk_agrees (endpoints : List Endpoint) (p : Progress) :
    Agree (endpoints.foldlM s.emitEndpoint p)
      ((endpoints.flatMap s.config.origins).foldlM s.emitOrigin p) := by
  induction endpoints generalizing p with
  | nil => exact Steady.pure p
  | cons e rest ih =>
    rw [List.foldlM_cons, List.flatMap_cons, List.foldlM_append]
    exact agree_bind (emitEndpoint_agrees p e) fun next _ => ih next

/-- The hidden triggers that come last are a walk over their origins too. -/
theorem emitHidden_agrees {bare : Surroundings} {origins : List Origin}
    {hidden : List (String × Trigger)} (hOrigins : List.Forall₂ bare.IsHidden origins hidden)
    (hFound : ∀ entry ∈ hidden, s.hidden.lookup entry.1 = some entry.2) (p : Progress) :
    Agree (hidden.foldlM (fun p (key, t) => p.emit .trigger key (pure (.trigger t))) p)
      (origins.foldlM s.emitOrigin p) := by
  induction hOrigins generalizing p with
  | nil => exact Steady.pure p
  | cons hFirst _ ih =>
    obtain ⟨hThere, hRest⟩ := List.forall_mem_cons.mp hFound
    rw [List.foldlM_cons, List.foldlM_cons]
    cases hFirst with
    | @intro e key c t _ hHidden _ _ =>
      -- A hidden origin yields the trigger that is registered under its key.
      have hSame : p.emit .trigger key (pure (.trigger t)) = s.emitOrigin p (.trigger e key c) := by
        rw [emitOrigin, yield_hidden hHidden hThere]
        rfl
      dsimp only
      rw [hSame]
      exact agree_bind (emitOrigin_steady p _) fun next _ => ih hRest next

/-- **A walk over origins emits what those yield whose key is free**, in order. -/
theorem emitOrigins_agrees (origins : List Origin) (p : Progress) :
    Agree (origins.foldlM s.emitOrigin p) (do
      let new ← (Origin.firsts p.claimed origins).mapM s.yield
      pure ⟨Origin.claims p.claimed origins, p.operations ++ new⟩) := by
  induction origins generalizing p with
  | nil =>
    rw [Origin.firsts, List.mapM_nil, pure_bind, List.append_nil]
    exact Steady.pure p
  | cons origin rest ih =>
    rw [List.foldlM_cons, emitOrigin, Progress.emit, Origin.claims, Origin.firsts]
    by_cases hTaken : origin.id ∈ p.claimed
    · rw [if_pos (List.contains_iff_mem.mpr hTaken), if_pos hTaken, pure_bind]
      exact ih p
    · rw [if_neg fun h => hTaken (List.contains_iff_mem.mp h), if_neg hTaken, List.mapM_cons]
      simp only [bind_assoc, pure_bind]
      refine agree_bind (yield_steady origin) fun o _ => ?_
      have hRest := ih ⟨origin.id :: p.claimed, p.operations ++ [o]⟩
      -- claims are listed last first
      simpa only [Origin.claims, List.map_cons, List.reverse_cons, List.append_assoc,
        List.singleton_append] using hRest

end Surroundings

/-! ## All operations -/

section

variable {document : ApiDocument} {config : GeneratorConfig} {onlyPath : Option String}
  {hidden : List (String × Trigger)} {selected : List Endpoint} {operations : List Operation}

/-- A hidden trigger is found under its key, if no two triggers are configured under the same key. -/
theorem lookup_hidden (hKeys : (config.triggers.map Prod.fst).Nodup)
    (hEntries : List.Forall₂ (Surroundings.IsHidden ⟨document, config, []⟩)
      (config.hiddenOrigins document) hidden) {entry : String × Trigger} (hEntry : entry ∈ hidden) :
    hidden.lookup entry.1 = some entry.2 := by
  have hSame : (config.hiddenOrigins document).map Origin.id =
      hidden.map fun entry => (OperationKind.trigger, entry.1) := by
    have hIds := hEntries.imp fun origin entry (h : Surroundings.IsHidden _ origin entry) =>
      show origin.id = (OperationKind.trigger, entry.1) by
        cases h
        rfl
    have hEq := List.forall₂_map_left_iff.mpr (List.forall₂_map_right_iff.mpr hIds)
    rwa [List.forall₂_eq_eq_eq] at hEq
  have hDistinct : (hidden.map fun entry => (OperationKind.trigger, entry.1)).Nodup :=
    hSame ▸ nodup_hiddenOrigins hKeys
  obtain ⟨before, after, rfl⟩ := List.append_of_mem hEntry
  rw [List.map_append, List.map_cons] at hDistinct
  refine List.lookup_eq_some_iff.mpr ⟨before, after, rfl, fun other hOther => ?_⟩
  -- an earlier entry with the key would be a second one
  rw [bne_iff_ne]
  intro hKey
  refine (List.nodup_append.mp hDistinct).2.2 _ (List.mem_map_of_mem hOther) _
    List.mem_cons_self ?_
  rw [hKey]

/-- **A compilation in one pass over its origins**: it has the same outcome as building the hidden
triggers, and then what the origins yield whose key is free. -/
theorem compile_agrees (hKeys : (config.triggers.map Prod.fst).Nodup) :
    Agree (compile document config onlyPath) (do
      let hidden ← Surroundings.hiddenTriggers ⟨document, config, []⟩
      let selected ← liftExcept (selectEndpoints document onlyPath)
      (Origin.firsts [] (config.allOrigins document selected)).mapM
        (Surroundings.yield ⟨document, config, hidden⟩)) := by
  unfold compile
  refine agree_bind (Surroundings.hiddenTriggers_steady _) fun hidden hHidden => ?_
  refine agree_bind (Steady.liftExcept _) fun selected _ => ?_
  have hEntries := Surroundings.hiddenTriggers_returns hHidden
  -- the walk over the endpoints and that over the hidden triggers are one walk over all origins
  have hWalk : Agree (do
      let p ← selected.foldlM (Surroundings.emitEndpoint ⟨document, config, hidden⟩) {}
      Surroundings.emitHidden ⟨document, config, hidden⟩ p)
      ((config.allOrigins document selected).foldlM
        (Surroundings.emitOrigin ⟨document, config, hidden⟩) {}) := by
    rw [GeneratorConfig.allOrigins, List.foldlM_append]
    exact agree_bind (Surroundings.walk_agrees selected _) fun p _ =>
      Surroundings.emitHidden_agrees hEntries (fun _ => lookup_hidden hKeys hEntries) p
  have hTail (p : Progress) : Agree (do
      Surroundings.warnUnreachable ⟨document, config, hidden⟩
      Logged.remark .debug ("Compiled " ++ intText p.operations.length ++ " operations")
      pure p.operations) (pure p.operations) :=
    agree_bind (Surroundings.warnUnreachable_agrees _)
      fun _ _ => agree_after_remark (Steady.pure p.operations)
  have hAll := agree_bind (hWalk.trans (Surroundings.emitOrigins_agrees _ _)) fun p _ => hTail p
  simpa only [bind_assoc, pure_bind, List.nil_append, bind_pure] using hAll

/-- How a compilation that returned can be repeated: the hidden triggers that were built, the
endpoints that were selected, and what the origins yielded. -/
structure Yielded (document : ApiDocument) (config : GeneratorConfig) (onlyPath : Option String)
    (hidden : List (String × Trigger)) (selected : List Endpoint) (operations : List Operation) :
    Prop where
  hidden_returns : (Surroundings.hiddenTriggers ⟨document, config, []⟩).Returns hidden
  selected_eq : selectEndpoints document onlyPath = .ok selected
  yields : List.Forall₂
    (fun origin o => (Surroundings.yield ⟨document, config, hidden⟩ origin).Returns o)
    (Origin.firsts [] (config.allOrigins document selected)) operations

theorem yielded_of_returns (hKeys : (config.triggers.map Prod.fst).Nodup)
    (h : (compile document config onlyPath).Returns operations) :
    ∃ hidden selected, Yielded document config onlyPath hidden selected operations := by
  obtain ⟨hidden, hHidden, h⟩ := returns_bind ((compile_agrees hKeys).returns h)
  obtain ⟨selected, hSelected, h⟩ := returns_bind h
  exact ⟨hidden, selected, hHidden, returns_liftExcept hSelected, returns_mapM h⟩

namespace Yielded

theorem compiles (h : Yielded document config onlyPath hidden selected operations) :
    Compiles document config onlyPath hidden selected operations where
  hidden_entries := Surroundings.hiddenTriggers_returns h.hidden_returns
  selected_eq := h.selected_eq
  builds := h.yields.imp fun _ _ => Surroundings.yield_builds

/-- Where every origin whose key is free yields an operation, the compilation returns these. -/
theorem compile_eq (hKeys : (config.triggers.map Prod.fst).Nodup)
    (h : Yielded document config onlyPath hidden selected operations) :
    (compile document config onlyPath).run.1 = .ok operations := by
  refine (Agree.trans (compile_agrees hKeys) ?_ : Agree _ (pure operations)).run_eq
  refine agree_bind_pure ((Surroundings.hiddenTriggers_steady _).agree_pure h.hidden_returns) ?_
  rw [h.selected_eq]
  exact agree_pure_mapM (h.yields.imp fun origin _ hYields =>
    (Surroundings.yield_steady origin).agree_pure hYields)

end Yielded

end

end IntegrationCompiler
