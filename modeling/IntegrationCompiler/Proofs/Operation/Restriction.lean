import IntegrationCompiler.Proofs.Operation.Yields

/-!
# Compiling the endpoints of one path

A compilation can be restricted to one path. No operation depends on what else is compiled, so the
restricted compilation returns whenever the whole one does, and it returns the same operations as far
as they belong to the path; hidden triggers are always there.

* `Origin.firsts_filter` — leaving out origins leaves out their operations and nothing else;
* `Origin.Separates` — kinds of origins that a path tells apart: `separates_isAction`,
  `separates_isVisible`;
* `compile_onlyPath` — the operations of one path.
-/

namespace IntegrationCompiler

open Logged

/-! ## Kinds of operations -/

namespace Operation

/-- Whether an operation is an action. -/
def isAction (o : Operation) : Bool :=
  o.action?.isSome

/-- Whether an operation is a trigger that users see. -/
def isVisibleTrigger (o : Operation) : Bool :=
  o.trigger?.any fun t => !t.hidden

/-- Whether an operation is a trigger that only fills dropdowns. -/
def isHiddenTrigger (o : Operation) : Bool :=
  o.trigger?.any (·.hidden)

end Operation

namespace Origin

/-- The path of the endpoint. -/
def path : Origin → String
  | .action e => e.path
  | .trigger e _ _ => e.path

/-- Whether an action will come of an origin. -/
def isAction : Origin → Bool
  | .action _ => true
  | .trigger .. => false

/-- Whether a trigger that users see will come of an origin. -/
def isVisible : Origin → Bool
  | .action _ => false
  | .trigger _ _ c => !c.hidden

section

variable {origin : Origin} {o : Operation}

theorem Describes.path_eq (h : origin.Describes o) : o.head.path = origin.path := by
  cases origin <;> cases o
  exacts [h.2.1, h.elim, h.elim, h.2.1]

theorem Describes.isAction_eq (h : origin.Describes o) : o.isAction = origin.isAction := by
  cases origin <;> cases o
  exacts [rfl, h.elim, h.elim, rfl]

theorem Describes.isVisible_eq (h : origin.Describes o) :
    o.isVisibleTrigger = origin.isVisible := by
  cases origin <;> cases o
  exacts [rfl, h.elim, h.elim, congrArg (!·) h.2.2]

end

/-! ## Leaving out origins -/

section

variable {claimed claimed' : List (OperationKind × String)} {origins : List Origin}

/-- Claims matter only where an origin has their key. -/
theorem firsts_congr (h : ∀ o ∈ origins, o.id ∈ claimed ↔ o.id ∈ claimed') :
    firsts claimed origins = firsts claimed' origins := by
  induction origins generalizing claimed claimed' with
  | nil => rfl
  | cons o rest ih =>
    obtain ⟨hFirst, hRest⟩ := List.forall_mem_cons.mp h
    rw [firsts, firsts]
    by_cases hTaken : o.id ∈ claimed
    · rw [if_pos hTaken, if_pos (hFirst.mp hTaken)]
      exact ih hRest
    · rw [if_neg hTaken, if_neg fun hTaken' => hTaken (hFirst.mpr hTaken')]
      refine congrArg (o :: ·) (ih fun o' ho' => ?_)
      rw [List.mem_cons, List.mem_cons]
      exact or_congr_right (hRest o' ho')

/-- Of origins with the same key all or none may be left out. -/
theorem firsts_filter {keep : Origin → Bool}
    (hKeep : ∀ o ∈ origins, ∀ o' ∈ origins, o.id = o'.id → keep o = keep o') :
    (firsts claimed origins).filter keep = firsts claimed (origins.filter keep) := by
  induction origins generalizing claimed with
  | nil => rfl
  | cons o rest ih =>
    have hRest (claimed) := @ih claimed fun o ho o' ho' =>
      hKeep o (List.mem_cons_of_mem _ ho) o' (List.mem_cons_of_mem _ ho')
    rw [firsts]
    cases hFirst : keep o with
    | true =>
      rw [List.filter_cons_of_pos hFirst, firsts]
      split
      · exact hRest claimed
      · rw [List.filter_cons_of_pos hFirst, hRest]
    | false =>
      have hOut : ¬ keep o = true := by rw [hFirst]; exact Bool.false_ne_true
      rw [List.filter_cons_of_neg hOut]
      split
      · exact hRest claimed
      · -- the key that is claimed here belongs to none of those that are kept
        rw [List.filter_cons_of_neg hOut, hRest]
        refine firsts_congr fun o' ho' => ?_
        obtain ⟨hMem, hIn⟩ := List.mem_filter.mp ho'
        rw [List.mem_cons]
        refine or_iff_right fun hSame => hOut ?_
        rw [← hKeep o' (List.mem_cons_of_mem _ hMem) o List.mem_cons_self hSame]
        exact hIn

end

end Origin

/-! ## Origins at one path -/

section

variable {document : ApiDocument} {config : GeneratorConfig} {p : String}

/-- The endpoints with a path. -/
def ApiDocument.endpointsAt (document : ApiDocument) (p : String) : List Endpoint :=
  document.endpoints.filter (·.path == p)

theorem path_of_mem_origins {e : Endpoint} {origin : Origin} (h : origin ∈ config.origins e) :
    origin.path = e.path := by
  obtain ⟨-, rfl | ⟨-, key, c, -, -, rfl⟩⟩ := mem_origins.mp h <;> rfl

/-- Whether the origins of a kind can be told apart by their paths: none of them is a hidden trigger,
and those with the same key have the same path. -/
structure Origin.Separates (document : ApiDocument) (config : GeneratorConfig)
    (keep : Origin → Bool) : Prop where
  not_hidden : ∀ o ∈ config.hiddenOrigins document, keep o = false
  path_eq : ∀ o ∈ config.allOrigins document document.endpoints,
    ∀ o' ∈ config.allOrigins document document.endpoints, o.id = o'.id →
      keep o = keep o' ∧ (keep o = true → o.path = o'.path)

theorem separates_isAction (hActions : (document.endpoints.map Endpoint.actionKey).Nodup) :
    Origin.Separates document config Origin.isAction where
  not_hidden o ho := by
    obtain ⟨e, key, c, rfl, -⟩ := mem_hiddenOrigins ho
    rfl
  path_eq o ho o' ho' hSame := by
    cases o with
    | trigger e key c =>
      cases o' with
      | action e' => cases hSame
      | trigger e' key' c' => exact ⟨rfl, nofun⟩
    | action e =>
      cases o' with
      | trigger e' key' c' => cases hSame
      | action e' =>
        refine ⟨rfl, fun _ => congrArg Endpoint.path ?_⟩
        exact List.inj_on_of_nodup_map hActions (action_mem_allOrigins.mp ho).1
          (action_mem_allOrigins.mp ho').1 (congrArg Prod.snd hSame)

theorem separates_isVisible (hKeys : (config.triggers.map Prod.fst).Nodup) :
    Origin.Separates document config Origin.isVisible where
  not_hidden o ho := by
    obtain ⟨e, key, c, rfl, -, hHidden, -⟩ := mem_hiddenOrigins ho
    exact congrArg (!·) hHidden
  path_eq o ho o' ho' hSame := by
    cases o with
    | action e =>
      cases o' with
      | action e' => exact ⟨rfl, nofun⟩
      | trigger e' key' c' => cases hSame
    | trigger e key c =>
      cases o' with
      | action e' => cases hSame
      | trigger e' key' c' =>
        -- Two triggers with one key have one configuration, which names the path.
        cases hSame
        obtain ⟨hMem, hPath, -⟩ := of_trigger_mem_allOrigins (fun _ he => he) ho
        obtain ⟨hMem', hPath', -⟩ := of_trigger_mem_allOrigins (fun _ he => he) ho'
        cases eq_of_mem_triggers hKeys hMem hMem'
        exact ⟨rfl, fun _ => hPath.trans hPath'.symm⟩

/-- Restricting the walk to a path leaves the origins at the path. -/
theorem filter_walk (keep : Origin → Bool) (endpoints : List Endpoint) :
    ((endpoints.filter (·.path == p)).flatMap config.origins).filter keep =
      (endpoints.flatMap config.origins).filter fun o => keep o && o.path == p := by
  induction endpoints with
  | nil => rfl
  | cons e rest ih =>
    rw [List.flatMap_cons, List.filter_append, ← ih, List.filter_cons]
    by_cases hPath : e.path = p
    · rw [if_pos (beq_iff_eq.mpr hPath), List.flatMap_cons, List.filter_append]
      refine congrArg (· ++ _) (List.filter_congr fun o ho => ?_)
      rw [path_of_mem_origins ho, beq_iff_eq.mpr hPath, Bool.and_true]
    -- An endpoint elsewhere has no origin at the path.
    · rw [if_neg fun h => hPath (eq_of_beq h)]
      have hNone : (config.origins e).filter (fun o => keep o && o.path == p) = [] :=
        List.filter_eq_nil_iff.mpr fun o ho hKept => by
          rw [path_of_mem_origins ho, Bool.and_eq_true] at hKept
          exact hPath (eq_of_beq hKept.2)
      rw [hNone, List.nil_append]

theorem filter_allOrigins {keep : Origin → Bool} (hKeep : Origin.Separates document config keep) :
    (config.allOrigins document (document.endpointsAt p)).filter keep =
      (config.allOrigins document document.endpoints).filter fun o => keep o && o.path == p := by
  have hTail (rule : Origin → Bool) (hRule : ∀ o, rule o = true → keep o = true) :
      (config.hiddenOrigins document).filter rule = [] :=
    List.filter_eq_nil_iff.mpr fun o ho hIn =>
      Bool.false_ne_true ((hKeep.not_hidden o ho).symm.trans (hRule o hIn))
  unfold GeneratorConfig.allOrigins
  rw [List.filter_append, List.filter_append, hTail _ fun _ h => h,
    hTail _ fun _ h => (Bool.and_eq_true _ _ ▸ h).1, List.append_nil, List.append_nil]
  exact filter_walk keep _

/-- Of the origins whose key is free, those at the path stay. -/
theorem filter_firsts {keep : Origin → Bool} (hKeep : Origin.Separates document config keep) :
    (Origin.firsts [] (config.allOrigins document (document.endpointsAt p))).filter keep =
      (Origin.firsts [] (config.allOrigins document document.endpoints)).filter
        fun o => keep o && o.path == p := by
  have hSubset : ∀ o ∈ config.allOrigins document (document.endpointsAt p),
      o ∈ config.allOrigins document document.endpoints :=
    allOrigins_subset fun e he => List.mem_of_mem_filter he
  rw [Origin.firsts_filter fun o ho o' ho' hSame =>
      (hKeep.path_eq o (hSubset o ho) o' (hSubset o' ho') hSame).1,
    Origin.firsts_filter fun o ho o' ho' hSame => ?_, filter_allOrigins hKeep]
  obtain ⟨hEq, hPath⟩ := hKeep.path_eq o ho o' ho' hSame
  rw [← hEq]
  cases hKept : keep o with
  | true => rw [hPath hKept]
  | false => rfl

end

/-! ## Operations at one path -/

section

variable {document : ApiDocument} {config : GeneratorConfig} {p : String}
  {onlyPath : Option String} {hidden : List (String × Trigger)} {selected : List Endpoint}
  {operations restricted : List Operation}

theorem exists_forall₂ {α β : Type} {R : α → β → Prop} {as : List α} (h : ∀ a ∈ as, ∃ b, R a b) :
    ∃ bs, List.Forall₂ R as bs := by
  induction as with
  | nil => exact ⟨[], .nil⟩
  | cons a rest ih =>
    obtain ⟨hFirst, hRest⟩ := List.forall_mem_cons.mp h
    obtain ⟨b, hb⟩ := hFirst
    obtain ⟨bs, hbs⟩ := ih hRest
    exact ⟨b :: bs, .cons hb hbs⟩

theorem filter_forall₂ {α β : Type} {R : α → β → Prop} {p : α → Bool} {q : β → Bool}
    (hSame : ∀ a b, R a b → q b = p a) {as : List α} {bs : List β} (h : List.Forall₂ R as bs) :
    List.Forall₂ R (as.filter p) (bs.filter q) :=
  List.rel_filter (fun a b hR => show p a = true ↔ q b = true by rw [hSame a b hR]) h

namespace Yielded

theorem mem_hidden (hKeys : (config.triggers.map Prod.fst).Nodup)
    (h : Yielded document config onlyPath hidden selected operations) {e : Endpoint}
    {key : String} {c : TriggerConfig} (hHidden : c.hidden = true)
    (hMem : .trigger e key c ∈ config.allOrigins document selected) :
    ∃ t, (key, t) ∈ hidden ∧
      Surroundings.yield ⟨document, config, hidden⟩ (.trigger e key c) = pure (.trigger t) := by
  obtain ⟨hConfigured, hPath, hPolled⟩ :=
    of_trigger_mem_allOrigins (selectEndpoints_subset h.selected_eq) hMem
  rw [TriggerConfig.IsPolled, if_pos hHidden] at hPolled
  obtain ⟨e', he', hPath', hGet⟩ := hPolled
  -- The registry holds the trigger of the first endpoint at its path that can be polled.
  obtain ⟨first, hFirst⟩ := endpoint?_isSome he' hPath' hGet
  have hOrigin : .trigger first key c ∈ config.hiddenOrigins document := by
    refine List.mem_filterMap.mpr ⟨(key, c), hConfigured, ?_⟩
    dsimp only
    rw [if_pos hHidden, hFirst, Option.map_some]
  obtain ⟨entry, hEntry, hIsHidden⟩ := exists_right_of_mem h.compiles.hidden_entries hOrigin
  cases hIsHidden with
  | @intro _ _ _ t =>
    exact ⟨t, hEntry, Surroundings.yield_hidden hHidden
      (lookup_hidden hKeys h.compiles.hidden_entries hEntry)⟩

theorem describes (hKeys : (config.triggers.map Prod.fst).Nodup)
    (h : Yielded document config onlyPath hidden selected operations) :
    List.Forall₂ (fun origin o => Origin.Describes origin o ∧
      (Surroundings.yield ⟨document, config, hidden⟩ origin).Returns o)
      (Origin.firsts [] (config.allOrigins document selected)) operations := by
  refine ((List.forall₂_and_left _ _).mpr ⟨fun origin hOrigin => hOrigin, h.yields⟩).imp
    fun origin o hBoth => ⟨?_, hBoth.2⟩
  exact h.compiles.describes hKeys (Origin.mem_of_mem_firsts hBoth.1).1
    (Surroundings.yield_builds hBoth.2)

/-- The hidden triggers among the operations are those that were built before all others. -/
theorem mem_hidden_iff (hKeys : (config.triggers.map Prod.fst).Nodup)
    (h : Yielded document config onlyPath hidden selected operations) {o : Operation} :
    o ∈ operations.filter (·.isHiddenTrigger) ↔ ∃ entry ∈ hidden, o = .trigger entry.2 := by
  rw [List.mem_filter]
  constructor
  · rintro ⟨ho, hHidden⟩
    obtain ⟨origin, hOrigin, hDescribes, hYields⟩ := exists_left_of_mem (h.describes hKeys) ho
    have hMem := (Origin.mem_of_mem_firsts hOrigin).1
    cases o with
    | action a => cases hHidden
    | trigger t =>
      cases origin with
      | action e => exact hDescribes.elim
      | trigger e key c =>
        obtain ⟨t', hEntry, hYield⟩ := h.mem_hidden hKeys (hDescribes.2.2.symm.trans hHidden) hMem
        rw [hYield] at hYields
        exact ⟨(key, t'), hEntry, returns_pure hYields⟩
  · rintro ⟨entry, hEntry, rfl⟩
    obtain ⟨c, e, hConfigured, hHidden, hEndpoint, -, -, hFlag, -⟩ :=
      h.compiles.of_mem_hidden hEntry
    refine ⟨?_, hFlag⟩
    -- the origin that has the key may come from another endpoint, but yields the same
    have hPolled : c.IsPolled config document selected := by
      rw [TriggerConfig.IsPolled, if_pos hHidden]
      exact ⟨e, endpoint?_eq_some hEndpoint⟩
    obtain ⟨e', hMem⟩ := trigger_mem_allOrigins hConfigured hPolled
    have hKept := Origin.mem_ids_firsts.mpr ⟨List.mem_map_of_mem hMem, List.not_mem_nil⟩
    obtain ⟨origin, hOrigin, hSame⟩ := List.mem_map.mp hKept
    obtain ⟨o, ho, -, hYields⟩ := exists_right_of_mem (h.describes hKeys) hOrigin
    have hMem' := (Origin.mem_of_mem_firsts hOrigin).1
    cases origin with
    | action => cases hSame
    | trigger e'' key c' =>
      cases hSame
      obtain ⟨hConfigured', -⟩ :=
        of_trigger_mem_allOrigins (selectEndpoints_subset h.selected_eq) hMem'
      cases eq_of_mem_triggers hKeys hConfigured hConfigured'
      obtain ⟨t, hEntry', hYield⟩ := h.mem_hidden hKeys hHidden hMem'
      rw [hYield] at hYields
      have hFirst := lookup_hidden hKeys h.compiles.hidden_entries hEntry
      have hSecond : hidden.lookup entry.1 = some t :=
        lookup_hidden hKeys h.compiles.hidden_entries hEntry'
      cases Option.some.inj (hSecond.symm.trans hFirst)
      rwa [← returns_pure hYields]

/-- Every origin of the restricted compilation yields an operation if the whole one returned. -/
theorem exists_restricted (hKeys : (config.triggers.map Prod.fst).Nodup)
    (hActions : (document.endpoints.map Endpoint.actionKey).Nodup)
    (h : Yielded document config none hidden document.endpoints operations)
    (hPath : ∃ e ∈ document.endpoints, e.path = p) :
    ∃ restricted, Yielded document config (some p) hidden (document.endpointsAt p) restricted := by
  have hSelected : selectEndpoints document (some p) = .ok (document.endpointsAt p) := by
    obtain ⟨e, he, hSame⟩ := hPath
    refine if_neg fun hNone => ?_
    exact List.filter_eq_nil_iff.mp (List.isEmpty_iff.mp hNone) e he (beq_iff_eq.mpr hSame)
  -- an origin that is told apart by the path is one of the whole compilation
  have hKept {keep : Origin → Bool} (hKeep : Origin.Separates document config keep)
      {origin : Origin} (hIn : keep origin = true)
      (hOrigin : origin ∈ Origin.firsts [] (config.allOrigins document (document.endpointsAt p))) :
      ∃ o, (Surroundings.yield ⟨document, config, hidden⟩ origin).Returns o := by
    have hMem := List.mem_filter.mpr ⟨hOrigin, hIn⟩
    rw [filter_firsts hKeep] at hMem
    obtain ⟨o, -, hYields⟩ := exists_right_of_mem h.yields (List.mem_of_mem_filter hMem)
    exact ⟨o, hYields⟩
  have hEach : ∀ origin ∈ Origin.firsts [] (config.allOrigins document (document.endpointsAt p)),
      ∃ o, (Surroundings.yield ⟨document, config, hidden⟩ origin).Returns o := by
    intro origin hOrigin
    cases origin with
    | action e => exact hKept (separates_isAction hActions) rfl hOrigin
    | trigger e key c =>
      cases hHidden : c.hidden with
      | false => exact hKept (separates_isVisible hKeys) (congrArg (!·) hHidden) hOrigin
      | true =>
        have hMem := allOrigins_subset (fun e he => List.mem_of_mem_filter he) _
          (Origin.mem_of_mem_firsts hOrigin).1
        obtain ⟨t, -, hYield⟩ := h.mem_hidden hKeys hHidden hMem
        rw [hYield]
        exact ⟨_, [], rfl⟩
  obtain ⟨restricted, hYields⟩ := exists_forall₂ hEach
  exact ⟨restricted, h.hidden_returns, hSelected, hYields⟩

/-- Operations of a kind that the path tells apart are the same in both compilations. -/
theorem filter_restricted (hKeys : (config.triggers.map Prod.fst).Nodup)
    (h : Yielded document config none hidden document.endpoints operations)
    (hOne : Yielded document config (some p) hidden (document.endpointsAt p) restricted)
    {keep : Origin → Bool} (hKeep : Origin.Separates document config keep)
    {shows : Operation → Bool}
    (hShows : ∀ origin o, Origin.Describes origin o → shows o = keep origin) :
    restricted.filter shows = operations.filter fun o => shows o && o.head.path == p := by
  have hLeft := filter_forall₂ (fun origin o hBoth => hShows origin o hBoth.1)
    (hOne.describes hKeys)
  have hRight := filter_forall₂ (p := fun origin => keep origin && origin.path == p)
    (q := fun o => shows o && o.head.path == p)
    (fun origin o hBoth => by rw [hShows origin o hBoth.1, hBoth.1.path_eq]) (h.describes hKeys)
  rw [filter_firsts hKeep] at hLeft
  -- an origin yields one operation only
  have hUnique : Relator.RightUnique fun (origin : Origin) (o : Operation) =>
      origin.Describes o ∧
        (Surroundings.yield ⟨document, config, hidden⟩ origin).Returns o :=
    fun _ _ _ ho ho' => Surroundings.yield_unique ho'.2 ho.2
  exact hUnique.forall₂ hLeft hRight

end Yielded

/-- **The operations of one path.** If the whole document compiles and its actions have different
keys, then its endpoints at a path compile alone: to the same actions and visible triggers, in the
same order, as far as they belong to the path, and to the same hidden triggers. Triggers are
configured in a mapping, so their keys are all different. -/
theorem compile_onlyPath (hKeys : (config.triggers.map Prod.fst).Nodup)
    (hActions : (document.endpoints.map Endpoint.actionKey).Nodup)
    (hPath : ∃ e ∈ document.endpoints, e.path = p)
    (h : (compile document config none).run.1 = .ok operations) :
    ∃ restricted, (compile document config (some p)).run.1 = .ok restricted ∧
      restricted.filter (·.isAction) =
        operations.filter (fun o => o.isAction && o.head.path == p) ∧
      restricted.filter (·.isVisibleTrigger) =
        operations.filter (fun o => o.isVisibleTrigger && o.head.path == p) ∧
      (restricted.filter (·.isHiddenTrigger)).Perm (operations.filter (·.isHiddenTrigger)) := by
  obtain ⟨hidden, selected, hAll⟩ := yielded_of_returns hKeys (returns_of_run h)
  cases hAll.selected_eq
  obtain ⟨restricted, hOne⟩ := hAll.exists_restricted hKeys hActions hPath
  refine ⟨restricted, hOne.compile_eq hKeys,
    hAll.filter_restricted hKeys hOne (separates_isAction hActions) fun _ _ => (·.isAction_eq),
    hAll.filter_restricted hKeys hOne (separates_isVisible hKeys) fun _ _ => (·.isVisible_eq), ?_⟩
  rw [List.perm_ext_iff_of_nodup (hOne.compiles.nodup_ids.of_map.filter _)
    (hAll.compiles.nodup_ids.of_map.filter _)]
  intro o
  rw [hOne.mem_hidden_iff hKeys, hAll.mem_hidden_iff hKeys]

/-- Every endpoint becomes an action as it is, and the same triggers are configured. -/
def plainActions : GeneratorConfig where
  triggers := chosenUsers.triggers

/-- Alone, an endpoint meets its own hidden trigger first. -/
theorem compile_onlyPath_tasksAndUsers : ∃ operations restricted,
    (compile tasksAndUsers plainActions none).run.1 = .ok operations ∧
    operations.map Operation.id = [(.action, "list_tasks"), (.trigger, "new_task"),
      (.trigger, "notes"), (.action, "add_tasks"), (.action, "list_users"), (.trigger, "users")] ∧
    (compile tasksAndUsers plainActions (some "/users")).run.1 = .ok restricted ∧
    restricted.map Operation.id = [(.action, "list_users"), (.trigger, "users"),
      (.trigger, "notes")] ∧
    restricted.filter (·.isAction) =
      operations.filter (fun o => o.isAction && o.head.path == "/users") ∧
    restricted.filter (·.isVisibleTrigger) =
      operations.filter (fun o => o.isVisibleTrigger && o.head.path == "/users") ∧
    (restricted.filter (·.isHiddenTrigger)).Perm (operations.filter (·.isHiddenTrigger)) := by
  obtain ⟨operations, h, hIds⟩ : ∃ operations,
      (compile tasksAndUsers plainActions none).run.1 = .ok operations ∧
      operations.map Operation.id = [(.action, "list_tasks"), (.trigger, "new_task"),
        (.trigger, "notes"), (.action, "add_tasks"), (.action, "list_users"),
        (.trigger, "users")] :=
    ⟨_, by with_unfolding_all rfl, by with_unfolding_all rfl⟩
  obtain ⟨alone, hAlone, hAloneIds⟩ : ∃ alone,
      (compile tasksAndUsers plainActions (some "/users")).run.1 = .ok alone ∧
      alone.map Operation.id = [(.action, "list_users"), (.trigger, "users"),
        (.trigger, "notes")] :=
    ⟨_, by with_unfolding_all rfl, by with_unfolding_all rfl⟩
  obtain ⟨restricted, hRestricted, hSame⟩ := compile_onlyPath (by decide) (by decide)
    ⟨{ path := "/users", method := .get, operationId := some "list_users" },
      by simp [tasksAndUsers], rfl⟩ h
  cases Except.ok.inj (hRestricted.symm.trans hAlone)
  exact ⟨operations, alone, h, hIds, hAlone, hAloneIds, hSame⟩

end

end IntegrationCompiler
