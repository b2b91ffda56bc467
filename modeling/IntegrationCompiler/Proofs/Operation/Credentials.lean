import IntegrationCompiler.Proofs.Operation.Samples
import IntegrationCompiler.Proofs.Response.Nested

/-!
# Credentials in samples

The entries of a sample that name credentials are left out; objects inside it are shown as they are.
So a key that names a credential can stand inside a sample, but no stage puts one there: it stood
inside the payload, or inside a configured default that was put beside a flattened item.

* `Draft.refine_nestsKey` — what the stages put inside a sample was inside it or inside a default;
* `credentials_in_samples` — where a key in a sample that names a credential comes from.
-/

namespace IntegrationCompiler

open Value Logged

/-! ## Hidden keys -/

mutual

theorem Value.HasKey.of_dropKeys {k : Scalar} {names : List String} :
    ∀ {v : Value}, HasKey k (v.dropKeys names) → HasKey k v
  | .map es, h => by
    rw [Value.dropKeys] at h
    exact h.subset (List.filter_subset_self _)
  | .list items, h => by
    rw [Value.dropKeys, hasKey_list_iff] at h
    exact hasKey_list_iff.mpr (Value.exists_hasKey_of_dropKeysOfItems h)
  | .set _, h => h
  | .scalar _, h => h

theorem Value.exists_hasKey_of_dropKeysOfItems {k : Scalar} {names : List String} :
    ∀ {items : List Value}, (∃ v ∈ Value.dropKeysOfItems names items, HasKey k v) →
      ∃ v ∈ items, HasKey k v
  | [], h => h
  | first :: rest, h => by
    rw [Value.dropKeysOfItems] at h
    obtain ⟨v, hMem, hKey⟩ := h
    rcases List.mem_cons.mp hMem with rfl | hRest
    · exact ⟨first, List.mem_cons_self, hKey.of_dropKeys⟩
    · obtain ⟨w, hw, hKey⟩ := Value.exists_hasKey_of_dropKeysOfItems ⟨v, hRest, hKey⟩
      exact ⟨w, List.mem_cons_of_mem _ hw, hKey⟩

end

theorem Value.NestsKey.of_dropKeys {k : Scalar} {names : List String} {v : Value}
    (h : NestsKey k (v.dropKeys names)) : NestsKey k v := by
  cases v with
  | map es => exact h.subset (List.filter_subset_self _)
  | list items =>
    have hItems : HasKey k (.list items) := HasKey.of_dropKeys h.hasKey
    obtain ⟨v, hv, hKey⟩ := hasKey_list_iff.mp hItems
    exact .item hv hKey
  | set members => cases h
  | scalar s => cases h

/-! ## Stages -/

namespace Draft

variable {scope : Scope} {d d' : Draft} {k : Scalar}

/-- The item in its group was inside the sample, and what stands beside it was an entry of the sample
or is a default. -/
theorem nestsKey_regroupSample {arrayField group : String} {itemNames kept : List String}
    {sample : Value}
    (h : NestsKey k (regroupSample scope arrayField group itemNames kept sample)) :
    NestsKey k sample ∨ ∃ e ∈ scope.config.fieldDefaults, HasKey k e.2 := by
  unfold regroupSample at h
  split at h
  · next es =>
    split at h
    · next first rest hList =>
      revert h
      refine List.foldlRecOn kept _ (motive := fun (acc : Entries) => NestsKey k (.map acc) →
        NestsKey k (.map es) ∨ ∃ e ∈ scope.config.fieldDefaults, HasKey k e.2) ?_ ?_
      · intro h
        have hItem : HasKey k (.map first) := by
          obtain ⟨e, he, hKey⟩ := nestsKey_map_iff.mp h
          obtain rfl := List.mem_singleton.mp he
          exact hKey.subset (List.filter_subset_self _)
        rcases getOrNull_eq_null_or_mem es arrayField with hNull | hMem
        · cases hNull.symm.trans hList
        · rw [hList] at hMem
          exact .inl (.entry hMem (hasKey_list_iff.mpr ⟨_, List.mem_cons_self, hItem⟩))
      · intro acc ih name _ h
        split at h
        · next v hFound =>
          rcases h.of_set with hNew | hOld
          · rcases Option.or_eq_some_iff.mp hFound with hOwn | ⟨-, hDefault⟩
            · exact .inl (.entry (Entries.get?_eq_some_mem hOwn) hNew)
            · exact .inr ⟨_, Entries.get?_eq_some_mem hDefault, hNew⟩
          · exact ih hOld
        · exact ih h
    · exact .inl h
  · exact .inl h

theorem apply_nestsKey {stage : Stage} (h : (stage.apply scope d).Returns d')
    (hKey : NestsKey k d'.sample) :
    NestsKey k d.sample ∨ ∃ e ∈ scope.config.fieldDefaults, HasKey k e.2 := by
  cases stage with
  | visibility =>
    rw [returns_pure h] at hKey
    unfold hide at hKey
    dsimp only at hKey
    split at hKey
    · exact .inl hKey
    · exact .inl hKey.of_dropKeys
  | flattening =>
    rcases apply_flattening_returns h with ⟨config, additional, -, hFlatten⟩ | ⟨-, rfl⟩
    · obtain ⟨kept, itemFields, _, _, _, -, -, -, -, rfl⟩ := flatten_returns hFlatten
      dsimp only at hKey
      unfold flattenedSample at hKey
      split at hKey
      · exact nestsKey_regroupSample hKey
      · exact .inl hKey
    · exact .inl hKey
  | helpers =>
    obtain ⟨a, -, rfl⟩ := addHelpers_returns h
    exact .inl hKey
  | dropdowns =>
    obtain ⟨bound, -, rfl⟩ := bindDropdowns_returns h
    exact .inl hKey
  | defaults =>
    refine .inl ?_
    have hSame : d'.sample = d.sample := by
      refine addDefaults_invariant (I := fun e => e.sample = d.sample) rfl ?_ h
      intro _ _ e e' he hStep
      rcases setDefault_returns hStep with rfl | ⟨_, rfl⟩ | rfl <;> exact he
    rwa [← hSame]

/-- The stages put nothing inside a sample but what was inside it or is inside a default. -/
theorem refine_nestsKey (h : (d.refine scope).Returns d') (hKey : NestsKey k d'.sample) :
    NestsKey k d.sample ∨ ∃ e ∈ scope.config.fieldDefaults, HasKey k e.2 := by
  refine refine_invariant (I := fun e => NestsKey k e.sample →
    NestsKey k d.sample ∨ ∃ e ∈ scope.config.fieldDefaults, HasKey k e.2) .inl ?_ h hKey
  intro stage e e' he hStage hAfter
  rcases apply_nestsKey hStage hAfter with hBefore | hDefault
  · exact he hBefore
  · exact .inr hDefault

end Draft

/-! ## Operations -/

section

variable {s : Surroundings} {e : Endpoint} {key : String} {k : Scalar}

theorem Action.ofEndpoint_nestsKey {a : Action} (h : (Action.ofEndpoint s e key).Returns a)
    (hKey : NestsKey k (.map a.head.sample)) :
    (∃ payload, sampleOf e.successResponse? = .ok payload ∧ NestsKey k payload) ∨
      ∃ default ∈ (s.config.action key).fieldDefaults, HasKey k default.2 := by
  unfold ofEndpoint at h
  dsimp only at h
  obtain ⟨fields, -, h⟩ := returns_bind h
  obtain ⟨request, -, h⟩ := returns_bind h
  obtain ⟨response, -, h⟩ := returns_bind h
  split at h
  all_goals
    obtain ⟨raw, hRaw, h⟩ := returns_bind h
    obtain ⟨d, hd, h⟩ := returns_bind h
    obtain ⟨sample, hSample, h⟩ := returns_bind h
    cases returns_pure h
  · -- an action without content has a flat sample of its own
    cases returns_pure hSample
    simp [noContentSample] at hKey
  · have hShown := actionSample_nestsKey (returns_liftExcept hSample) hKey
    rcases Draft.refine_nestsKey hd hShown with hPayload | hDefault
    · exact .inl ⟨raw, returns_liftExcept hRaw, hPayload⟩
    · exact .inr hDefault

theorem Trigger.ofEndpoint_nestsKey {c : TriggerConfig} {t : Trigger}
    (h : (Trigger.ofEndpoint s e key c).Returns t) (hKey : NestsKey k (.map t.head.sample)) :
    ∃ payload, sampleOf e.successResponse? = .ok payload ∧ NestsKey k payload := by
  obtain ⟨-, raw, hRaw, hSample⟩ := ofEndpoint_shows h
  exact ⟨raw, hRaw, triggerSample_nestsKey hSample hKey⟩

end

/-- **Where credentials in samples come from.** No key of the sample of an operation names a
credential. If a key does that stands in an object inside the sample, such as the item of a group,
it stood in an object inside the payload of the endpoint, or stands in a default that is configured
for the action. -/
theorem credentials_in_samples {document : ApiDocument} {config : GeneratorConfig}
    {onlyPath : Option String} {operations : List Operation}
    (h : (compile document config onlyPath).run.1 = .ok operations) :
    ∀ o ∈ operations, WithoutCredentials o.head.sample ∧
      ∃ e ∈ document.endpoints, e.path = o.head.path ∧ e.method = o.head.request.method ∧
        ∀ key, NamesCredential key → HasKey (.str key) (.map o.head.sample) →
          (∃ payload, sampleOf e.successResponse? = .ok payload ∧ NestsKey (.str key) payload) ∨
          (o.kind = .action ∧
            ∃ default ∈ (config.action o.key).fieldDefaults, HasKey (.str key) default.2) := by
  obtain ⟨hidden, selected, hCompiles⟩ := compile_returns (returns_of_run h)
  have hSelected := selectEndpoints_subset hCompiles.selected_eq
  -- a key that names a credential is none of the sample itself
  have hInside {sample : Entries} {key : String} (hSample : WithoutCredentials sample)
      (hNames : NamesCredential key) (hKey : HasKey (.str key) (.map sample)) :
      NestsKey (.str key) (.map sample) := by
    rcases hasKey_map_iff.mp hKey with ⟨v, hMem⟩ | hNested
    · obtain ⟨shown, hSame, hOther⟩ := hSample _ hMem
      cases hSame
      exact absurd hNames hOther
    · exact hNested
  refine hCompiles.forall_operations (fun e a hOrigin ha => ?_) (fun hidden e key c t hOrigin ht => ?_)
  · have hSample := (Action.ofEndpoint_presentable ha).keys
    obtain ⟨hKey, hPath, hMethod⟩ := Action.ofEndpoint_head ha
    refine ⟨hSample, e, hSelected e (action_mem_allOrigins.mp hOrigin).1, hPath.symm,
      hMethod.symm, fun key hNames hHas => ?_⟩
    rcases Action.ofEndpoint_nestsKey ha (hInside hSample hNames hHas) with hPayload | hDefault
    · exact .inl hPayload
    · refine .inr ⟨rfl, ?_⟩
      show ∃ default ∈ (config.action a.head.key).fieldDefaults, HasKey (.str key) default.2
      rw [hKey]
      exact hDefault
  · have hSample := (Trigger.ofEndpoint_presentable ht).1.keys
    obtain ⟨-, hPath, hMethod, -⟩ := Trigger.ofEndpoint_returns ht
    refine ⟨hSample, e, mem_endpoints_of_trigger hSelected hOrigin, hPath.symm, hMethod.symm,
      fun key hNames hHas => .inl ?_⟩
    exact Trigger.ofEndpoint_nestsKey ht (hInside hSample hNames hHas)

/-- Members of an organization, whose tokens are shown where one is looked up and where some are
invited. -/
def members : ApiDocument where
  endpoints := [{
    path := "/members"
    method := .get
    operationId := some "find_member"
    responses := [("200", { statusCode := "200", examples := [
      (.str "one", .object [
        ("token", .str "t"),
        ("user", .object [("name", .str "Ada"), ("api_key", .str "k")])])] })] }, {
    path := "/members"
    method := .post
    operationId := some "invite_members"
    requestBody := some { schema := some [(.str "properties", .object [
      ("members", .object [("type", .str "array")])])] }
    responses := [("200", { statusCode := "200", examples := [
      (.str "one", .object [
        ("members", .list [.object [("name", .str "Ada"), ("token", .str "t")]])])] })] }]
  schemas := [(.str "Member", .object [("properties", .object [
    ("name", .object [("type", .str "string")]),
    ("token", .object [("type", .str "string")])])])]

/-- Members are invited one by one. -/
def oneMemberAtATime : GeneratorConfig where
  actions := [("invite_members", {
    simplify := some {
      enabled := true
      flattenArray := some
        { arrayField := "members", itemSchema := "Member", publicName := some "Member" } } })]

/-- The token beside a user is left out, the key of the user and the token of a member in its group
are not. -/
theorem credentials_inside_samples_members : ∃ operations,
    (compile members oneMemberAtATime none).run.1 = .ok operations ∧
    (operations.map fun o => (o.key, o.head.sample)) = [
      ("find_member", [(.str "user", .object [("name", .str "Ada"), ("api_key", .str "k")])]),
      ("invite_members", [(.str "member", .object [("name", .str "Ada"), ("token", .str "t")])])] ∧
    ∀ o ∈ operations, ∃ key, NamesCredential key ∧ HasKey (.str key) (.map o.head.sample) := by
  obtain ⟨operations, h, hSamples⟩ : ∃ operations,
      (compile members oneMemberAtATime none).run.1 = .ok operations ∧
      (operations.map fun o => (o.key, o.head.sample)) = [
        ("find_member", [(.str "user", .object [("name", .str "Ada"), ("api_key", .str "k")])]),
        ("invite_members",
          [(.str "member", .object [("name", .str "Ada"), ("token", .str "t")])])] :=
    ⟨_, by with_unfolding_all rfl, by with_unfolding_all rfl⟩
  refine ⟨operations, h, hSamples, fun o ho => ?_⟩
  have hShown := List.mem_map_of_mem (f := fun o : Operation => (o.key, o.head.sample)) ho
  rw [hSamples, List.mem_cons, List.mem_singleton] at hShown
  rcases hShown with hUser | hMember
  · refine ⟨"api_key", (isSensitive_iff _).mp (by decide), ?_⟩
    rw [(Prod.mk.inj hUser).2]
    simp [hasKey_map_iff, Value.object]
  · refine ⟨"token", (isSensitive_iff _).mp (by decide), ?_⟩
    rw [(Prod.mk.inj hMember).2]
    simp [hasKey_map_iff, Value.object]

/-- Both keys that are shown stood inside the payloads. -/
theorem credentials_in_samples_members : ∃ operations,
    (compile members oneMemberAtATime none).run.1 = .ok operations ∧
    ∀ o ∈ operations, WithoutCredentials o.head.sample ∧
      ∃ e ∈ members.endpoints, e.path = o.head.path ∧ e.method = o.head.request.method ∧
        ∀ key, NamesCredential key → HasKey (.str key) (.map o.head.sample) →
          ∃ payload, sampleOf e.successResponse? = .ok payload ∧ NestsKey (.str key) payload := by
  obtain ⟨operations, h⟩ : ∃ operations,
      (compile members oneMemberAtATime none).run.1 = .ok operations :=
    ⟨_, by with_unfolding_all rfl⟩
  refine ⟨operations, h, fun o ho => ?_⟩
  obtain ⟨hSample, e, he, hPath, hMethod, hSource⟩ := credentials_in_samples h o ho
  refine ⟨hSample, e, he, hPath, hMethod, fun key hNames hKey => ?_⟩
  rcases hSource key hNames hKey with hPayload | ⟨-, hDefault⟩
  · exact hPayload
  · -- no action is configured with defaults
    have hNone : (oneMemberAtATime.action o.key).fieldDefaults = [] := by
      unfold GeneratorConfig.action
      simp only [oneMemberAtATime, List.lookup_cons]
      split <;> rfl
    rw [hNone] at hDefault
    obtain ⟨default, hMem, -⟩ := hDefault
    cases hMem

end IntegrationCompiler
