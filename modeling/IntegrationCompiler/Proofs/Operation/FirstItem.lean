import IntegrationCompiler.Proofs.Operation.OfEndpoint
import IntegrationCompiler.Proofs.Response.Presentable
import IntegrationCompiler.Proofs.Value.Json
import IntegrationCompiler.Response.Shaping

/-!
# The item that a trigger shows

A trigger finds its items where its plan says, and its sample is made of what the payload shows
first, without a look at the plan. Both are the same object if the payload is a list. If it is an
object, they are the same as long as the first list in it that has items is the one that the plan
finds, or it has none and is the only item itself.

Main definitions:

* `showable` — the entries of an object that a sample may show;
* `SampleOfItem` — the samples that are made of an object;
* `ShownFirst` — what an object shows first.

Main results:

* `withoutSensitive_eq`, `withId_showable` — the two parts of making a sample;
* `triggerSample_of_shownFirst` — the sample is made of what is shown first;
* `Trigger.shows_first_item` — the sample of a trigger and the first item that it finds.
-/

namespace IntegrationCompiler

open Logged

/-! ## Samples of objects -/

instance : DecidablePred NamesCredential := fun key =>
  decidable_of_iff (isSensitive key = true) (isSensitive_iff key)

/-- An entry that a sample may show: its key is a text and names no credential. -/
def IsShowable (entry : Scalar × Value) : Prop :=
  ∃ key, entry.1 = .str key ∧ ¬ NamesCredential key

theorem isShowable_str {key : String} {v : Value} :
    IsShowable (.str key, v) ↔ ¬ NamesCredential key :=
  ⟨fun ⟨_, hKey, h⟩ => Scalar.str.inj hKey ▸ h, fun h => ⟨key, rfl, h⟩⟩

instance : DecidablePred IsShowable := fun (k, _) =>
  match k with
  | .str _ => decidable_of_iff _ isShowable_str.symm
  | .null | .bool _ | .int _ | .float _ | .date _ | .moment _ | .bytes _ =>
    isFalse fun ⟨_, hKey, _⟩ => nomatch hKey

/-- The entries of an object that a sample may show. -/
def showable (item : Entries) : Entries :=
  item.filter fun entry => IsShowable entry

/-- The samples that are made of an object: what can be shown of it, with an `id` at the end where
there is none. That is a copy of what stands under the first of the other names that is there, or
else zero. -/
inductive SampleOfItem (item : Entries) : Entries → Prop where
  | own : Entries.has (showable item) "id" = true → SampleOfItem item (showable item)
  | copied {before after : List String} {name : String} {v : Value} :
    Entries.has (showable item) "id" = false → idAliases = before ++ name :: after →
    (∀ other ∈ before, Entries.get? (showable item) other = none) →
    Entries.get? (showable item) name = some v →
    SampleOfItem item (showable item ++ [(.str "id", v)])
  | zero : Entries.has (showable item) "id" = false →
    (∀ name ∈ idAliases, Entries.get? (showable item) name = none) →
    SampleOfItem item (showable item ++ [(.str "id", .int 0)])

variable {item kept : Entries}

/-- What is left without credentials. -/
theorem withoutSensitive_eq (h : withoutSensitive item = .ok kept) : kept = showable item := by
  rw [filter_of_filterM h, showable]
  refine List.filter_congr fun (k, v) _ => ?_
  cases k with
  | str key =>
    rw [Bool.eq_iff_iff, decide_eq_true_iff, isShowable_str, ← isSensitive_iff]
    cases hSensitive : isSensitive key <;> simp [hSensitive]
  | _ =>
    refine (decide_eq_false ?_).symm
    rintro ⟨_, hKey, -⟩
    cases hKey

theorem withoutSensitive_ok (h : ∀ entry ∈ item, ∃ s, entry.1 = .str s) :
    withoutSensitive item = .ok (showable item) := by
  cases hKept : withoutSensitive item with
  | ok kept => rw [withoutSensitive_eq hKept]
  | error failure => exact absurd hKept (withoutSensitive_texts h)

/-- What can be shown stands in front. -/
theorem SampleOfItem.keys_prefix {sample : Entries} (h : SampleOfItem item sample) :
    (showable item).map Prod.fst <+: sample.map Prod.fst := by
  cases h with
  | own => exact List.prefix_refl _
  | copied | zero =>
    rw [List.map_append]
    exact List.prefix_append _ _

theorem withId_showable (item : Entries) : SampleOfItem item (withId (showable item)) := by
  unfold withId
  split
  · next hOwn => exact .own hOwn
  · next hNone =>
    have hNoId : Entries.has (showable item) "id" = false := Bool.eq_false_iff.mpr hNone
    have hNew : .str "id" ∉ (showable item).map Prod.fst := by
      rintro hMem
      obtain ⟨⟨k, v⟩, hEntry, rfl⟩ := List.mem_map.mp hMem
      exact Entries.has_eq_false_iff.mp hNoId v hEntry
    -- the names are tried in their order
    dsimp only
    rw [Entries.set_of_not_mem hNew]
    cases hFound : idAliases.findSome? fun name => Entries.get? (showable item) name with
    | none => exact .zero hNoId (List.findSome?_eq_none_iff.mp hFound)
    | some v =>
      obtain ⟨before, name, after, hSplit, hName, hBefore⟩ := List.findSome?_eq_some_iff.mp hFound
      exact .copied hNoId hSplit hBefore hName

/-! ## What is shown first -/

/-- The value is a list with something in it. -/
def HasItems (v : Value) : Prop :=
  ∃ first rest, v = .list (first :: rest)

/-- What an object shows first: the object that leads the first list in it that has items, or itself
where no list has any. -/
inductive ShownFirst (es : Entries) : Entries → Prop where
  | listed {before after : Entries} {k : Scalar} {item : Entries} {rest : List Value} :
    es = before ++ (k, .list (.map item :: rest)) :: after →
    (∀ entry ∈ before, ¬ HasItems entry.2) → ShownFirst es item
  | self : (∀ entry ∈ es, ¬ HasItems entry.2) → ShownFirst es es

variable {es : Entries}

/-- Entries without a list that has items are passed over. -/
theorem firstListed?_append {before : Entries} (h : ∀ entry ∈ before, ¬ HasItems entry.2)
    (later : Entries) : firstListed? (before ++ later) = firstListed? later := by
  induction before with
  | nil => rfl
  | cons entry rest ih =>
    obtain ⟨hFirst, hRest⟩ := List.forall_mem_cons.mp h
    rw [List.cons_append, firstListed?, ih hRest]
    rintro k v items rfl
    exact hFirst ⟨v, items, rfl⟩

/-- **The sample of an object is made of what it shows first.** -/
theorem triggerSample_of_shownFirst (h : ShownFirst es item) : triggerSample (.map es) =
    (withoutSensitive item).bind fun kept => .ok (withId (orEmptySample kept)) := by
  cases h with
  | listed hSplit hBefore =>
    rw [triggerSample, hSplit, firstListed?_append hBefore]
    rfl
  | self hNone =>
    have hNothing := firstListed?_append hNone []
    rw [List.append_nil] at hNothing
    rw [triggerSample, hNothing]
    rfl

/-! ## What is found first -/

variable {payload first : Value} {rest : List Value}

theorem itemsOf_eq_cons (h : itemsOf payload = first :: rest) :
    payload = .list (first :: rest) := by
  unfold itemsOf at h
  split at h
  · exact congrArg Value.list h
  · cases h

theorem itemsOrOnly_eq_cons (h : itemsOrOnly payload = first :: rest) :
    payload = .list (first :: rest) ∨ payload = first := by
  unfold itemsOrOnly at h
  split at h
  · exact Or.inl (congrArg Value.list h)
  · split at h
    · cases h
      exact Or.inr rfl
    · cases h

/-- An object is found first in a list that it leads, or in an object. -/
theorem items_eq_cons {x : ArrayExtraction} (h : x.items payload = .map item :: rest) :
    payload = .list (.map item :: rest) ∨ ∃ es, payload = .map es := by
  have hOnly (h : itemsOrOnly payload = .map item :: rest) :
      payload = .list (.map item :: rest) ∨ ∃ es, payload = .map es :=
    (itemsOrOnly_eq_cons h).imp_right fun hSelf => ⟨item, hSelf⟩
  -- only one way of looking for items looks into an object
  unfold ArrayExtraction.items at h
  split at h
  · exact Or.inl (congrArg Value.list h)
  · exact Or.inr ⟨_, rfl⟩
  · cases h
  · exact Or.inl (itemsOf_eq_cons h)
  · exact hOnly h
  · exact hOnly h

/-- **The sample of a trigger is the first item that it finds**, without credentials and with an
`id`. The payload of its endpoint is a list, or an object that shows this item first, and not
everything in the item is a credential. -/
theorem Trigger.shows_first_item {e : Endpoint} {c : TriggerConfig} {x : ArrayExtraction}
    (hPlan : ArrayExtraction.ofEndpoint e c.arrayProperty = .ok x)
    (hPayload : sampleOf e.successResponse? = .ok payload)
    (hItems : x.items payload = .map item :: rest) (hSome : ∃ entry ∈ item, IsShowable entry)
    (hFirst : ∀ es, payload = .map es → ShownFirst es item) :
    ((∀ entry ∈ item, ∃ s, entry.1 = .str s) →
      ∃ sample, triggerSample payload = .ok sample ∧ SampleOfItem item sample) ∧
    ∀ s key t, (Trigger.ofEndpoint s e key c).Returns t →
      t.extraction = x ∧ SampleOfItem item t.head.sample := by
  have hSample : triggerSample payload =
      (withoutSensitive item).bind fun kept => .ok (withId (orEmptySample kept)) := by
    rcases items_eq_cons hItems with rfl | ⟨es, rfl⟩
    · rfl
    · exact triggerSample_of_shownFirst (hFirst es rfl)
  -- something is left without credentials, so it is not replaced by the empty sample
  have hShown : orEmptySample (showable item) = showable item := by
    obtain ⟨entry, hMem, hEntry⟩ := hSome
    have hKept : entry ∈ showable item := List.mem_filter.mpr ⟨hMem, decide_eq_true hEntry⟩
    exact if_neg fun hEmpty => List.ne_nil_of_mem hKept (List.isEmpty_iff.mp hEmpty)
  refine ⟨fun hTexts => ⟨withId (showable item), ?_, withId_showable item⟩,
    fun s key t hTrigger => ?_⟩
  · rw [hSample, withoutSensitive_ok hTexts, Except.bind, hShown]
  · obtain ⟨hExtraction, payload', hPayload', hMade⟩ := ofEndpoint_shows hTrigger
    cases hPlan.symm.trans hExtraction
    cases hPayload.symm.trans hPayload'
    rw [hSample] at hMade
    obtain ⟨kept, hKept, hSame⟩ := ok_of_bind hMade
    rw [withoutSensitive_eq hKept, hShown] at hSame
    rw [← Except.ok.inj hSame]
    exact ⟨rfl, withId_showable item⟩

/-- Tasks with an answer for an example. -/
def taskList (answer : Value) : Endpoint where
  path := "/tasks"
  method := .get
  operationId := some "list_tasks"
  responses := [("200", { statusCode := "200", examples := [(.str "example", answer)] })]

/-- Tasks are polled, and they may be in a property of the answer. -/
def newTask (arrayProperty : Option String) : TriggerConfig where
  endpoint := "/tasks"
  title := some "Triggers when a task is added."
  arrayProperty := arrayProperty

/-- A task in the first list that has items, with a credential and an `id` under another name. -/
theorem Trigger.shows_first_item_taskList :
    let s : Surroundings := { document := {}, config := {} }
    let task : Entries :=
      [(.str "_id", .int 5), (.str "token", .str "t"), (.str "done", .bool false)]
    let answer : Value := .object [
      ("warnings", .list []), ("tasks", .list [.map task]), ("tags", .list [.str "home"])]
    ∃ t, (Trigger.ofEndpoint s (taskList answer) "new_task" (newTask (some "tasks"))).Returns t ∧
      t.extraction.items answer = [.map task] ∧ SampleOfItem task t.head.sample ∧
      t.head.sample = [(.str "_id", .int 5), (.str "done", .bool false), (.str "id", .int 5)] := by
  intro s task answer
  have hFirst : ∀ es, answer = .map es → ShownFirst es task := by
    intro es hSame
    rw [← Value.map.inj hSame]
    have hEmptyBefore : [(Scalar.str "warnings", Value.list []), (.str "tasks", .list [.map task]),
        (.str "tags", .list [.str "home"])] = [(.str "warnings", .list [])] ++ _ := rfl
    refine .listed hEmptyBefore ?_
    rintro entry hMem ⟨first, rest, hItems⟩
    cases List.mem_singleton.mp hMem
    cases hItems
  have hShown := Trigger.shows_first_item (e := taskList answer) (c := newTask (some "tasks"))
    rfl rfl rfl ⟨_, List.mem_cons_self, by decide⟩ hFirst
  exact ⟨_, ⟨[], rfl⟩, rfl, (hShown.2 s "new_task" _ ⟨[], rfl⟩).2, rfl⟩

/-- Three answers that show something else than the first item first: a list that stands before the
one in the property, a list inside an object under the property's name, and a task that has a list
of its own. -/
theorem Trigger.shows_other_than_first_item :
    let s : Surroundings := { document := {}, config := {} }
    let task : Entries := [(.str "id", .int 1), (.str "name", .str "Dishes")]
    let tagged : Entries := task ++ [(.str "tags", .list [.str "home"])]
    ∀ p ∈ [
      (some "tasks", Value.object [
        ("warnings", .list [.object [("id", .int 7), ("text", .str "slow")]]),
        ("tasks", .list [.map task])], task),
      (some "tasks", .object [("tasks", .object [("tasks", .list [.map task])])], task),
      (none, .map tagged, tagged)],
    (∃ entry ∈ p.2.2, IsShowable entry) ∧
    ∃ t, (Trigger.ofEndpoint s (taskList p.2.1) "new_task" (newTask p.1)).Returns t ∧
      sampleOf (taskList p.2.1).successResponse? = .ok p.2.1 ∧
      t.extraction.items p.2.1 = [.map p.2.2] ∧ ¬ SampleOfItem p.2.2 t.head.sample := by
  intro s task tagged
  refine List.forall_mem_cons.mpr ⟨?_, List.forall_mem_cons.mpr
    ⟨?_, List.forall_mem_singleton.mpr ?_⟩⟩
  all_goals
    dsimp only
    refine ⟨⟨_, List.mem_cons_self, by decide⟩, _, ⟨[], rfl⟩, ?_⟩
    exact ⟨rfl, rfl, mt SampleOfItem.keys_prefix (by decide)⟩

end IntegrationCompiler
