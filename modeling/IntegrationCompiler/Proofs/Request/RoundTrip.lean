import IntegrationCompiler.Proofs.Request.Groups
import IntegrationCompiler.Proofs.Request.Placed
import IntegrationCompiler.Proofs.Value.Json
import Mathlib.Data.List.TakeWhile

/-!
# Flattening loses nothing

The body of a flattened list is built from the inputs for one item and those beside it. If every
input already has the form that its place wants, all of them are in the body, unchanged and in the
order of the plan, and nothing else is there but defaults.

* `Entries.inOrder` — the entries under some names, in the order of the names;
* `ValueKind.Canonical`, `Filled` — inputs that are in their form already;
* `FlattenPlan.place` — the inputs for an item in their group, or by themselves;
* `BodyPlan.build_filled` — the body.
-/

namespace IntegrationCompiler

/-! ## Entries in a given order -/

namespace Entries

/-- The entries under some names, in the order of the names. -/
def inOrder (es : Entries) (names : List String) : Entries :=
  names.filterMap fun name => (get? es name).map fun v => (.str name, v)

/-- Stores what stands under a name elsewhere, if there is something. -/
def copy (source target : Entries) (name : String) : Entries :=
  match get? source name with
  | some v => set target name v
  | none => target

section

variable {es : Entries} {names : List String}

theorem mem_inOrder {e : Scalar × Value} :
    e ∈ inOrder es names ↔ ∃ name ∈ names, ∃ v, get? es name = some v ∧ e = (.str name, v) := by
  simp only [inOrder, List.mem_filterMap, Option.map_eq_some_iff, eq_comm (a := e)]

theorem inOrder_cons (name : String) (rest : List String) :
    inOrder es (name :: rest) =
      ((get? es name).map fun v => (.str name, v)).toList ++ inOrder es rest := by
  rw [inOrder, List.filterMap_cons]
  cases get? es name <;> rfl

theorem nodup_inOrder (h : names.Nodup) : ((inOrder es names).map Prod.fst).Nodup := by
  induction names with
  | nil => exact List.nodup_nil
  | cons name rest ih =>
    obtain ⟨hNew, hRest⟩ := List.nodup_cons.mp h
    rw [inOrder_cons]
    cases get? es name with
    | none => exact ih hRest
    | some v =>
      refine List.nodup_cons.mpr ⟨fun hMem => ?_, ih hRest⟩
      obtain ⟨e, he, hKey⟩ := List.mem_map.mp hMem
      obtain ⟨name', hName', w, -, rfl⟩ := mem_inOrder.mp he
      cases hKey
      exact hNew hName'

/-- In order or not, the entries are the same, if all of them have one of the names. Of later ones
those are there that have another of the names. -/
theorem inOrder_append_perm (hNames : names.Nodup) (hKeys : (es.map Prod.fst).Nodup)
    (hAll : ∀ e ∈ es, ∃ name ∈ names, e.1 = .str name) (later : Entries) :
    (inOrder (es ++ later) names).Perm
      (es ++ inOrder later (names.filter fun name => !es.has name)) := by
  have hLater : (inOrder later (names.filter fun name => !es.has name)).Nodup :=
    (nodup_inOrder (hNames.filter _)).of_map
  have hApart : es.Disjoint (inOrder later (names.filter fun name => !es.has name)) := by
    intro e he hMem
    obtain ⟨name, hName, v, -, rfl⟩ := mem_inOrder.mp hMem
    have hFree : es.has name = false := by simpa using (List.mem_filter.mp hName).2
    exact has_eq_false_iff.mp hFree v he
  have hBoth := hKeys.of_map.append hLater hApart
  refine (List.perm_ext_iff_of_nodup (nodup_inOrder hNames).of_map hBoth).mpr fun e => ?_
  rw [List.mem_append, mem_inOrder, mem_inOrder]
  constructor
  · rintro ⟨name, hName, v, hFound, rfl⟩
    rw [get?_append, Option.or_eq_some_iff] at hFound
    rcases hFound with hFound | ⟨hNone, hFound⟩
    · exact Or.inl (get?_eq_some_mem hFound)
    · refine Or.inr ⟨name, List.mem_filter.mpr ⟨hName, ?_⟩, v, hFound, rfl⟩
      rw [has, hNone]
      rfl
  · rintro (he | ⟨name, hName, v, hFound, rfl⟩)
    · obtain ⟨name, hName, hKey⟩ := hAll e he
      have hFound : get? es name = some e.2 := (get?_eq_some_iff hKeys).mpr (hKey ▸ he)
      exact ⟨name, hName, e.2, by rw [get?_append, hFound, Option.some_or], Prod.ext hKey rfl⟩
    · obtain ⟨hMem, hFree⟩ := List.mem_filter.mp hName
      have hNone : get? es name = none := get?_of_has_eq_false (by simpa using hFree)
      exact ⟨name, hMem, v, by rw [get?_append, hNone, Option.none_or, hFound], rfl⟩

theorem inOrder_perm (hNames : names.Nodup) (hKeys : (es.map Prod.fst).Nodup)
    (hAll : ∀ e ∈ es, ∃ name ∈ names, e.1 = .str name) : (inOrder es names).Perm es := by
  have hNothing (ns : List String) : inOrder [] ns = [] :=
    List.filterMap_eq_nil_iff.mpr fun _ _ => rfl
  have hPerm := inOrder_append_perm hNames hKeys hAll []
  rwa [hNothing, List.append_nil] at hPerm

/-- Copied one after another, the entries stand in the order of the names. -/
theorem foldl_copy (hNames : names.Nodup) (acc : Entries)
    (hNew : ∀ name ∈ names, .str name ∉ acc.map Prod.fst) :
    names.foldl (copy es) acc = acc ++ inOrder es names := by
  induction names generalizing acc with
  | nil => exact (List.append_nil acc).symm
  | cons name rest ih =>
    obtain ⟨hOther, hRest⟩ := List.nodup_cons.mp hNames
    obtain ⟨hHere, hNew⟩ := List.forall_mem_cons.mp hNew
    rw [List.foldl_cons, inOrder_cons, copy]
    cases get? es name with
    | none => exact ih hRest acc hNew
    | some v =>
      dsimp only
      rw [set_of_not_mem hHere, ih hRest]
      · exact List.append_assoc _ _ _
      · intro later hLater hMem
        rw [List.map_append, List.mem_append] at hMem
        rcases hMem with hOld | hSame
        · exact hNew later hLater hOld
        · cases List.mem_singleton.mp hSame
          exact hOther hLater

end

end Entries

/-! ## Inputs in their form -/

/-- A value that already has the form in which a place of its kind wants it. -/
inductive ValueKind.Canonical : ValueKind → Value → Prop where
  | number {n : Number} : n.isZero = false → n ≠ .float .nan → Canonical .number (.ofNumber n)
  | boolean (b : Bool) : Canonical .boolean (.bool b)
  | array (items : List Value) : Canonical .array (.list items)
  | object (es : Entries) : Canonical .object (.map es)
  | date {s : String} : s ≠ "" → 'T' ∉ s.toList → ' ' ∉ s.toList → Canonical .date (.str s)
  | string {v : Value} : isUnprovided v = false → Canonical .string v

theorem toNumber?_ofNumber {n : Number} (h : n ≠ .float .nan) :
    toNumber? (.ofNumber n) = some n := by
  have hKept : (n != .float .nan) = true := bne_iff_ne.mpr h
  cases n <;> simp only [toNumber?, Value.ofNumber, Option.filter_some, hKept, if_true]

theorem datePart_str {s : String} (hT : 'T' ∉ s.toList) (hBlank : ' ' ∉ s.toList) :
    datePart (.str s) = s := by
  have hAll : ∀ c ∈ s.toList, (c != 'T' && c != ' ') = true := by
    intro c hc
    have hNotT : c ≠ 'T' := fun hSame => hT (hSame ▸ hc)
    have hNotBlank : c ≠ ' ' := fun hSame => hBlank (hSame ▸ hc)
    simp [hNotT, hNotBlank]
  show String.ofList (s.toList.takeWhile fun c => c != 'T' && c != ' ') = s
  rw [List.takeWhile_eq_self_iff.mpr hAll, String.ofList_toList]

/-- **A value in its form is read as it is**, in a place with a dropdown as in any other. -/
theorem ValueKind.Canonical.read {kind : ValueKind} {v : Value} (h : kind.Canonical v)
    (dynamic : Bool) : readInput? kind v dynamic = some v := by
  cases h with
  | @number n hNonzero hNumber =>
    have hSome : isUnprovided (.ofNumber n) = false := by cases n <;> rfl
    simp [readInput?, hSome, readNumber?, toNumber?_ofNumber hNumber, hNonzero]
  | boolean | array | object => rfl
  | @date s hSome hT hBlank =>
    have hSome : isUnprovided (.str s) = false := by simpa [isUnprovided] using hSome
    simp [readInput?, hSome, datePart_str hT hBlank]
  | string hSome => simp [readInput?, hSome]

/-- Inputs for some properties, each under the name of its property and in its form, and no two
under one name. -/
structure Filled (properties : List PropertyPlan) (es : Entries) : Prop where
  distinct : (es.map Prod.fst).Nodup
  canonical : ∀ e ∈ es, ∃ p ∈ properties, e.1 = .str p.name ∧ p.kind.Canonical e.2

section

variable {properties : List PropertyPlan} {es : Entries}

theorem Filled.named (h : Filled properties es) :
    ∀ e ∈ es, ∃ name ∈ properties.map (·.name), e.1 = .str name := by
  intro e he
  obtain ⟨p, hp, hKey, -⟩ := h.canonical e he
  exact ⟨p.name, List.mem_map_of_mem hp, hKey⟩

theorem Filled.get?_eq_none (h : Filled properties es) {name : String}
    (hOther : name ∉ properties.map (·.name)) : Entries.get? es name = none := by
  refine Entries.get?_eq_none_iff.mpr fun v hMem => hOther ?_
  obtain ⟨name', hName', hKey⟩ := h.named _ hMem
  cases hKey
  exact hName'

/-- A property reads its own input as it is, and nothing where it has none. -/
theorem Filled.read (h : Filled properties es) (hNames : (properties.map (·.name)).Nodup)
    {p : PropertyPlan} (hp : p ∈ properties) :
    readInput? p.kind (Entries.getOrNull es p.name) p.dynamic = Entries.get? es p.name := by
  rw [Entries.getOrNull]
  cases hFound : Entries.get? es p.name with
  | none => rfl
  | some v =>
    obtain ⟨q, hq, hKey, hCanonical⟩ := h.canonical _ (Entries.get?_eq_some_mem hFound)
    -- no other property has the name
    have hSame : q = p := List.inj_on_of_nodup_map hNames hq hp (Scalar.str.inj hKey).symm
    rw [hSame] at hCanonical
    exact hCanonical.read p.dynamic

end

/-! ## Inputs for an item -/

namespace FlattenPlan

/-- The names of the properties of an item. -/
def itemNames (flatten : FlattenPlan) : List String :=
  flatten.itemProperties.map (·.name)

/-- The key of the group around the inputs for an item; an empty key makes none. -/
def group? (flatten : FlattenPlan) : Option String :=
  flatten.groupKey.filter (· ≠ "")

/-- The inputs for an item, in their group if there is one, or else by themselves. -/
def place (flatten : FlattenPlan) (item : Entries) : Entries :=
  match flatten.group? with
  | some g => [(.str g, .map item)]
  | none => item

end FlattenPlan

namespace BodyPlan

/-- The properties of a body and of its item have different names, none of which could be taken for
the group around the inputs of the item; and none of the body has the name of the list. -/
structure NamesApart (b : BodyPlan) (flatten : FlattenPlan) : Prop where
  distinct : (b.propertyNames ++ flatten.itemNames).Nodup
  beside : flatten.arrayField ∉ b.propertyNames
  ungrouped : ∀ g ∈ flatten.group?,
    ∀ name ∈ b.propertyNames ++ flatten.itemNames, ¬ OfGroup g name

section

variable {b : BodyPlan} {flatten : FlattenPlan} {top item inputs : Entries}

theorem NamesApart.disjoint (h : b.NamesApart flatten) :
    ∀ name ∈ b.propertyNames, name ∉ flatten.itemNames :=
  fun _ hName hItem => (List.nodup_append'.mp h.distinct).2.2 hName hItem

section

variable (hNames : b.NamesApart flatten) (hTop : Filled b.properties top)
  (hItem : Filled flatten.itemProperties item)

section

include hNames hItem

theorem get?_place_eq_none {name : String} (hName : name ∈ b.propertyNames) :
    Entries.get? (flatten.place item) name = none := by
  unfold FlattenPlan.place
  cases hGroup : flatten.group? with
  | none => exact hItem.get?_eq_none (hNames.disjoint name hName)
  | some g =>
    have hOther : name ≠ g := by
      rintro rfl
      exact hNames.ungrouped name hGroup name (List.mem_append_left _ hName) (Or.inl rfl)
    exact Entries.get?_singleton_of_ne hOther _

end

section

include hNames hTop

/-- A property of the item finds its input wherever the inputs for the item are placed. -/
theorem inputAt_item {name : String} (hName : name ∈ flatten.itemNames) :
    inputAt (top ++ flatten.place item) name flatten.groupKey = Entries.getOrNull item name := by
  have hBeside : Entries.get? top name = none :=
    hTop.get?_eq_none fun hMem => hNames.disjoint name hMem hName
  cases hGroup : flatten.group? with
  | none =>
    -- without a group the input stands by itself
    have hAlone : inputAt (top ++ flatten.place item) name flatten.groupKey =
        Entries.getOrNull (top ++ flatten.place item) name := by
      rcases hKey : flatten.groupKey with _ | g
      · rfl
      · rw [FlattenPlan.group?, hKey] at hGroup
        have hEmpty : g = "" := by simpa using hGroup
        rw [hEmpty]
        rfl
    rw [hAlone, FlattenPlan.place, hGroup, Entries.getOrNull, Entries.get?_append, hBeside]
    rfl
  | some g =>
    obtain ⟨hKey, hSome⟩ := Option.filter_eq_some_iff.mp hGroup
    have hUngrouped := hNames.ungrouped g hGroup
    have hFree {key : String} (hOf : OfGroup g key) : Entries.get? top key = none :=
      hTop.get?_eq_none fun hMem => hUngrouped key (List.mem_append_left _ hMem) hOf
    have hThere : Entries.get? (top ++ [(.str g, .map item)]) g = some (.map item) := by
      rw [Entries.get?_append, hFree (Or.inl rfl), Option.none_or, Entries.get?_cons, if_pos rfl]
    -- neither a joined key nor the name alone stands in for what the group lacks
    have hNotJoined :
        Entries.get? (top ++ [(.str g, .map item)]) (g ++ "__" ++ name) = none := by
      rw [Entries.get?_append, hFree (ofGroup_joined g name), Option.none_or]
      exact Entries.get?_singleton_of_ne (joined_ne g name) _
    have hNotAlone : Entries.get? (top ++ [(.str g, .map item)]) name = none := by
      have hOther : name ≠ g := by
        rintro rfl
        exact hUngrouped name (List.mem_append_right _ hName) (Or.inl rfl)
      rw [Entries.get?_append, hBeside, Option.none_or]
      exact Entries.get?_singleton_of_ne hOther _
    rw [FlattenPlan.place, hGroup, hKey, inputAt_some (by simpa using hSome)]
    dsimp only
    rw [hThere, hNotJoined, Entries.getOrNull, hNotAlone]
    rfl

end

include hNames hTop hItem in
theorem nodup_inputs : ((top ++ flatten.place item).map Prod.fst).Nodup := by
  have hPlaced : ((flatten.place item).map Prod.fst).Nodup := by
    unfold FlattenPlan.place
    split
    · exact List.nodup_singleton _
    · exact hItem.distinct
  rw [List.map_append]
  refine hTop.distinct.append hPlaced fun key hKey hMem => ?_
  obtain ⟨e, he, rfl⟩ := List.mem_map.mp hKey
  obtain ⟨⟨k, v⟩, hPlace, hSame⟩ := List.mem_map.mp hMem
  obtain ⟨name, hName, hText⟩ := hTop.named e he
  have hNone := get?_place_eq_none hNames hItem hName
  rw [hText] at hSame
  cases hSame
  exact Entries.get?_eq_none_iff.mp hNone v hPlace

end

/-! ## The body -/

/-- The inputs of the body make its entries, and defaults where they are missing. -/
theorem foldl_addProperty_filled (hNames : b.propertyNames.Nodup) (hTop : Filled b.properties top)
    (hInputs : ∀ name ∈ b.propertyNames, Entries.get? inputs name = Entries.get? top name) :
    b.properties.foldl (b.addProperty inputs) [] =
      (top ++ b.defaults).inOrder b.propertyNames := by
  have hStep : ∀ acc : Entries, ∀ p ∈ b.properties,
      b.addProperty inputs acc p = (top ++ b.defaults).copy acc p.name := by
    intro acc p hp
    have hInput : Entries.getOrNull inputs p.name = Entries.getOrNull top p.name := by
      rw [Entries.getOrNull, Entries.getOrNull, hInputs p.name (List.mem_map_of_mem hp)]
    rw [addProperty, Entries.copy, hInput, hTop.read hNames hp, Entries.get?_append]
    cases Entries.get? top p.name with
    | some v => rfl
    | none => cases Entries.get? b.defaults p.name <;> rfl
  rw [List.foldl_ext _ _ [] hStep, ← List.foldl_map]
  exact Entries.foldl_copy hNames [] fun _ _ => List.not_mem_nil

/-- The inputs for the item make its entries. -/
theorem item_filled (hMerges : b.helperMerges = []) (hNames : flatten.itemNames.Nodup)
    (hItem : Filled flatten.itemProperties item)
    (hInputs : ∀ name ∈ flatten.itemNames,
      inputAt inputs name flatten.groupKey = Entries.getOrNull item name) :
    b.item flatten inputs = item.inOrder flatten.itemNames := by
  have hStep : ∀ p ∈ flatten.itemProperties,
      readInput? p.kind (inputAt inputs p.name flatten.groupKey) p.dynamic =
        Entries.get? item p.name := by
    intro p hp
    rw [hInputs p.name (List.mem_map_of_mem hp), hItem.read hNames hp]
  have hCopied : flatten.itemNames.foldl item.copy [] = item.inOrder flatten.itemNames :=
    Entries.foldl_copy hNames [] fun _ _ => List.not_mem_nil
  rw [BodyPlan.item, hMerges, List.filter_nil, List.foldl_nil, ← hCopied, FlattenPlan.itemNames,
    List.foldl_map]
  refine List.foldl_ext _ _ [] fun acc p hp => ?_
  rw [hStep p hp]
  unfold Entries.copy
  cases Entries.get? item p.name <;> rfl

/-- **Flattening loses nothing.** The body that is built from inputs in their form, some for the
body and some for the item of a list, holds those for the body, a default for each other property
that has one, and the list with those for the item: all unchanged, in the order of the plan, and
nothing else. It does not matter in what order the inputs arrive. -/
theorem build_filled (hFlatten : b.flatten = some flatten) (hMerges : b.helperMerges = [])
    (hNames : b.NamesApart flatten) (hTop : Filled b.properties top)
    (hItem : Filled flatten.itemProperties item)
    (hInputs : inputs.Perm (top ++ flatten.place item)) :
    b.build inputs = (top ++ b.defaults).inOrder b.propertyNames ++
      [(.str flatten.arrayField, .list [.map (item.inOrder flatten.itemNames)])] ∧
    ((top ++ b.defaults).inOrder b.propertyNames).Perm
      (top ++ b.defaults.inOrder (b.propertyNames.filter fun name => !top.has name)) ∧
    (item.inOrder flatten.itemNames).Perm item := by
  obtain ⟨hBodyNames, hItemNames, -⟩ := List.nodup_append'.mp hNames.distinct
  have hLookup (name : String) :
      Entries.get? inputs name = Entries.get? (top ++ flatten.place item) name :=
    (Entries.get?_perm hInputs.symm (nodup_inputs hNames hTop hItem) name).symm
  have hBody := foldl_addProperty_filled hBodyNames hTop fun name hName => by
    rw [hLookup, Entries.get?_append, get?_place_eq_none hNames hItem hName, Option.or_none]
  have hItemBuilt := item_filled hMerges hItemNames hItem fun name hName => by
    rw [inputAt_congr (hLookup name) fun g _ => ⟨hLookup g, hLookup _⟩,
      inputAt_item hNames hTop hName]
  refine ⟨?_, Entries.inOrder_append_perm hBodyNames hTop.distinct hTop.named b.defaults,
    Entries.inOrder_perm hItemNames hItem.distinct hItem.named⟩
  have hNew : .str flatten.arrayField ∉
      ((top ++ b.defaults).inOrder b.propertyNames).map Prod.fst := by
    intro hMem
    obtain ⟨e, he, hKey⟩ := List.mem_map.mp hMem
    obtain ⟨name, hName, v, -, rfl⟩ := Entries.mem_inOrder.mp he
    cases hKey
    exact hNames.beside hName
  rw [build, hFlatten, hBody]
  dsimp only
  rw [hItemBuilt, hMerges, List.filter_nil, List.foldl_nil, Entries.set_of_not_mem hNew]

end

/-- A guest, with a room from a dropdown. -/
def tripGuest : FlattenPlan where
  arrayField := "guests"
  groupKey := some "guest"
  itemProperties := [
    { name := "room", kind := .number, dynamic := true }, { name := "diets", kind := .array },
    { name := "phone" }]

/-- A trip with one guest, who is asked for in a group. -/
def tripPlan : BodyPlan where
  properties := [
    { name := "note" }, { name := "paid", kind := .boolean }, { name := "day", kind := .date }]
  flatten := some tripGuest
  defaults := [(.str "paid", .bool false), (.str "note", .str "None")]

/-- The guest comes first and in another order than in the plan; whether the trip is paid is left to
the default. -/
theorem build_filled_tripPlan :
    tripPlan.build [
      (.str "guest", .map [(.str "phone", .int 7), (.str "room", .int 12)]),
      (.str "day", .str "2025-01-31"), (.str "note", .str "By train")] = [
      (.str "note", .str "By train"), (.str "paid", .bool false), (.str "day", .str "2025-01-31"),
      (.str "guests", .list [.map [(.str "room", .int 12), (.str "phone", .int 7)]])] := by
  have hNames : tripPlan.NamesApart tripGuest := ⟨by decide, by decide, by decide⟩
  have hTop : Filled tripPlan.properties
      [(.str "day", .str "2025-01-31"), (.str "note", .str "By train")] := by
    refine ⟨by decide, List.forall_mem_cons.mpr ⟨?_, List.forall_mem_singleton.mpr ?_⟩⟩
    · exact ⟨{ name := "day", kind := .date }, by decide, rfl,
        .date (by decide) (by decide) (by decide)⟩
    · exact ⟨{ name := "note" }, by decide, rfl, .string rfl⟩
  have hItem : Filled tripGuest.itemProperties [(.str "phone", .int 7), (.str "room", .int 12)] := by
    refine ⟨by decide, List.forall_mem_cons.mpr ⟨?_, List.forall_mem_singleton.mpr ?_⟩⟩
    · exact ⟨{ name := "phone" }, by decide, rfl, .string rfl⟩
    · exact ⟨{ name := "room", kind := .number, dynamic := true }, by decide, rfl,
        @ValueKind.Canonical.number (.int 12) rfl (by decide)⟩
  exact (build_filled rfl rfl hNames hTop hItem List.perm_append_comm).1

end BodyPlan

end IntegrationCompiler
