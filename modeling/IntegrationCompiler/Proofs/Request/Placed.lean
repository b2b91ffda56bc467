import IntegrationCompiler.Proofs.Value.Updates
import IntegrationCompiler.Request.Build

/-!
# Where inputs end up in a body

A property takes its input to the entry with its name. Nothing moves it from there, unless another
part of the plan writes to the same entry.

Main definitions:

* `Entries.setEach` — storing what each of some things gives;
* `BodyPlan.Owns` — a property of the body whose entry nothing else writes to;
* `BodyPlan.OwnsInItem` — the same for a property of the flattened item.

Main results: `BodyPlan.get?_build` and `BodyPlan.get?_build_item`; `Entries.get?_setEach` says
which of several values counts, and `MergePlan.apply_cases` what a merge can do.
-/

namespace IntegrationCompiler

/-! ## Entries that are stored one after another -/

namespace Entries

section

variable {α : Type} {f : Entries → α → Entries} {as : List α} {name : String}

/-- An entry that no step writes to stays. -/
theorem get?_foldl_of_keeps (h : ∀ a ∈ as, ∀ acc, get? (f acc a) name = get? acc name)
    (acc : Entries) : get? (as.foldl f acc) name = get? acc name := by
  induction as generalizing acc with
  | nil => rfl
  | cons a rest ih =>
    rw [List.forall_mem_cons] at h
    rw [List.foldl_cons, ih h.2, h.1]

/-- An entry that one step writes to, and no other, has what was written. -/
theorem get?_foldl_of_writes {a : α} {v : Value} (hMem : a ∈ as)
    (hWrites : ∀ acc, get? (f acc a) name = some v)
    (hOthers : ∀ b ∈ as, b ≠ a → ∀ acc, get? (f acc b) name = get? acc name) (acc : Entries) :
    get? (as.foldl f acc) name = some v := by
  -- From the step on the value is there: another step keeps it, and the same step writes it again.
  have hStays (bs : List α) (hbs : ∀ b ∈ bs, b ∈ as) (acc : Entries)
      (h : get? acc name = some v) : get? (bs.foldl f acc) name = some v := by
    induction bs generalizing acc with
    | nil => exact h
    | cons b rest ih =>
      rw [List.forall_mem_cons] at hbs
      refine ih hbs.2 _ ?_
      by_cases hb : b = a
      · exact hb ▸ hWrites acc
      · rw [hOthers b hbs.1 hb, h]
  obtain ⟨before, after, rfl⟩ := List.append_of_mem hMem
  rw [List.foldl_append, List.foldl_cons]
  exact hStays after (fun b hb => List.mem_append_right _ (List.mem_cons_of_mem _ hb)) _ (hWrites _)

end

section

variable {α : Type} {name : α → String} {value? : α → Option Value} {as : List α} {es : Entries}

/-- Stores what each of some things gives, under its name. -/
def setEach (name : α → String) (value? : α → Option Value) (as : List α) (es : Entries) :
    Entries :=
  as.foldl (fun acc a => match value? a with
    | some v => set acc (name a) v
    | none => acc) es

/-- What the last one of a name gives that gives anything. -/
def lastGiven? (name : α → String) (value? : α → Option Value) (as : List α) (key : String) :
    Option Value :=
  as.reverse.findSome? fun a => if name a = key then value? a else none

theorem setEach_cons (a : α) (rest : List α) : setEach name value? (a :: rest) es =
    setEach name value? rest (match value? a with
      | some v => set es (name a) v
      | none => es) := rfl

theorem exists_of_lastGiven? {key : String} {v : Value} (h : lastGiven? name value? as key = some v) :
    ∃ a ∈ as, name a = key ∧ value? a = some v := by
  obtain ⟨a, ha, hValue⟩ := List.exists_of_findSome?_eq_some h
  refine ⟨a, List.mem_reverse.mp ha, ?_⟩
  split at hValue
  · next hName => exact ⟨hName, hValue⟩
  · cases hValue

theorem isSome_lastGiven? {a : α} (hMem : a ∈ as) (hGives : (value? a).isSome = true) :
    (lastGiven? name value? as (name a)).isSome = true := by
  refine List.findSome?_isSome_iff.mpr ⟨a, List.mem_reverse.mpr hMem, ?_⟩
  rw [if_pos rfl]
  exact hGives

/-- **Of several values that are stored under a name the last one counts.** -/
theorem get?_setEach (key : String) : get? (setEach name value? as es) key =
    (lastGiven? name value? as key).or (get? es key) := by
  -- on the list from the front: what the first one gives counts only if no later one gives anything
  induction as generalizing es with
  | nil => rfl
  | cons a rest ih =>
    rw [setEach_cons, ih, lastGiven?, lastGiven?, List.reverse_cons, List.findSome?_append,
      Option.or_assoc]
    congr 1
    cases hValue : value? a with
    | none => simp [hValue]
    | some v =>
      rw [get?_set, List.findSome?_singleton, hValue]
      by_cases hName : name a = key
      · rw [if_pos hName, if_pos hName, Option.some_or]
      · rw [if_neg hName, if_neg hName, Option.none_or]

/-- What is given is there, or something else of that name. -/
theorem has_setEach {a : α} (hMem : a ∈ as) (hGives : (value? a).isSome = true) :
    has (setEach name value? as es) (name a) = true := by
  rw [has, get?_setEach, Option.isSome_or, isSome_lastGiven? hMem hGives, Bool.true_or]

/-- What is found under the name of one that gives something was given by one of that name. -/
theorem exists_of_get?_setEach {a : α} {v : Value} (hMem : a ∈ as)
    (hGives : (value? a).isSome = true) (h : get? (setEach name value? as es) (name a) = some v) :
    ∃ b ∈ as, name b = name a ∧ value? b = some v := by
  obtain ⟨w, hLast⟩ := Option.isSome_iff_exists.mp (isSome_lastGiven? hMem hGives)
  rw [get?_setEach, hLast, Option.some_or] at h
  exact exists_of_lastGiven? (hLast.trans h)

/-- Where names differ, everything that is given is found. -/
theorem get?_setEach_of_mem (hDistinct : (as.map name).Nodup) {a : α} {v : Value} (hMem : a ∈ as)
    (h : value? a = some v) : get? (setEach name value? as es) (name a) = some v := by
  have hGives : (value? a).isSome = true := by rw [h, Option.isSome_some]
  obtain ⟨w, hLast⟩ := Option.isSome_iff_exists.mp (isSome_lastGiven? hMem hGives)
  obtain ⟨b, hb, hName, hValue⟩ := exists_of_lastGiven? hLast
  -- the last one of the name is the only one
  cases List.inj_on_of_nodup_map hDistinct hb hMem hName
  rw [get?_setEach, hLast, Option.some_or, ← hValue, h]

/-- Every entry was there before or was given. -/
theorem mem_setEach {k : Scalar} {v : Value} (h : (k, v) ∈ setEach name value? as es) :
    (k, v) ∈ es ∨ ∃ a ∈ as, k = .str (name a) ∧ value? a = some v := by
  induction as generalizing es with
  | nil => exact Or.inl h
  | cons a rest ih =>
    rw [setEach_cons] at h
    rcases ih h with hHere | ⟨b, hb, hGiven⟩
    · cases hValue : value? a with
      | none =>
        rw [hValue] at hHere
        exact Or.inl hHere
      | some w =>
        rw [hValue] at hHere
        rcases mem_put hHere with ⟨rfl, hKey⟩ | hOld
        · exact Or.inr ⟨a, List.mem_cons_self, hKey.elim id Scalar.same_str.mp, hValue⟩
        · exact Or.inl hOld
    · exact Or.inr ⟨b, List.mem_cons_of_mem _ hb, hGiven⟩

end

end Entries

/-- A merge changes nothing, or stores something at its target. -/
theorem MergePlan.apply_cases (m : MergePlan) (target inputs : Entries) (group : Option String) :
    m.apply target inputs group = target ∨
      ∃ v, v ≠ .null ∧ m.apply target inputs group = target.set m.target v := by
  have hUnless (empty : Bool) (items : List Value) :
      (if empty then target else target.set m.target (.list items)) = target ∨
        ∃ v, v ≠ .null ∧
          (if empty then target else target.set m.target (.list items)) = target.set m.target v := by
    cases empty with
    | true => exact Or.inl rfl
    | false => exact Or.inr ⟨.list items, nofun, rfl⟩
  unfold apply
  dsimp only
  split
  · exact hUnless _ _
  · split
    · next v hFound =>
      refine Or.inr ⟨_, ?_, rfl⟩
      cases toNumber? v with
      | some n => cases n <;> exact nofun
      | none =>
        rintro rfl
        exact absurd (List.find?_some hFound) (by decide)
    · exact Or.inl rfl

/-- A merge writes to its target only. -/
theorem MergePlan.get?_apply_of_ne {m : MergePlan} {name : String} (h : m.target ≠ name)
    (target inputs : Entries) (group : Option String) :
    Entries.get? (m.apply target inputs group) name = Entries.get? target name := by
  rcases m.apply_cases target inputs group with hSame | ⟨v, -, hStored⟩
  · rw [hSame]
  · rw [hStored, Entries.get?_set, if_neg h]

/-- What is there stays there. -/
theorem MergePlan.apply_ne_null (m : MergePlan) {target : Entries} {name : String}
    (h : Entries.getOrNull target name ≠ .null) (inputs : Entries) (group : Option String) :
    Entries.getOrNull (m.apply target inputs group) name ≠ .null := by
  rcases m.apply_cases target inputs group with hSame | ⟨v, hSome, hStored⟩
  · rwa [hSame]
  · rw [hStored, Entries.getOrNull, Entries.get?_set]
    split
    · exact hSome
    · exact h

namespace BodyPlan

/-! ## Properties of the body -/

section

variable {b : BodyPlan} {p : PropertyPlan} {inputs : Entries} {v : Value}

/-- A property of the body whose entry nothing else writes to. -/
structure Owns (b : BodyPlan) (p : PropertyPlan) : Prop where
  mem : p ∈ b.properties
  unique : ∀ q ∈ b.properties, q ≠ p → q.name ≠ p.name
  notFlattened : ∀ flatten ∈ b.flatten, flatten.arrayField ≠ p.name
  notMerged : ∀ m ∈ b.helperMerges, m.inItem = false → m.target ≠ p.name

theorem addProperty_of_read (h : readInput? p.kind (Entries.getOrNull inputs p.name) p.dynamic = some v)
    (body : Entries) : b.addProperty inputs body p = body.set p.name v := by
  unfold addProperty
  rw [h]

/-- A property writes to the entry with its name only. -/
theorem get?_addProperty_of_ne {q : PropertyPlan} {name : String} (h : q.name ≠ name)
    (body : Entries) : Entries.get? (b.addProperty inputs body q) name = Entries.get? body name := by
  unfold addProperty
  split
  · rw [Entries.get?_set, if_neg h]
  · split
    · rw [Entries.get?_set, if_neg h]
    · rfl

/-- **A property takes its input to the entry with its name.** -/
theorem get?_build (hOwns : b.Owns p)
    (h : readInput? p.kind (Entries.getOrNull inputs p.name) p.dynamic = some v) :
    Entries.get? (b.build inputs) p.name = some v := by
  have hPlain : Entries.get? (b.properties.foldl (b.addProperty inputs) []) p.name = some v := by
    refine Entries.get?_foldl_of_writes hOwns.mem (fun body => ?_)
      (fun q hq hOther => get?_addProperty_of_ne (hOwns.unique q hq hOther)) []
    rw [addProperty_of_read h, Entries.get?_set, if_pos rfl]
  unfold build
  dsimp only
  rw [Entries.get?_foldl_of_keeps]
  · split
    · next flatten hFlatten =>
      rw [Entries.get?_set, if_neg (hOwns.notFlattened flatten hFlatten), hPlain]
    · exact hPlain
  · intro m hm acc
    obtain ⟨hMem, hBeside⟩ := List.mem_filter.mp hm
    exact m.get?_apply_of_ne (hOwns.notMerged m hMem (by simpa using hBeside)) acc inputs none

end

/-! ## Properties of the item -/

section

variable {b : BodyPlan} {flatten : FlattenPlan} {p : PropertyPlan} {inputs : Entries} {v : Value}

/-- A property of the flattened item whose entry nothing else writes to. -/
structure OwnsInItem (b : BodyPlan) (flatten : FlattenPlan) (p : PropertyPlan) : Prop where
  flattened : b.flatten = some flatten
  mem : p ∈ flatten.itemProperties
  unique : ∀ q ∈ flatten.itemProperties, q ≠ p → q.name ≠ p.name
  notMerged : ∀ m ∈ b.helperMerges, m.inItem = true → m.target ≠ p.name
  kept : ∀ m ∈ b.helperMerges, m.inItem = false → m.target ≠ flatten.arrayField

/-- The item of a flattened list is there, unless helpers are merged into the list. -/
theorem get?_build_arrayField (hFlatten : b.flatten = some flatten)
    (hKept : ∀ m ∈ b.helperMerges, m.inItem = false → m.target ≠ flatten.arrayField) :
    Entries.get? (b.build inputs) flatten.arrayField =
      some (.list [.map (b.item flatten inputs)]) := by
  unfold build
  dsimp only
  rw [Entries.get?_foldl_of_keeps, hFlatten]
  · rw [Entries.get?_set, if_pos rfl]
  · intro m hm acc
    obtain ⟨hMem, hBeside⟩ := List.mem_filter.mp hm
    exact m.get?_apply_of_ne (hKept m hMem (by simpa using hBeside)) acc inputs none

theorem get?_item (hOwns : b.OwnsInItem flatten p)
    (h : readInput? p.kind (inputAt inputs p.name flatten.groupKey) p.dynamic = some v) :
    Entries.get? (b.item flatten inputs) p.name = some v := by
  unfold item
  dsimp only
  rw [Entries.get?_foldl_of_keeps]
  · refine Entries.get?_foldl_of_writes hOwns.mem (fun acc => ?_) (fun q hq hOther acc => ?_) []
    · rw [h, Entries.get?_set, if_pos rfl]
    · split
      · rw [Entries.get?_set, if_neg (hOwns.unique q hq hOther)]
      · rfl
  · intro m hm acc
    obtain ⟨hMem, hInItem⟩ := List.mem_filter.mp hm
    exact m.get?_apply_of_ne (hOwns.notMerged m hMem hInItem) acc inputs flatten.groupKey

/-- **A property of the item takes its input to the entry with its name in the item.** -/
theorem get?_build_item (hOwns : b.OwnsInItem flatten p)
    (h : readInput? p.kind (inputAt inputs p.name flatten.groupKey) p.dynamic = some v) :
    ∃ item, Entries.get? (b.build inputs) flatten.arrayField = some (.list [.map item]) ∧
      Entries.get? item p.name = some v :=
  ⟨_, get?_build_arrayField hOwns.flattened hOwns.kept, get?_item hOwns h⟩

end

end BodyPlan

end IntegrationCompiler
