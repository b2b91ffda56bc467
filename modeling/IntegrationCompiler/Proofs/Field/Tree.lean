import IntegrationCompiler.Draft.Visibility
import IntegrationCompiler.Field.Edit
import Mathlib.Data.List.Basic

/-!
# Fields as trees

The functions on fields with a case for each constructor are brought into equations that do not
take a field apart, and a statement about a field follows from the same statement about its children
(`Field.induct`).

* `Field.leafPaths` — the paths to the inputs that hold a value; changes of anything but keys and
  children leave them as they are (`leafPaths_mapLeaves`, `leafPaths_updateFirst`);
* `Field.find?_behind_leaves`, `Field.updateFirst_behind_leaves` — a group is found and changed
  where it stands, if nothing before it has its key;
* `Field.Throughout` — a property of all fields at any depth, and what passes it on.
-/

namespace IntegrationCompiler.Field

/-! ## Equations on fields -/

theorem withDescendants_eq (f : Field) : f.withDescendants = f :: preorder f.children := by
  cases f
  rw [withDescendants]

theorem updateIn?_eq (key : String) (change : Field → Field) (f : Field) :
    updateIn? key change f = if f.key == key then some (change f)
      else (updateFirst? key change f.children).map fun cs => { f with children := cs } := by
  cases f
  rw [updateIn?]

theorem mapLeaf_eq (change : Field → Field) (f : Field) : mapLeaf change f =
    if f.children.isEmpty then change f
      else { f with children := mapLeaves change f.children } := by
  cases f
  rw [mapLeaf]

theorem mapLeaves_eq_map (change : Field → Field) (fs : List Field) :
    mapLeaves change fs = fs.map (mapLeaf change) := by
  induction fs with
  | nil => rw [mapLeaves, List.map_nil]
  | cons f rest ih => rw [mapLeaves, ih, List.map_cons]

theorem unlessHidden?_eq (hidden : List String) (f : Field) : unlessHidden? hidden f =
    if hidden.contains f.key then none
    else if f.children.isEmpty then some f
    else if (dropHidden hidden f.children).isEmpty then none
    else some { f with children := dropHidden hidden f.children } := by
  cases f
  rw [unlessHidden?]

theorem dropHidden_eq_filterMap (hidden : List String) (fs : List Field) :
    dropHidden hidden fs = fs.filterMap (unlessHidden? hidden) := by
  induction fs with
  | nil => rw [dropHidden, List.filterMap_nil]
  | cons f rest ih =>
    rw [dropHidden, ih, List.filterMap_cons]
    cases unlessHidden? hidden f <;> rfl

/-- Of fields without children those go that are hidden themselves. -/
theorem dropHidden_of_leaves {hidden : List String} {fs : List Field}
    (h : ∀ f ∈ fs, f.children = []) :
    dropHidden hidden fs = fs.filter fun f => !hidden.contains f.key := by
  rw [dropHidden_eq_filterMap, ← List.filterMap_eq_filter]
  refine List.filterMap_congr fun f hf => ?_
  rw [unlessHidden?_eq, h f hf, Option.guard]
  cases hidden.contains f.key <;> rfl

theorem preorder_append (as bs : List Field) : preorder (as ++ bs) = preorder as ++ preorder bs := by
  induction as with
  | nil => rfl
  | cons f rest ih => rw [List.cons_append, preorder, preorder, ih, List.append_assoc]

theorem find?_append (as bs : List Field) (key : String) :
    find? (as ++ bs) key = (find? as key).or (find? bs key) := by
  rw [find?, preorder_append, List.find?_append]
  rfl

theorem find?_singleton (f : Field) (key : String) :
    find? [f] key = if f.key == key then some f else find? f.children key := by
  rw [find?, preorder, preorder, withDescendants_eq, List.append_nil, List.find?_cons]
  cases f.key == key <;> rfl

theorem find?_cons (f : Field) (rest : List Field) (key : String) :
    find? (f :: rest) key = (find? [f] key).or (find? rest key) := by
  rw [← List.singleton_append, find?_append]

theorem find?_eq_none {fs : List Field} {key : String} (h : ∀ f ∈ fs, find? [f] key = none) :
    find? fs key = none := by
  induction fs with
  | nil => rfl
  | cons f rest ih =>
    obtain ⟨hFirst, hRest⟩ := List.forall_mem_cons.mp h
    rw [find?_cons, hFirst, ih hRest]
    rfl

/-- What holds of a field if it holds of its children holds of every field. -/
theorem induct {P : Field → Prop} (h : ∀ f : Field, (∀ c ∈ f.children, P c) → P f) (f : Field) :
    P f :=
  -- the second motive is for the list of children
  Field.rec (motive_1 := P) (motive_2 := fun fs => ∀ c ∈ fs, P c)
    (fun _ _ _ _ _ _ _ _ _ _ hChildren => h _ hChildren)
    (fun _ hMem => nomatch hMem)
    (fun _ _ hHead hTail => List.forall_mem_cons.mpr ⟨hHead, hTail⟩) f

/-! ## The paths to the leaves -/

mutual

/-- The paths to the leaves of a field: the keys on the way, from outside in. -/
def leafPathsOf : Field → List (List String)
  | ⟨key, _, _, children, _, _, _, _, _, _⟩ =>
    if children.isEmpty then [[key]] else (leafPaths children).map (key :: ·)

/-- The paths to the leaves of fields. -/
def leafPaths : List Field → List (List String)
  | [] => []
  | f :: rest => f.leafPathsOf ++ leafPaths rest

end

theorem leafPathsOf_eq (f : Field) : f.leafPathsOf =
    if f.children.isEmpty then [[f.key]] else (leafPaths f.children).map (f.key :: ·) := by
  cases f
  rw [leafPathsOf]

theorem leafPaths_eq_flatMap (fs : List Field) : leafPaths fs = fs.flatMap leafPathsOf := by
  induction fs with
  | nil => rw [leafPaths, List.flatMap_nil]
  | cons f rest ih => rw [leafPaths, ih, List.flatMap_cons]

@[simp] theorem leafPaths_append (as bs : List Field) :
    leafPaths (as ++ bs) = leafPaths as ++ leafPaths bs := by
  rw [leafPaths_eq_flatMap, leafPaths_eq_flatMap, leafPaths_eq_flatMap, List.flatMap_append]

/-- Fields without children are their own leaves. -/
theorem leafPaths_of_leaves {fs : List Field} (h : ∀ f ∈ fs, f.children = []) :
    leafPaths fs = fs.map fun f => [f.key] := by
  induction fs with
  | nil => rfl
  | cons f rest ih =>
    obtain ⟨hHead, hTail⟩ := List.forall_mem_cons.mp h
    rw [leafPaths, leafPathsOf_eq, hHead, ih hTail]
    rfl

/-! ## Changing the leaves -/

theorem mapLeaves_isEmpty (change : Field → Field) (fs : List Field) :
    (mapLeaves change fs).isEmpty = fs.isEmpty := by
  cases fs <;> rfl

section

variable {change : Field → Field}

theorem leafPathsOf_mapLeaf (hKey : ∀ f, (change f).key = f.key)
    (hChildren : ∀ f, (change f).children = f.children) (f : Field) :
    (mapLeaf change f).leafPathsOf = f.leafPathsOf := by
  induction f using induct with
  | h f ih =>
    rw [mapLeaf_eq]
    split
    · rw [leafPathsOf_eq, leafPathsOf_eq, hKey, hChildren]
    · -- the children keep their paths, and a group stays a group
      have hLeaves : leafPaths (mapLeaves change f.children) = leafPaths f.children := by
        rw [mapLeaves_eq_map, leafPaths_eq_flatMap, leafPaths_eq_flatMap, List.flatMap_map,
          List.flatMap_def, List.flatMap_def, List.map_congr_left ih]
      rw [leafPathsOf_eq, leafPathsOf_eq, mapLeaves_isEmpty, hLeaves]

/-- A change that keeps keys and children moves no leaf. -/
theorem leafPaths_mapLeaves (hKey : ∀ f, (change f).key = f.key)
    (hChildren : ∀ f, (change f).children = f.children) (fs : List Field) :
    leafPaths (mapLeaves change fs) = leafPaths fs := by
  rw [mapLeaves_eq_map, leafPaths_eq_flatMap, leafPaths_eq_flatMap, List.flatMap_map,
    List.flatMap_def, List.flatMap_def,
    List.map_congr_left fun f _ => leafPathsOf_mapLeaf hKey hChildren f]

/-! ## Changing the first field with a key -/

variable {key : String}

/-- How one field changed: it is the changed field itself, or the change is under it. -/
theorem updateIn?_cases {f g : Field} (h : updateIn? key change f = some g) :
    f.key = key ∧ g = change f ∨ f.key ≠ key ∧
      ∃ cs, updateFirst? key change f.children = some cs ∧ g = { f with children := cs } := by
  rw [updateIn?_eq] at h
  split at h
  · next hKey => exact Or.inl ⟨eq_of_beq hKey, (Option.some.inj h).symm⟩
  · next hKey =>
    obtain ⟨cs, hcs, rfl⟩ := Option.map_eq_some_iff.mp h
    exact Or.inr ⟨fun hSame => hKey (beq_iff_eq.mpr hSame), cs, hcs, rfl⟩

/-- Of several fields exactly one changes. -/
theorem updateFirst?_cases {fs gs : List Field} (h : updateFirst? key change fs = some gs) :
    ∃ before f g after, fs = before ++ f :: after ∧ gs = before ++ g :: after ∧
      updateIn? key change f = some g ∧ ∀ b ∈ before, updateIn? key change b = none := by
  induction fs generalizing gs with
  | nil => cases h
  | cons f rest ih =>
    rw [updateFirst?] at h
    split at h
    · next g hg =>
      cases h
      exact ⟨[], f, g, rest, rfl, rfl, hg, nofun⟩
    · next hNone =>
      obtain ⟨more, hMore, rfl⟩ := Option.map_eq_some_iff.mp h
      obtain ⟨before, f', g, after, rfl, rfl, hg, hBefore⟩ := ih hMore
      exact ⟨f :: before, f', g, after, rfl, rfl, hg, List.forall_mem_cons.mpr ⟨hNone, hBefore⟩⟩

theorem updateIn?_eq_none {fs : List Field} (h : updateFirst? key change fs = none) :
    ∀ f ∈ fs, updateIn? key change f = none := by
  induction fs with
  | nil => exact nofun
  | cons f rest ih =>
    rw [updateFirst?] at h
    split at h
    · cases h
    · next hNone => exact List.forall_mem_cons.mpr ⟨hNone, ih (Option.map_eq_none_iff.mp h)⟩

/-- Where nothing changes, nothing has the key. -/
theorem find?_eq_none_of_updateIn? {fs : List Field}
    (h : ∀ f ∈ fs, updateIn? key change f = none) : find? fs key = none := by
  have hEach (f : Field) : updateIn? key change f = none → find? [f] key = none := by
    induction f using induct with
    | h f ih =>
      intro hNone
      rw [updateIn?_eq] at hNone
      rw [find?_singleton]
      split at hNone
      · cases hNone
      · next hOther =>
        rw [if_neg hOther]
        exact find?_eq_none fun c hc =>
          ih c hc (updateIn?_eq_none (Option.map_eq_none_iff.mp hNone) c hc)
  exact find?_eq_none fun f hf => hEach f (h f hf)

/-- The field that changes is the first one with the key. -/
theorem find?_of_updateIn? (hKey : ∀ f, (change f).key = f.key) {f g : Field}
    (h : updateIn? key change f = some g) :
    ∃ a, find? [f] key = some a ∧ find? [g] key = some (change a) := by
  induction f using induct generalizing g with
  | h f ih =>
    rcases updateIn?_cases h with ⟨hHere, rfl⟩ | ⟨hOther, cs, hcs, rfl⟩
    · refine ⟨f, ?_, ?_⟩
      · rw [find?_singleton, if_pos (beq_iff_eq.mpr hHere)]
      · rw [find?_singleton, if_pos (beq_iff_eq.mpr ((hKey f).trans hHere))]
    · have hNot : ¬ (f.key == key) = true := mt beq_iff_eq.mp hOther
      obtain ⟨before, c, d, after, hBefore, rfl, hd, hNone⟩ := updateFirst?_cases hcs
      have hMem : c ∈ f.children := hBefore ▸ List.mem_append_right _ List.mem_cons_self
      obtain ⟨a, hFound, hChanged⟩ := ih c hMem hd
      refine ⟨a, ?_, ?_⟩
      · rw [find?_singleton, if_neg hNot, hBefore, find?_append, find?_eq_none_of_updateIn? hNone,
          find?_cons, hFound]
        rfl
      · rw [find?_singleton, if_neg hNot, find?_append, find?_eq_none_of_updateIn? hNone,
          find?_cons, hChanged]
        rfl

theorem find?_updateFirst (hKey : ∀ f, (change f).key = f.key) (fs : List Field) :
    find? (updateFirst key change fs) key = (find? fs key).map change := by
  rw [updateFirst]
  cases h : updateFirst? key change fs with
  | none => rw [Option.getD_none, find?_eq_none_of_updateIn? (updateIn?_eq_none h), Option.map_none]
  | some gs =>
    obtain ⟨before, f, g, after, rfl, rfl, hg, hNone⟩ := updateFirst?_cases h
    obtain ⟨a, hFound, hChanged⟩ := find?_of_updateIn? hKey hg
    rw [Option.getD_some, find?_append, find?_append, find?_eq_none_of_updateIn? hNone,
      find?_cons f, find?_cons g, hFound, hChanged]
    rfl

/-- A field with another key looks the same after a change, its children apart. -/
theorem find?_updateFirst_of_ne {α : Type} {look : Field → α} {other : String} (hOther : other ≠ key)
    (hKey : ∀ f, (change f).key = f.key) (hChildren : ∀ f, (change f).children = f.children)
    (hLook : ∀ (f : Field) cs, look { f with children := cs } = look f) (fs : List Field) :
    (find? (updateFirst key change fs) other).map look = (find? fs other).map look := by
  have hList {before after : List Field} {f g : Field}
      (h : (find? [g] other).map look = (find? [f] other).map look) :
      (find? (before ++ g :: after) other).map look =
        (find? (before ++ f :: after) other).map look := by
    rw [find?_append, find?_append, find?_cons f, find?_cons g]
    cases find? before other with
    | some a => rfl
    | none =>
      rw [Option.none_or, Option.none_or]
      cases hf : find? [f] other <;> cases hg : find? [g] other <;> simp_all
  have hEach (f : Field) : ∀ g, updateIn? key change f = some g →
      (find? [g] other).map look = (find? [f] other).map look := by
    induction f using induct with
    | h f ih =>
      intro g h
      rcases updateIn?_cases h with ⟨hHere, rfl⟩ | ⟨-, cs, hcs, rfl⟩
      · have hNot : ¬ (f.key == other) = true := fun hSame =>
          hOther ((beq_iff_eq.mp hSame).symm.trans hHere)
        rw [find?_singleton, find?_singleton, hKey, hChildren, if_neg hNot, if_neg hNot]
      · rw [find?_singleton, find?_singleton]
        by_cases hSame : (f.key == other) = true
        · rw [if_pos hSame, if_pos hSame, Option.map_some, Option.map_some, hLook]
        · obtain ⟨before, c, d, after, hBefore, rfl, hd, -⟩ := updateFirst?_cases hcs
          have hMem : c ∈ f.children := hBefore ▸ List.mem_append_right _ List.mem_cons_self
          rw [if_neg hSame, if_neg hSame, hBefore]
          exact hList (ih c hMem d hd)
  rw [updateFirst]
  cases h : updateFirst? key change fs with
  | none => rfl
  | some gs =>
    obtain ⟨before, f, g, after, rfl, rfl, hg, -⟩ := updateFirst?_cases h
    exact hList (hEach f g hg)

theorem leafPathsOf_updateIn? (hKey : ∀ f, (change f).key = f.key)
    (hChildren : ∀ f, (change f).children = f.children) {f g : Field}
    (h : updateIn? key change f = some g) : g.leafPathsOf = f.leafPathsOf := by
  induction f using induct generalizing g with
  | h f ih =>
    rcases updateIn?_cases h with ⟨-, rfl⟩ | ⟨-, cs, hcs, rfl⟩
    · rw [leafPathsOf_eq, leafPathsOf_eq, hKey, hChildren]
    · obtain ⟨before, c, d, after, hBefore, rfl, hd, -⟩ := updateFirst?_cases hcs
      have hMem : c ∈ f.children := hBefore ▸ List.mem_append_right _ List.mem_cons_self
      have hLeaves : leafPaths (before ++ d :: after) = leafPaths f.children := by
        rw [hBefore, leafPaths_append, leafPaths_append, leafPaths, leafPaths, ih c hMem hd]
      rw [leafPathsOf_eq, leafPathsOf_eq, hLeaves, hBefore]
      -- with or without members before the changed one, there are children
      cases before <;> rfl

/-- A change that keeps key and children moves no leaf. -/
theorem leafPaths_updateFirst (hKey : ∀ f, (change f).key = f.key)
    (hChildren : ∀ f, (change f).children = f.children) (fs : List Field) :
    leafPaths (updateFirst key change fs) = leafPaths fs := by
  rw [updateFirst]
  cases h : updateFirst? key change fs with
  | none => rfl
  | some gs =>
    obtain ⟨before, f, g, after, rfl, rfl, hg, -⟩ := updateFirst?_cases h
    rw [Option.getD_some, leafPaths_append, leafPaths_append, leafPaths, leafPaths,
      leafPathsOf_updateIn? hKey hChildren hg]

end

/-! ## The first field with a key -/

section

variable {before after : List Field} {g : Field} {key : String}

/-- Behind fields without children that have other keys, a field is the first one with its key. -/
theorem find?_behind_leaves (hBefore : ∀ f ∈ before, f.children = [] ∧ f.key ≠ key)
    (hKey : g.key = key) : find? (before ++ g :: after) key = some g := by
  induction before with
  | nil =>
    rw [List.nil_append, find?, preorder, withDescendants_eq, List.cons_append, List.find?_cons]
    simp [hKey]
  | cons f rest ih =>
    obtain ⟨⟨hLeaf, hOther⟩, hRest⟩ := List.forall_mem_cons.mp hBefore
    -- the search goes under a field before it goes on, but under this one there is nothing
    have hSkip : (f.key == key) = false := beq_eq_false_iff_ne.mpr hOther
    rw [List.cons_append, find?, preorder, withDescendants_eq, hLeaf, preorder, List.cons_append,
      List.nil_append, List.find?_cons, hSkip]
    exact ih hRest

theorem updateFirst_behind_leaves {change : Field → Field}
    (hBefore : ∀ f ∈ before, f.children = [] ∧ f.key ≠ key) (hKey : g.key = key) :
    updateFirst key change (before ++ g :: after) = before ++ change g :: after := by
  suffices h :
      updateFirst? key change (before ++ g :: after) = some (before ++ change g :: after) by
    rw [updateFirst, h, Option.getD_some]
  induction before with
  | nil =>
    rw [List.nil_append, updateFirst?, updateIn?_eq, if_pos (beq_iff_eq.mpr hKey)]
    rfl
  | cons f rest ih =>
    obtain ⟨⟨hLeaf, hOther⟩, hRest⟩ := List.forall_mem_cons.mp hBefore
    have hSkip : updateIn? key change f = none := by
      rw [updateIn?_eq, if_neg fun h => hOther (eq_of_beq h), hLeaf]
      rfl
    rw [List.cons_append, updateFirst?, hSkip, ih hRest]
    rfl

end

/-! ## Properties of all fields -/

section

variable {P : Field → Prop} {change : Field → Field} {key : String}

/-- The property does not depend on what the children are, only on whether there are any. -/
def KeptByChildren (P : Field → Prop) : Prop :=
  ∀ f cs, cs.isEmpty = f.children.isEmpty → P f → P { f with children := cs }

/-- The property holds of the fields and of everything under them. -/
def Throughout (P : Field → Prop) (fs : List Field) : Prop :=
  ∀ f ∈ preorder fs, P f

@[simp] theorem throughout_nil : Throughout P [] :=
  fun _ h => nomatch h

theorem throughout_cons {f : Field} {rest : List Field} :
    Throughout P (f :: rest) ↔ (P f ∧ Throughout P f.children) ∧ Throughout P rest := by
  unfold Throughout
  rw [preorder, withDescendants_eq, List.forall_mem_append, List.forall_mem_cons]

/-- A property of all fields is one of each field and what is under it. -/
theorem throughout_iff_forall {fs : List Field} :
    Throughout P fs ↔ ∀ f ∈ fs, P f ∧ Throughout P f.children := by
  induction fs with
  | nil => simp
  | cons f rest ih => rw [throughout_cons, ih, List.forall_mem_cons]

@[simp] theorem throughout_append {as bs : List Field} :
    Throughout P (as ++ bs) ↔ Throughout P as ∧ Throughout P bs := by
  induction as with
  | nil => simp
  | cons f rest ih =>
    rw [List.cons_append, throughout_cons, ih, throughout_cons]
    exact and_assoc.symm

theorem throughout_of_leaves {fs : List Field} (hLeaves : ∀ f ∈ fs, f.children = [])
    (h : ∀ f ∈ fs, P f) : Throughout P fs := by
  refine throughout_iff_forall.mpr fun f hf => ⟨h f hf, ?_⟩
  rw [hLeaves f hf]
  exact throughout_nil

theorem holds_unlessHidden? (hChildren : KeptByChildren P)
    {hidden : List String} {f g : Field} (hKept : unlessHidden? hidden f = some g)
    (h : P f ∧ Throughout P f.children) : P g ∧ Throughout P g.children := by
  induction f using induct generalizing g with
  | h f ih =>
    rw [unlessHidden?_eq] at hKept
    split at hKept
    · cases hKept
    · split at hKept
      · cases hKept
        exact h
      · split at hKept
        · cases hKept
        · next hSome hKeptSome =>
          -- a group that stays has those of its children that stay
          cases hKept
          refine ⟨hChildren f _ ?_ h.1, ?_⟩
          · rw [eq_false_of_ne_true hSome, eq_false_of_ne_true hKeptSome]
          rw [dropHidden_eq_filterMap]
          have hUnder := throughout_iff_forall.mp h.2
          refine throughout_iff_forall.mpr fun c' hc' => ?_
          obtain ⟨c, hc, hc'⟩ := List.mem_filterMap.mp hc'
          exact ih c hc hc' (hUnder c hc)

/-- **A property that does not look at children passes to the fields that are not hidden.** -/
theorem throughout_dropHidden (hChildren : KeptByChildren P)
    {hidden : List String} {fs : List Field} (h : Throughout P fs) :
    Throughout P (dropHidden hidden fs) := by
  rw [dropHidden_eq_filterMap]
  refine throughout_iff_forall.mpr fun f' hf' => ?_
  obtain ⟨f, hf, hKept⟩ := List.mem_filterMap.mp hf'
  exact holds_unlessHidden? hChildren hKept (throughout_iff_forall.mp h f hf)

theorem holds_mapLeaf (hChildren : KeptByChildren P)
    (hChange : ∀ f, f.children = [] → P f → P (change f) ∧ Throughout P (change f).children)
    (f : Field) (h : P f ∧ Throughout P f.children) :
    P (mapLeaf change f) ∧ Throughout P (mapLeaf change f).children := by
  induction f using induct with
  | h f ih =>
    rw [mapLeaf_eq]
    split
    · next hEmpty => exact hChange f (List.isEmpty_iff.mp hEmpty) h.1
    · refine ⟨hChildren f _ (mapLeaves_isEmpty change f.children) h.1, ?_⟩
      rw [mapLeaves_eq_map]
      have hUnder := throughout_iff_forall.mp h.2
      refine throughout_iff_forall.mpr fun c' hc' => ?_
      obtain ⟨c, hc, rfl⟩ := List.mem_map.mp hc'
      exact ih c hc (hUnder c hc)

/-- **A property that does not look at children passes to fields with changed leaves.** -/
theorem throughout_mapLeaves (hChildren : KeptByChildren P)
    (hChange : ∀ f, f.children = [] → P f → P (change f) ∧ Throughout P (change f).children)
    {fs : List Field} (h : Throughout P fs) : Throughout P (mapLeaves change fs) := by
  rw [mapLeaves_eq_map]
  refine throughout_iff_forall.mpr fun f' hf' => ?_
  obtain ⟨f, hf, rfl⟩ := List.mem_map.mp hf'
  exact holds_mapLeaf hChildren hChange f (throughout_iff_forall.mp h f hf)

theorem holds_updateIn? (hChildren : KeptByChildren P) {f g : Field}
    (hChange : ∀ c, find? [f] key = some c → P c ∧ Throughout P c.children →
      P (change c) ∧ Throughout P (change c).children)
    (hUpdate : updateIn? key change f = some g) (h : P f ∧ Throughout P f.children) :
    P g ∧ Throughout P g.children := by
  induction f using induct generalizing g with
  | h f ih =>
    rcases updateIn?_cases hUpdate with ⟨hKey, rfl⟩ | ⟨hOther, cs, hcs, rfl⟩
    · exact hChange f (by rw [find?_singleton, if_pos (beq_iff_eq.mpr hKey)]) h
    · obtain ⟨before, c, d, after, hSplit, rfl, hd, hBefore⟩ := updateFirst?_cases hcs
      have hMem : c ∈ f.children := hSplit ▸ List.mem_append_right _ List.mem_cons_self
      have hUnder := h.2
      rw [hSplit, throughout_append, throughout_cons] at hUnder
      obtain ⟨hFront, hc, hBack⟩ := hUnder
      -- what is found in the child is found in the field
      have hFound : ∀ g, find? [c] key = some g → find? [f] key = some g := fun g hg => by
        rw [find?_singleton, if_neg fun hKey => hOther (eq_of_beq hKey), hSplit, find?_append,
          find?_eq_none_of_updateIn? hBefore, Option.none_or, ← List.singleton_append, find?_append,
          hg, Option.some_or]
      refine ⟨hChildren f _ ?_ h.1, throughout_append.mpr ⟨hFront, throughout_cons.mpr
        ⟨ih c hMem (fun g hg => hChange g (hFound g hg)) hd hc, hBack⟩⟩⟩
      -- with or without members before the changed one, there are children
      rw [hSplit]
      cases before <;> rfl

/-- **A property that does not look at children passes to fields one of which changed**, if it
passes to the one that is found and changed. -/
theorem throughout_updateFirst (hChildren : KeptByChildren P) {fs : List Field}
    (hChange : ∀ f, find? fs key = some f → P f ∧ Throughout P f.children →
      P (change f) ∧ Throughout P (change f).children)
    (h : Throughout P fs) : Throughout P (updateFirst key change fs) := by
  rw [updateFirst]
  cases hUpdate : updateFirst? key change fs with
  | none => exact h
  | some gs =>
    obtain ⟨before, f, g, after, rfl, rfl, hg, hBefore⟩ := updateFirst?_cases hUpdate
    rw [throughout_append, throughout_cons] at h
    obtain ⟨hFront, hf, hBack⟩ := h
    refine throughout_append.mpr
      ⟨hFront, throughout_cons.mpr ⟨holds_updateIn? hChildren (fun c hc => ?_) hg hf, hBack⟩⟩
    refine hChange c ?_
    rw [find?_append, find?_eq_none_of_updateIn? hBefore, Option.none_or,
      ← List.singleton_append, find?_append, hc, Option.some_or]

end

end IntegrationCompiler.Field
