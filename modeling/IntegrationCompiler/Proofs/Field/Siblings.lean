import IntegrationCompiler.Proofs.Field.Tree
import Mathlib.Data.List.Duplicate

/-!
# Keys of siblings

An input is told apart from those beside it by its key alone, so no key should stand twice in one
list of fields, nor among the children of one field.

* `Field.childKeys` — for each field, at any depth, the keys of its children;
* `Field.keys_mapLeaves`, `Field.childKeys_mapLeaves`, `Field.keys_updateFirst`,
  `Field.childKeys_updateFirst` — changes of anything but keys and children leave all these lists as
  they are;
* `duplicate_append_cons` — which members are repeated once another one is put in between.
-/

namespace IntegrationCompiler

/-- In a list without repetitions that gets one more member, only that can be repeated. -/
theorem duplicate_append_cons {α : Type} {before after : List α} {a b : α}
    (h : (before ++ after).Nodup) :
    List.Duplicate b (before ++ a :: after) ↔ a = b ∧ b ∈ before ++ after := by
  classical
  have hCount : (before ++ a :: after).count b = (a :: (before ++ after)).count b :=
    List.perm_middle.count_eq b
  rw [List.duplicate_iff_two_le_count, hCount, ← List.duplicate_iff_two_le_count,
    List.duplicate_cons_iff]
  constructor
  · rintro (hHere | hThere)
    · exact hHere
    · exact absurd h (List.Duplicate.not_nodup hThere)
  · exact Or.inl

namespace Field

/-- For each field, at any depth, the keys of its children. -/
def childKeys (fs : List Field) : List (List String) :=
  (preorder fs).map fun f => f.children.map (·.key)

theorem childKeys_append (as bs : List Field) :
    childKeys (as ++ bs) = childKeys as ++ childKeys bs := by
  rw [childKeys, preorder_append, List.map_append]
  rfl

theorem childKeys_singleton (f : Field) :
    childKeys [f] = f.children.map (·.key) :: childKeys f.children := by
  rw [childKeys, preorder, withDescendants_eq, preorder, List.append_nil, List.map_cons]
  rfl

theorem childKeys_cons (f : Field) (rest : List Field) :
    childKeys (f :: rest) = childKeys [f] ++ childKeys rest := by
  rw [← List.singleton_append, childKeys_append]

theorem childKeys_eq_flatMap (fs : List Field) :
    childKeys fs = fs.flatMap fun f => childKeys [f] := by
  induction fs with
  | nil => rfl
  | cons f rest ih => rw [childKeys_cons, ih, List.flatMap_cons]

/-- Fields without children have none that could share a key. -/
theorem eq_nil_of_mem_childKeys {fs : List Field} (h : ∀ f ∈ fs, f.children = [])
    {keys : List String} (hMem : keys ∈ childKeys fs) : keys = [] := by
  rw [childKeys_eq_flatMap] at hMem
  obtain ⟨f, hf, hKeys⟩ := List.mem_flatMap.mp hMem
  rw [childKeys_singleton, h f hf] at hKeys
  exact List.mem_singleton.mp hKeys

section

variable {change : Field → Field} (hKey : ∀ f, (change f).key = f.key)
  (hChildren : ∀ f, (change f).children = f.children)

include hKey

/-! ## Changing the leaves -/

theorem key_mapLeaf (f : Field) : (mapLeaf change f).key = f.key := by
  rw [mapLeaf_eq]
  split
  · exact hKey f
  · rfl

theorem keys_mapLeaves (fs : List Field) :
    (mapLeaves change fs).map (·.key) = fs.map (·.key) := by
  rw [mapLeaves_eq_map, List.map_map]
  exact List.map_congr_left fun f _ => key_mapLeaf hKey f

include hChildren

theorem childKeys_mapLeaf (f : Field) : childKeys [mapLeaf change f] = childKeys [f] := by
  induction f using induct with
  | h f ih =>
    rw [mapLeaf_eq]
    split
    · rw [childKeys_singleton, childKeys_singleton, hChildren]
    · -- the children keep their keys, and so do those under them
      have hUnder : childKeys (mapLeaves change f.children) = childKeys f.children := by
        rw [mapLeaves_eq_map, childKeys_eq_flatMap, childKeys_eq_flatMap, List.flatMap_map,
          List.flatMap_def, List.flatMap_def, List.map_congr_left ih]
      rw [childKeys_singleton, childKeys_singleton]
      dsimp only
      rw [keys_mapLeaves hKey, hUnder]

theorem childKeys_mapLeaves (fs : List Field) :
    childKeys (mapLeaves change fs) = childKeys fs := by
  rw [mapLeaves_eq_map, childKeys_eq_flatMap, childKeys_eq_flatMap, List.flatMap_map,
    List.flatMap_def, List.flatMap_def,
    List.map_congr_left fun f _ => childKeys_mapLeaf hKey hChildren f]

omit hChildren

/-! ## Changing the first field with a key -/

variable {key : String}

theorem key_updateIn? {f g : Field} (h : updateIn? key change f = some g) : g.key = f.key := by
  rcases updateIn?_cases h with ⟨-, rfl⟩ | ⟨-, cs, -, rfl⟩
  · exact hKey f
  · rfl

theorem keys_updateFirst (fs : List Field) :
    (updateFirst key change fs).map (·.key) = fs.map (·.key) := by
  rw [updateFirst]
  cases h : updateFirst? key change fs with
  | none => rfl
  | some gs =>
    obtain ⟨before, f, g, after, rfl, rfl, hg, -⟩ := updateFirst?_cases h
    rw [Option.getD_some, List.map_append, List.map_append, List.map_cons, List.map_cons,
      key_updateIn? hKey hg]

include hChildren

theorem childKeys_updateIn? {f g : Field} (h : updateIn? key change f = some g) :
    childKeys [g] = childKeys [f] := by
  induction f using induct generalizing g with
  | h f ih =>
    rcases updateIn?_cases h with ⟨-, rfl⟩ | ⟨-, cs, hcs, rfl⟩
    · rw [childKeys_singleton, childKeys_singleton, hChildren]
    · obtain ⟨before, c, d, after, hBefore, rfl, hd, -⟩ := updateFirst?_cases hcs
      have hMem : c ∈ f.children := hBefore ▸ List.mem_append_right _ List.mem_cons_self
      have hKeys : (before ++ d :: after).map (·.key) = f.children.map (·.key) := by
        rw [hBefore, List.map_append, List.map_append, List.map_cons, List.map_cons,
          key_updateIn? hKey hd]
      have hUnder : childKeys (before ++ d :: after) = childKeys f.children := by
        rw [hBefore, childKeys_append, childKeys_append, childKeys_cons, childKeys_cons c,
          ih c hMem hd]
      rw [childKeys_singleton, childKeys_singleton]
      dsimp only
      rw [hKeys, hUnder]

theorem childKeys_updateFirst (fs : List Field) :
    childKeys (updateFirst key change fs) = childKeys fs := by
  rw [updateFirst]
  cases h : updateFirst? key change fs with
  | none => rfl
  | some gs =>
    obtain ⟨before, f, g, after, rfl, rfl, hg, -⟩ := updateFirst?_cases h
    rw [Option.getD_some, childKeys_append, childKeys_append, childKeys_cons, childKeys_cons f,
      childKeys_updateIn? hKey hChildren hg]

end

/-- Among fields without children, some of which have the key, one of these is found. -/
theorem exists_find?_of_leaves {before : List Field} {key : String}
    (hLeaves : ∀ f ∈ before, f.children = []) (hMem : key ∈ before.map (·.key))
    (rest : List Field) : ∃ f ∈ before, find? (before ++ rest) key = some f := by
  induction before with
  | nil => cases hMem
  | cons f more ih =>
    obtain ⟨hLeaf, hMore⟩ := List.forall_mem_cons.mp hLeaves
    rw [List.cons_append, find?_cons, find?_singleton]
    by_cases hSame : (f.key == key) = true
    · rw [if_pos hSame]
      exact ⟨f, List.mem_cons_self, rfl⟩
    · have hThere : key ∈ more.map (·.key) := by
        rw [List.map_cons, List.mem_cons] at hMem
        exact hMem.resolve_left fun h => hSame (beq_iff_eq.mpr h.symm)
      obtain ⟨f', hf', hFound⟩ := ih hMore hThere
      rw [if_neg hSame, hLeaf, hFound]
      exact ⟨f', List.mem_cons_of_mem _ hf', rfl⟩

end Field

end IntegrationCompiler
