import IntegrationCompiler.Manifest.Write

/-!
# What stands under a place

Directories are made only where a path passes, and removing a directory leaves nothing at its place
or under it.

Main definitions:

* `FileTree.arrival`, `FileTree.passed` — where names lead, and the places they pass on the way;
* `FileTree.Avoids` — a path that passes neither a place nor anything under it.

Main results:

* `FileTree.makeAll_under` — making directories changes nothing under a place that their paths avoid;
* `FileTree.clean_under` — what cleaning leaves under the place of the cleaned directory.
-/

namespace IntegrationCompiler.FileTree

variable {t t' : FileTree} {p q : Place} {names : List String} {path : Path}

/-! ## Ways -/

/-- The place to which names lead from a place, whether or not anything stands there. -/
def arrival : Place → List String → Place
  | p, [] => p
  | p, name :: rest => arrival (if name == ".." then p.dropLast else p ++ [name]) rest

/-- The places that names enter on their way from a place; a step up enters none. -/
def passed : Place → List String → List Place
  | _, [] => []
  | p, name :: rest =>
    if name == ".." then passed p.dropLast rest else (p ++ [name]) :: passed (p ++ [name]) rest

/-- The place of a path, whether or not anything stands there. -/
def placeOf (t : FileTree) (path : Path) : Place :=
  arrival (t.start path) path.parts

/-- A path that enters neither a place nor anything under it. -/
def Avoids (t : FileTree) (path : Path) (p : Place) : Prop :=
  ∀ q ∈ passed (t.start path) path.parts, ¬ p <+: q

/-- Without a step up, a way only leads on. -/
theorem prefix_arrival (hUp : ".." ∉ names) : p <+: arrival p names := by
  induction names generalizing p with
  | nil => exact List.prefix_rfl
  | cons name rest ih =>
    obtain ⟨hName, hRest⟩ := not_or.mp fun h => hUp (List.mem_cons.mpr h)
    have hOn : p ++ [name] <+: arrival (p ++ [name]) rest := ih hRest
    rw [arrival, beq_eq_false_iff_ne.mpr (Ne.symm hName)]
    exact (List.prefix_append p [name]).trans hOn

/-- Without a step up, all places passed lie on the way to the last one. -/
theorem prefix_arrival_of_passed (hUp : ".." ∉ names) (hq : q ∈ passed p names) :
    q <+: arrival p names := by
  induction names generalizing p with
  | nil => cases hq
  | cons name rest ih =>
    obtain ⟨hName, hRest⟩ := not_or.mp fun h => hUp (List.mem_cons.mpr h)
    rw [passed, beq_eq_false_iff_ne.mpr (Ne.symm hName)] at hq
    rw [arrival, beq_eq_false_iff_ne.mpr (Ne.symm hName)]
    rcases List.mem_cons.mp hq with rfl | hq
    · exact prefix_arrival hRest
    · exact ih hRest hq

/-- A path without steps up avoids every place that it does not end at or under. -/
theorem avoids_of_straight (hUp : ".." ∉ path.parts) (hOut : ¬ p <+: t.placeOf path) :
    t.Avoids path p :=
  fun _ hq hp => hOut (hp.trans (prefix_arrival_of_passed hUp hq))

/-- Where a path leads to a place, that is its place. -/
theorem arrival_of_follow (h : t.follow p names = .place q) : arrival p names = q := by
  induction names generalizing p with
  | nil =>
    cases h
    rfl
  | cons name rest ih =>
    rw [follow] at h
    split at h
    · cases h
    · split at h
      next hUp => rw [arrival, if_pos hUp]; exact ih h
      next hUp =>
        split at h
        · cases h
        · rw [arrival, if_neg hUp]; exact ih h

theorem placeOf_of_destination (h : t.destination path = .place p) : t.placeOf path = p := by
  rw [destination] at h
  split at h
  · cases h
  · exact arrival_of_follow h

/-! ## Making directories -/

@[simp] theorem put_here (t : FileTree) (p : Place) (node : FileNode) : (t.put p node).here = t.here :=
  rfl

/-- What is put outside a directory changes nothing in it. -/
theorem put_under (node : FileNode) (hOut : ¬ p <+: q) : (t.put q node).under p = t.under p := by
  have hq : p.isPrefixOf q = false := eq_false_of_ne_true fun h => hOut (List.isPrefixOf_iff_prefix.mp h)
  unfold put under
  split
  · -- An entry that is replaced stands outside both before and after.
    generalize t.entries = entries
    induction entries with
    | nil => rfl
    | cons entry rest ih =>
      obtain ⟨place, old⟩ := entry
      by_cases hPlace : place = q
      · subst hPlace
        simpa [hq] using ih
      · have hNe : (place == q) = false := by simpa using hPlace
        simp only [List.map_cons, hNe, Bool.false_eq_true, if_false, List.filter_cons]
        split
        · exact congrArg _ ih
        · exact ih
  · simp [hq]

/-- Making the directories along a way changes nothing under a place that the way avoids. -/
theorem makeAlong_under (h : t.makeAlong q names = some t')
    (hOut : ∀ w ∈ passed q names, ¬ p <+: w) : t'.under p = t.under p ∧ t'.here = t.here := by
  -- The induction is on the names still to be made; a step up makes nothing.
  induction names generalizing t q with
  | nil =>
    cases h
    exact ⟨rfl, rfl⟩
  | cons name rest ih =>
    rw [makeAlong] at h
    split at h
    next hUp => exact ih h fun w hw => hOut w (by rwa [passed, if_pos hUp])
    next hUp =>
      have hHere : ¬ p <+: q ++ [name] := hOut _ (by rw [passed, if_neg hUp]; exact List.mem_cons_self)
      have hRest : ∀ w ∈ passed (q ++ [name]) rest, ¬ p <+: w := fun w hw =>
        hOut w (by rw [passed, if_neg hUp]; exact List.mem_cons_of_mem _ hw)
      split at h
      · cases h
      · split at h
        · exact ih h hRest
        · cases h
        · obtain ⟨hUnder, hSame⟩ := ih h hRest
          exact ⟨hUnder.trans (put_under .directory hHere), hSame⟩

/-- Making a directory changes nothing under a place that its path avoids. -/
theorem makeDirectories_under (h : t.makeDirectories path = some t') (hOut : t.Avoids path p) :
    t'.under p = t.under p ∧ t'.here = t.here := by
  rw [makeDirectories] at h
  split at h
  · cases h
  · exact makeAlong_under h hOut

/-- Making directories changes nothing under a place that their paths avoid. -/
theorem makeAll_under {paths : List Path} (hOut : ∀ path ∈ paths, t.Avoids path p) :
    (t.makeAll paths).files.under p = t.under p ∧ (t.makeAll paths).files.here = t.here := by
  induction paths generalizing t with
  | nil => exact ⟨rfl, rfl⟩
  | cons path rest ih =>
    rw [makeAll]
    split
    · exact ⟨rfl, rfl⟩
    next made hMade =>
      obtain ⟨hUnder, hHere⟩ := makeDirectories_under hMade (hOut path List.mem_cons_self)
      -- Relative paths start where they did before, since the working directory stays.
      have hRest : ∀ path ∈ rest, made.Avoids path p := by
        intro other hOther
        have := hOut other (List.mem_cons_of_mem _ hOther)
        rwa [Avoids, start, ← hHere] at this
      obtain ⟨hUnder', hHere'⟩ := ih hRest
      exact ⟨hUnder'.trans hUnder, hHere'.trans hHere⟩

/-! ## Removing a directory -/

/-- Nothing is left at a place from which a directory was removed, or under it. -/
theorem remove_under (t : FileTree) (p : Place) : (t.remove p).under p = [] := by
  simp [remove, under, List.filter_filter]

/-- A directory that could be removed is gone with all that it held. -/
theorem removeDirectory_under (h : (t.removeDirectory path).1 = true) :
    (t.removeDirectory path).2.under (t.placeOf path) = [] := by
  unfold removeDirectory at h ⊢
  split at h
  next p hPlace =>
    rw [placeOf_of_destination hPlace]
    split at h
    · cases h
    next hDirectory =>
      split at h
      next hName => rw [if_neg hDirectory, if_pos hName]; exact remove_under t p
      · cases h
  · cases h

/-- **Cleaning.** Cleaning that succeeds leaves nothing of the directory; where there was none, it
changes nothing. -/
theorem clean_under {removed : Bool} (h : (t.clean path).result = .ok removed) :
    (t.clean path).files = t ∨ (t.clean path).files.under (t.placeOf path) = [] := by
  unfold clean at h ⊢
  split at h
  · exact .inl rfl
  · exact .inl rfl
  · refine .inr (removeDirectory_under ?_)
    cases hDone : (t.removeDirectory path).1 with
    | true => rfl
    | false => simp [hDone] at h

/-- Cleaning fails only where nobody planned for it. -/
theorem clean_malformed {failure : Failure} (h : (t.clean path).result = .error failure) :
    failure = .malformed := by
  unfold clean at h
  split at h
  · cases h
    rfl
  · cases h
  · cases hDone : (t.removeDirectory path).1 <;> simp [hDone] at h
    exact h.symm

end IntegrationCompiler.FileTree
