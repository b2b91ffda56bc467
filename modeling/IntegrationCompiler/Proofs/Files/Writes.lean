import IntegrationCompiler.Proofs.Files.Under

/-!
# Making directories and writing files

Directories that can be made can be reached afterwards, and stay. A file that is written changes
nowhere whether there is a directory, so it does not depend on the order which files can be written.

Main definitions:

* `FileTree.Grounded` — whatever stands somewhere stands in a directory;
* `FileTree.Extends` — a tree with more directories and the same files;
* `FileTree.Accepts` — a file can be written at a path, which leads to a place.

Main results:

* `FileTree.makeAll_extends`, `FileTree.makeAll_reaches` — what making directories does;
* `FileTree.writeAll_eq_ok_iff` — when files can be written;
* `FileTree.writeAll_content`, `FileTree.writeAll_elsewhere` — what stands where after they were.
-/

namespace IntegrationCompiler.FileTree

variable {t t' : FileTree} {p q : Place} {node : FileNode} {names : List String} {path : Path}

/-! ## What stands at a place -/

theorem lookup_map_replace (entries : List (Place × FileNode)) (p q : Place) (node : FileNode) :
    (entries.map fun (w, old) => if w == p then (w, node) else (w, old)).lookup q =
      (entries.lookup q).map fun old => if q == p then node else old := by
  induction entries with
  | nil => rfl
  | cons entry rest ih =>
    obtain ⟨w, old⟩ := entry
    have hPair : (if w == p then (w, node) else (w, old)) = (w, if w == p then node else old) := by
      split <;> rfl
    rw [List.map_cons]
    dsimp only
    rw [hPair, List.lookup_cons, List.lookup_cons, ih]
    by_cases hq : q = w
    · subst hq
      simp
    · rw [beq_eq_false_iff_ne.mpr hq]

/-- What is put at a place stands there, and nothing else changes. -/
theorem node?_put (hp : p ≠ []) (node : FileNode) (q : Place) :
    (t.put p node).node? q = if q = p then some node else t.node? q := by
  cases q with
  | nil => rw [if_neg hp.symm]; rfl
  | cons name rest =>
    show (t.put p node).entries.lookup (name :: rest) =
      if name :: rest = p then some node else t.entries.lookup (name :: rest)
    generalize name :: rest = q
    unfold put
    split
    · next hThere =>
      obtain ⟨old, hOld⟩ := Option.isSome_iff_exists.mp hThere
      rw [lookup_map_replace]
      by_cases hq : q = p
      · rw [if_pos hq, hq, hOld, Option.map_some, beq_self_eq_true, if_pos rfl]
      · rw [if_neg hq, beq_eq_false_iff_ne.mpr hq]
        exact Option.map_id'
    · next hAbsent =>
      have hNone : t.entries.lookup p = none := Option.not_isSome_iff_eq_none.mp hAbsent
      rw [List.lookup_append, List.lookup_cons]
      by_cases hq : q = p
      · rw [if_pos hq, hq, hNone, beq_self_eq_true, Option.none_or]
      · rw [if_neg hq, beq_eq_false_iff_ne.mpr hq, List.lookup_nil, Option.or_none]

theorem isDirectory_iff : t.isDirectory p = true ↔ t.node? p = some .directory := by
  rw [isDirectory, beq_iff_eq]

theorem isDirectory_nil (t : FileTree) : t.isDirectory [] = true :=
  rfl

theorem ne_nil_of_not_isDirectory (h : t.isDirectory p = false) : p ≠ [] := by
  rintro rfl
  cases h

/-- A file that is written changes nowhere whether there is a directory. -/
theorem isDirectory_put_file (h : t.isDirectory p = false) (octets : List UInt8) (q : Place) :
    (t.put p (.file octets)).isDirectory q = t.isDirectory q := by
  rw [isDirectory, node?_put (ne_nil_of_not_isDirectory h)]
  by_cases hq : q = p
  · rw [if_pos hq, hq, h]
    rfl
  · rw [if_neg hq, isDirectory]

/-! ## Following names -/

theorem arrival_append (p : Place) (names more : List String) :
    arrival p (names ++ more) = arrival (arrival p names) more := by
  induction names generalizing p with
  | nil => rfl
  | cons name rest ih => rw [List.cons_append, arrival, arrival, ih]

/-- Without a step up, the names are entered one after the other. -/
theorem arrival_eq_append (hUp : ".." ∉ names) (p : Place) : arrival p names = p ++ names := by
  induction names generalizing p with
  | nil => rw [List.append_nil]; rfl
  | cons name rest ih =>
    obtain ⟨hName, hRest⟩ := not_or.mp fun h => hUp (List.mem_cons.mpr h)
    rw [arrival, beq_eq_false_iff_ne.mpr (Ne.symm hName), if_neg Bool.false_ne_true, ih hRest,
      List.append_assoc, List.singleton_append]

theorem follow_append (p : Place) (names more : List String) :
    t.follow p (names ++ more) = match t.follow p names with
      | .place q => t.follow q more
      | other => other := by
  induction names generalizing p with
  | nil => rfl
  | cons name rest ih =>
    rw [List.cons_append, follow, follow]
    split
    · rfl
    split
    · exact ih _
    split
    · rfl
    · exact ih _

/-- Where there are the same directories, names lead to the same place. -/
theorem follow_congr (h : ∀ q, t'.isDirectory q = t.isDirectory q) (p : Place)
    (names : List String) : t'.follow p names = t.follow p names := by
  induction names generalizing p with
  | nil => rfl
  | cons name rest ih => rw [follow, follow, h, ih, ih]

/-- Where there are more directories, names lead where they led. -/
theorem follow_mono (h : ∀ q, t.isDirectory q = true → t'.isDirectory q = true)
    (hFollow : t.follow p names = .place q) : t'.follow p names = .place q := by
  induction names generalizing p with
  | nil => exact hFollow
  | cons name rest ih =>
    rw [follow] at hFollow ⊢
    split at hFollow
    · cases hFollow
    next hHere =>
      have hThere : t'.isDirectory p = true := h p (by simpa using hHere)
      rw [hThere, Bool.not_true, if_neg Bool.false_ne_true]
      split at hFollow
      next hUp => rw [if_pos hUp]; exact ih hFollow
      next hUp =>
        rw [if_neg hUp]
        split at hFollow
        · cases hFollow
        next hShort => rw [if_neg hShort]; exact ih hFollow

/-! ## Making directories -/

/-- Whatever stands somewhere stands in a directory, and so does the working directory. -/
structure Grounded (t : FileTree) : Prop where
  here : t.isDirectory t.here = true
  parent : ∀ p, (t.node? p).isSome → t.isDirectory p.dropLast = true

/-- The second tree has the files of the first one, and all its directories. -/
structure Extends (t t' : FileTree) : Prop where
  here : t'.here = t.here
  directories : ∀ p, t.isDirectory p = true → t'.isDirectory p = true
  files : ∀ p octets, t'.node? p = some (.file octets) ↔ t.node? p = some (.file octets)
  grounded : t.Grounded → t'.Grounded

theorem Extends.refl (t : FileTree) : Extends t t :=
  ⟨rfl, fun _ h => h, fun _ _ => Iff.rfl, id⟩

theorem Extends.trans {t'' : FileTree} (h : Extends t t') (h' : Extends t' t'') : Extends t t'' where
  here := h'.here.trans h.here
  directories p hp := h'.directories p (h.directories p hp)
  files p octets := (h'.files p octets).trans (h.files p octets)
  grounded ht := h'.grounded (h.grounded ht)

theorem Grounded.start (h : t.Grounded) (path : Path) : t.isDirectory (t.start path) = true := by
  unfold FileTree.start
  split
  · exact isDirectory_nil t
  · exact h.here

theorem Grounded.dropLast (h : t.Grounded) (hp : t.isDirectory p = true) :
    t.isDirectory p.dropLast = true := by
  refine h.parent p ?_
  rw [isDirectory_iff.mp hp]
  rfl

/-- A new directory in a directory. -/
theorem extends_put_directory (hNone : t.node? p = none) (hIn : t.isDirectory p.dropLast = true) :
    Extends t (t.put p .directory) := by
  have hp : p ≠ [] := by
    rintro rfl
    cases hNone
  have hNode := node?_put (t := t) hp .directory
  have hDirectories : ∀ q, t.isDirectory q = true → (t.put p .directory).isDirectory q = true := by
    intro q hq
    rw [isDirectory_iff, hNode]
    split
    · rfl
    · exact isDirectory_iff.mp hq
  -- nothing stood at the place, so no file is lost, and the directory stands in one
  refine ⟨rfl, hDirectories, fun q octets => ?_, fun h => ⟨hDirectories _ h.here, fun q hq => ?_⟩⟩
  · rw [hNode]
    split
    · next hEq => simp [hEq, hNone]
    · rfl
  · rw [hNode] at hq
    refine hDirectories _ ?_
    split at hq
    · next hEq => rwa [hEq]
    · exact h.parent q hq

theorem makeAlong_extends (ht : t.Grounded) (hp : t.isDirectory p = true)
    (h : t.makeAlong p names = some t') :
    Extends t t' ∧ t'.follow p names = .place (arrival p names) ∧
      t'.isDirectory (arrival p names) = true := by
  -- The induction is on the names; each leads into a directory that was there or is made.
  induction names generalizing t p with
  | nil =>
    cases h
    exact ⟨.refl _, rfl, hp⟩
  | cons name rest ih =>
    rw [makeAlong] at h
    rw [arrival, follow]
    split at h
    next hUp =>
      obtain ⟨hExtends, hFollow, hEnd⟩ := ih ht (ht.dropLast hp) h
      rw [if_pos hUp, hExtends.directories p hp, Bool.not_true, if_neg Bool.false_ne_true,
        if_pos hUp]
      exact ⟨hExtends, hFollow, hEnd⟩
    next hUp =>
      split at h
      · cases h
      next hShort =>
        rw [if_neg hUp]
        -- whether the directory was there or is new, the rest is made from it
        have hGoal {made : FileTree} (hMade : Extends t made)
            (hThere : made.isDirectory (p ++ [name]) = true)
            (h : made.makeAlong (p ++ [name]) rest = some t') := by
          have hRest := ih (hMade.grounded ht) hThere h
          have hStart := hRest.1.directories p (hMade.directories p hp)
          exact And.intro (hMade.trans hRest.1) (And.intro hStart hRest.2)
        suffices hAll : Extends t t' ∧ t'.isDirectory p = true ∧
            t'.follow (p ++ [name]) rest = .place (arrival (p ++ [name]) rest) ∧
            t'.isDirectory (arrival (p ++ [name]) rest) = true by
          obtain ⟨hExtends, hStart, hFollow, hEnd⟩ := hAll
          rw [hStart, Bool.not_true, if_neg Bool.false_ne_true, if_neg hUp, if_neg hShort]
          exact ⟨hExtends, hFollow, hEnd⟩
        split at h
        next hNode => exact hGoal (.refl _) (isDirectory_iff.mpr hNode) h
        · cases h
        next hNode =>
          refine hGoal (extends_put_directory hNode (by rwa [List.dropLast_concat])) ?_ h
          rw [isDirectory_iff, node?_put (by simp), if_pos rfl]

/-- A path leads to its place, where there is a directory. -/
structure Reaches (t : FileTree) (path : Path) : Prop where
  destination_eq : t.destination path = .place (t.placeOf path)
  isDirectory_eq : t.isDirectory (t.placeOf path) = true

theorem Extends.start_eq (h : Extends t t') (path : Path) : t'.start path = t.start path := by
  rw [start, start, h.here]

theorem Extends.placeOf_eq (h : Extends t t') (path : Path) : t'.placeOf path = t.placeOf path := by
  rw [placeOf, placeOf, h.start_eq]

theorem Reaches.mono (hPath : t.Reaches path) (h : Extends t t') : t'.Reaches path := by
  obtain ⟨hDestination, hDirectory⟩ := hPath
  constructor
  · rw [h.placeOf_eq]
    rw [destination] at hDestination ⊢
    split at hDestination
    · cases hDestination
    next hNamable =>
      rw [if_neg hNamable, h.start_eq]
      exact follow_mono h.directories hDestination
  · rw [h.placeOf_eq]
    exact h.directories _ hDirectory

/-- A directory that was made can be reached. -/
theorem makeDirectories_extends (ht : t.Grounded) (h : t.makeDirectories path = some t') :
    Extends t t' ∧ t'.Reaches path := by
  rw [makeDirectories] at h
  split at h
  · cases h
  next hNamable =>
    obtain ⟨hExtends, hFollow, hDirectory⟩ := makeAlong_extends ht (ht.start path) h
    refine ⟨hExtends, ?_, ?_⟩
    · rw [destination, if_neg hNamable, hExtends.start_eq, hExtends.placeOf_eq]
      exact hFollow
    · rw [hExtends.placeOf_eq]
      exact hDirectory

/-- Making directories leaves the files as they are, whether or not all directories can be made. -/
theorem makeAll_extends (ht : t.Grounded) (paths : List Path) :
    Extends t (t.makeAll paths).files := by
  induction paths generalizing t with
  | nil => exact .refl _
  | cons path rest ih =>
    rw [makeAll]
    split
    · exact .refl _
    next made hMade =>
      obtain ⟨hExtends, -⟩ := makeDirectories_extends ht hMade
      exact hExtends.trans (ih (hExtends.grounded ht))

theorem makeAll_reaches (ht : t.Grounded) {paths : List Path}
    (h : (t.makeAll paths).result = .ok ()) :
    ∀ path ∈ paths, (t.makeAll paths).files.Reaches path := by
  induction paths generalizing t with
  | nil => exact nofun
  | cons path rest ih =>
    rw [makeAll] at h ⊢
    split at h
    · cases h
    next made hMade =>
      obtain ⟨hExtends, hPath⟩ := makeDirectories_extends ht hMade
      have hGrounded := hExtends.grounded ht
      exact List.forall_mem_cons.mpr
        ⟨hPath.mono (makeAll_extends hGrounded rest), ih hGrounded h⟩

/-! ## Paths seen from a directory -/

variable {output inner : Path}

/-- Without a step up, a path seen from a directory stays in it. -/
theorem placeOf_join (hInner : inner.isAbsolute = false) (hUp : ".." ∉ inner.parts) :
    t.placeOf (output.join inner) = t.placeOf output ++ inner.parts := by
  rw [Path.join, hInner, if_neg Bool.false_ne_true]
  exact (arrival_append _ _ _).trans (arrival_eq_append hUp _)

/-- Whoever reaches a place in a directory reaches the directory. -/
theorem reaches_of_concat {directory : Path} {name : String}
    (h : t.Reaches { directory with parts := directory.parts ++ [name] }) : t.Reaches directory := by
  have hDestination := h.destination_eq
  rw [destination] at hDestination
  split at hDestination
  · cases hDestination
  next hNamable =>
    have hFollow : t.follow (t.start directory) (directory.parts ++ [name]) = .place _ := hDestination
    have hPart : ¬ isUnnamable directory = true := by
      rw [isUnnamable, List.any_append, Bool.or_eq_true, not_or] at hNamable
      exact hNamable.1
    rw [follow_append] at hFollow
    -- the last name was entered, so what is before it leads to a directory
    split at hFollow
    next q hBefore =>
      have hPlace : t.placeOf directory = q := arrival_of_follow hBefore
      refine ⟨by rw [destination, if_neg hPart, hPlace, hBefore], ?_⟩
      rw [follow] at hFollow
      split at hFollow
      · cases hFollow
      next hDirectory =>
        rw [hPlace]
        simpa using hDirectory
    next hOther => exact absurd hFollow (hOther _)

/-- In a directory that can be reached a name leads to its place, if it can be one. -/
theorem destination_concat {directory : Path} {name : String} (h : t.Reaches directory)
    (hUp : name ≠ "..") :
    t.destination { directory with parts := directory.parts ++ [name] } = .place p ↔
      '\x00' ∉ name.toList ∧ name.utf8ByteSize ≤ maxNameLength ∧
        p = t.placeOf directory ++ [name] := by
  obtain ⟨hDestination, hDirectory⟩ := h
  generalize t.placeOf directory = q at *
  rw [destination] at hDestination
  split at hDestination
  · cases hDestination
  next hNamable =>
    have hBefore : isUnnamable directory = false := Bool.eq_false_iff.mpr hNamable
    -- the names before the last one were possible already
    have hNul : isUnnamable { directory with parts := directory.parts ++ [name] } =
        name.toList.contains '\x00' := by
      rw [isUnnamable] at hBefore ⊢
      rw [List.any_append, hBefore, Bool.false_or]
      exact Bool.or_false _
    -- they lead to the directory, so only the length of the last one matters
    have hLast : t.follow (t.start directory) (directory.parts ++ [name]) =
        if maxNameLength < name.utf8ByteSize then .tooLong else .place (q ++ [name]) := by
      rw [follow_append, hDestination]
      dsimp only
      rw [follow, hDirectory, Bool.not_true, if_neg Bool.false_ne_true,
        beq_eq_false_iff_ne.mpr hUp, if_neg Bool.false_ne_true]
      rfl
    rw [destination, hNul]
    split
    next hBad =>
      constructor
      · intro h
        cases h
      · exact fun h => absurd (List.contains_iff_mem.mp hBad) h.1
    next hGood =>
      have hMem : '\x00' ∉ name.toList := fun h => hGood (List.contains_iff_mem.mpr h)
      show t.follow (t.start directory) (directory.parts ++ [name]) = .place p ↔ _
      rw [hLast]
      split
      next hLong =>
        constructor
        · intro h
          cases h
        · exact fun h => absurd hLong (Nat.not_lt.mpr h.2.1)
      next hShort =>
        rw [Destination.place.injEq]
        exact ⟨fun h => ⟨hMem, Nat.not_lt.mp hShort, h.symm⟩, fun h => h.2.2.symm⟩

/-! ## Writing files -/

/-- A file can be written at a path, which leads to a place in a directory. -/
structure Accepts (t : FileTree) (path : Path) (p : Place) : Prop where
  destination_eq : t.destination path = .place p
  not_directory : t.isDirectory p = false
  parent : t.isDirectory p.dropLast = true

theorem write_eq_some_iff {octets : List UInt8} : t.write path octets = some t' ↔
    ∃ p, t.Accepts path p ∧ t' = t.put p (.file octets) := by
  rw [write]
  constructor
  · intro h
    split at h
    next p hPlace =>
      split at h
      · cases h
      next hFree =>
        cases h
        rw [Bool.or_eq_true, not_or, Bool.not_eq_true, Bool.not_eq_true, Bool.not_eq_false'] at hFree
        exact ⟨p, ⟨hPlace, hFree.1, hFree.2⟩, rfl⟩
    · cases h
  · rintro ⟨p, ⟨hPlace, hFree, hParent⟩, rfl⟩
    rw [hPlace]
    dsimp only
    rw [hFree, hParent]
    rfl

/-- In a directory that can be reached a file can be written under every possible name, unless there
is a directory of that name. -/
theorem exists_accepts_concat {directory : Path} {name : String} (h : t.Reaches directory)
    (hUp : name ≠ "..") :
    (∃ p, t.Accepts { directory with parts := directory.parts ++ [name] } p) ↔
      '\x00' ∉ name.toList ∧ name.utf8ByteSize ≤ maxNameLength ∧
        t.isDirectory (t.placeOf directory ++ [name]) = false := by
  constructor
  · rintro ⟨p, hPlace, hFree, -⟩
    obtain ⟨hNul, hShort, rfl⟩ := (destination_concat h hUp).mp hPlace
    exact ⟨hNul, hShort, hFree⟩
  · rintro ⟨hNul, hShort, hFree⟩
    refine ⟨_, (destination_concat h hUp).mpr ⟨hNul, hShort, rfl⟩, hFree, ?_⟩
    rw [List.dropLast_concat]
    exact h.isDirectory_eq

/-- No path leads elsewhere once a file was written. -/
theorem destination_put_file (h : t.isDirectory p = false) (octets : List UInt8) (path : Path) :
    (t.put p (.file octets)).destination path = t.destination path := by
  rw [destination, destination]
  split
  · rfl
  · exact follow_congr (isDirectory_put_file h octets) _ _

theorem accepts_put_file (h : t.isDirectory p = false) (octets : List UInt8) :
    (t.put p (.file octets)).Accepts path q ↔ t.Accepts path q := by
  constructor
  · rintro ⟨hPlace, hFree, hParent⟩
    rw [destination_put_file h] at hPlace
    rw [isDirectory_put_file h] at hFree hParent
    exact ⟨hPlace, hFree, hParent⟩
  · rintro ⟨hPlace, hFree, hParent⟩
    refine ⟨?_, ?_, ?_⟩
    · rwa [destination_put_file h]
    · rwa [isDirectory_put_file h]
    · rwa [isDirectory_put_file h]

/-- The first file is written, and then the others, or nothing is. -/
theorem writeAll_cons (t : FileTree) (file : PlannedFile) (rest : List PlannedFile) :
    (∃ text p, file.text = .ok text ∧ t.Accepts file.path p ∧
      t.writeAll (file :: rest) = (t.put p (.file (Text.Utf8.encode text))).writeAll rest) ∨
    ((t.writeAll (file :: rest)).result ≠ .ok () ∧ (t.writeAll (file :: rest)).files = t ∧
      ¬ ((∃ text, file.text = .ok text) ∧ ∃ p, t.Accepts file.path p)) := by
  rw [writeAll]
  cases hText : file.text with
  | error failure => exact Or.inr ⟨nofun, rfl, fun h => nomatch h.1⟩
  | ok text =>
    dsimp only
    cases hWrite : t.write file.path (Text.Utf8.encode text) with
    | none =>
      refine Or.inr ⟨nofun, rfl, fun ⟨_, p, hp⟩ => ?_⟩
      have hSome : t.write file.path (Text.Utf8.encode text) = some _ :=
        write_eq_some_iff.mpr ⟨p, hp, rfl⟩
      exact nomatch hWrite.symm.trans hSome
    | some made =>
      obtain ⟨p, hp, rfl⟩ := write_eq_some_iff.mp hWrite
      exact Or.inl ⟨text, p, rfl, hp, rfl⟩

variable {planned : List PlannedFile}

/-- **Files can be written if each has a text and each could be written alone.** -/
theorem writeAll_eq_ok_iff : (t.writeAll planned).result = .ok () ↔
    ∀ file ∈ planned, (∃ text, file.text = .ok text) ∧ ∃ p, t.Accepts file.path p := by
  induction planned generalizing t with
  | nil => exact ⟨nofun, fun _ => rfl⟩
  | cons file rest ih =>
    rw [List.forall_mem_cons]
    rcases writeAll_cons t file rest with ⟨text, p, hText, hp, hRest⟩ | ⟨hFails, -, hNot⟩
    · rw [hRest, ih]
      simp only [accepts_put_file hp.not_directory]
      exact ⟨fun h => ⟨⟨⟨text, hText⟩, p, hp⟩, h⟩, And.right⟩
    · exact ⟨fun h => absurd h hFails, fun h => absurd h.1 hNot⟩

/-- Nothing changes at a place to which no path of a file leads, whether or not all files can be
written. -/
theorem writeAll_elsewhere (h : ∀ file ∈ planned, t.destination file.path ≠ .place q) :
    (t.writeAll planned).files.node? q = t.node? q := by
  induction planned generalizing t with
  | nil => rfl
  | cons file rest ih =>
    rw [List.forall_mem_cons] at h
    rcases writeAll_cons t file rest with ⟨text, p, -, hp, hRest⟩ | ⟨-, hSame, -⟩
    · have hNe : q ≠ p := by
        rintro rfl
        exact h.1 hp.destination_eq
      rw [hRest, ih, node?_put (ne_nil_of_not_isDirectory hp.not_directory), if_neg hNe]
      intro other hOther
      rw [destination_put_file hp.not_directory]
      exact h.2 other hOther
    · rw [hSame]

/-- **What was written stands where its path leads**, if no two paths lead to the same place. -/
theorem writeAll_content (h : (t.writeAll planned).result = .ok ())
    (hDistinct : (planned.map fun file => t.destination file.path).Nodup) :
    ∀ file ∈ planned, ∃ text p, file.text = .ok text ∧ t.destination file.path = .place p ∧
      (t.writeAll planned).files.node? p = some (.file (Text.Utf8.encode text)) := by
  induction planned generalizing t with
  | nil => exact nofun
  | cons file rest ih =>
    rw [List.map_cons, List.nodup_cons] at hDistinct
    rcases writeAll_cons t file rest with ⟨text, p, hText, hp, hRest⟩ | ⟨hFails, -, -⟩
    · rw [hRest] at h ⊢
      have hSame := destination_put_file hp.not_directory (Text.Utf8.encode text)
      refine List.forall_mem_cons.mpr ⟨⟨text, p, hText, hp.destination_eq, ?_⟩, ?_⟩
      · -- the files written afterwards stand elsewhere
        rw [writeAll_elsewhere, node?_put (ne_nil_of_not_isDirectory hp.not_directory), if_pos rfl]
        intro other hOther hPlace
        rw [hSame] at hPlace
        refine hDistinct.1 (List.mem_map.mpr ⟨other, hOther, ?_⟩)
        rw [hPlace, hp.destination_eq]
      · have hLater := ih h (by simpa only [hSame] using hDistinct.2)
        simpa only [hSame] using hLater
    · exact absurd h hFails

end IntegrationCompiler.FileTree
