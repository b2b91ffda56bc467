import IntegrationCompiler.Proofs.Manifest.Paths

/-!
# Files of operations

An integration is written by making its directories and then writing its files. The directories are
there afterwards, so each file can be written that could be written alone, and as no two files have
the same place, each holds its text in the end.

Main definitions:

* `Integration.Writable` — what is needed to write an integration;
* `Integration.OwnFiles` — each operation has a file of its own, and nothing changes elsewhere.

Main results:

* `Integration.write_eq_ok_iff` — an integration can be written exactly if it is writable;
* `Integration.write_content`, `Integration.write_outside` — what stands where afterwards;
* `operations_have_own_files` — operations whose keys have no slash have files of their own;
* `compile_ownFiles` — operations of a document are such if its operation ids have no slash;
* `misplaced_operations` — operations whose keys have one need not.
-/

namespace IntegrationCompiler

namespace Integration

/-! ## Writing -/

/-- The directories of an integration are made. -/
abbrev making (t : FileTree) (output : Path) : Filed Unit :=
  t.makeAll (directories.map output.join)

/-- The files of an integration with their paths seen from where its directory is seen. -/
abbrev planned (i : Integration) (output : Path) : List PlannedFile :=
  i.files.map fun file => { file with path := output.join file.path }

variable {i : Integration} {t : FileTree} {output : Path}

theorem write_eq_ok_iff_parts {paths : List Path} : (i.write t output).result = .ok paths ↔
    (making t output).result = .ok () ∧
      ((making t output).files.writeAll (i.planned output)).result = .ok () ∧
        paths = i.files.map fun file => output.join file.path := by
  have hPaths : (i.planned output).map (·.path) = i.files.map fun file => output.join file.path := by
    rw [List.map_map]
    rfl
  rw [write, ← hPaths]
  dsimp only
  split
  next hMade => exact ⟨nofun, fun h => nomatch hMade.symm.trans h.1⟩
  next hMade =>
    split
    next hWritten => exact ⟨nofun, fun h => nomatch hWritten.symm.trans h.2.1⟩
    next hWritten => exact ⟨fun h => ⟨hMade, hWritten, (Except.ok.inj h).symm⟩, fun h => by rw [h.2.2]⟩

/-- The files afterwards are those after as much as could be done. -/
theorem write_files_cases : (i.write t output).files = (making t output).files ∨
    (i.write t output).files = ((making t output).files.writeAll (i.planned output)).files := by
  rw [write]
  dsimp only
  split
  · exact Or.inl rfl
  · split
    · exact Or.inr rfl
    · exact Or.inr rfl

theorem write_files_of_ok {paths : List Path} (h : (i.write t output).result = .ok paths) :
    (i.write t output).files = ((making t output).files.writeAll (i.planned output)).files := by
  obtain ⟨hMade, hWritten, -⟩ := write_eq_ok_iff_parts.mp h
  rw [write]
  dsimp only
  rw [hMade]
  dsimp only
  rw [hWritten]

/-- What is needed to write an integration: its directories can be made, its files have texts, no
key has a character that names cannot have or is too long, and no directory has the name of a file. -/
structure Writable (i : Integration) (t : FileTree) (output : Path) : Prop where
  made : (making t output).result = .ok ()
  texts : ∀ file ∈ i.files, ∃ text, file.text = .ok text
  names : ∀ o ∈ i.operations,
    '\x00' ∉ o.key.toList ∧ (o.key ++ ".json").utf8ByteSize ≤ FileTree.maxNameLength
  free : ∀ file ∈ i.files,
    (making t output).files.isDirectory (t.placeOf output ++ file.path.parts) = false

theorem join_directory (output : Path) (kind : OperationKind) :
    output.join (Path.ofText kind.directory) =
      { output with parts := output.parts ++ [kind.directory] } := by
  rw [kind.ofText_directory]
  rfl

/-- The directories that were made can be reached. -/
theorem made_reaches (ht : t.Grounded)
    (h : (making t output).result = .ok ()) (kind : OperationKind) :
    (making t output).files.Reaches
      { output with parts := output.parts ++ [kind.directory] } := by
  have hAll := FileTree.makeAll_reaches ht h
  rw [← join_directory]
  refine hAll _ (List.mem_map_of_mem ?_)
  cases kind <;> simp [directories]

/-- Where an operation can be written among directories that can be reached. -/
theorem exists_accepts_operation {made : FileTree} {o : Operation}
    (hReaches : made.Reaches { output with parts := output.parts ++ [o.kind.directory] })
    (h : '/' ∉ o.key.toList) : (∃ p, made.Accepts (output.join o.path) p) ↔
      ('\x00' ∉ o.key.toList ∧ (o.key ++ ".json").utf8ByteSize ≤ FileTree.maxNameLength) ∧
        made.isDirectory (made.placeOf output ++ o.path.parts) = false := by
  have hUp : o.key ++ ".json" ≠ ".." := ne_fileName (by decide)
  have hJoin : output.join o.path = { output with
      parts := output.parts ++ [o.kind.directory] ++ [o.key ++ ".json"] } := by
    rw [Operation.path_eq, o.kind.pathOf_of_name h, List.append_assoc]
    rfl
  have hPlace : made.placeOf { output with parts := output.parts ++ [o.kind.directory] } =
      made.placeOf output ++ [o.kind.directory] := by
    have hInner := @FileTree.placeOf_join made output (Path.ofText o.kind.directory)
    rw [← join_directory, hInner, o.kind.ofText_directory] <;> rw [o.kind.ofText_directory]
    · rfl
    · simpa using o.kind.up_ne_directory
  have hParts : o.path.parts = [o.kind.directory, o.key ++ ".json"] := by
    rw [Operation.path_eq, o.kind.pathOf_of_name h]
  have hNul : '\x00' ∉ (o.key ++ ".json").toList ↔ '\x00' ∉ o.key.toList :=
    not_congr (mem_fileName (by decide))
  have hAccepts := FileTree.exists_accepts_concat hReaches hUp
  rw [hPlace, hNul, List.append_assoc (made.placeOf output)] at hAccepts
  rw [hJoin, hParts, and_assoc]
  exact hAccepts

theorem exists_accepts_shared {made : FileTree} (hReaches : made.Reaches output) :
    ∀ file ∈ i.sharedFiles, (∃ p, made.Accepts (output.join file.path) p) ↔
      made.isDirectory (made.placeOf output ++ file.path.parts) = false := by
  intro file hFile
  obtain ⟨name, hPath, hUp, hNul, hShort⟩ := sharedFiles_path file hFile
  have hAccepts := FileTree.exists_accepts_concat hReaches hUp
  rw [hPath]
  exact hAccepts.trans ⟨fun h => h.2.2, fun h => ⟨hNul, hShort, h⟩⟩

/-- **An integration can be written exactly if it is writable.** -/
theorem write_eq_ok_iff (ht : t.Grounded) (h : i.Slashless) :
    (∃ paths, (i.write t output).result = .ok paths) ↔ i.Writable t output := by
  have hExtends := FileTree.makeAll_extends ht (directories.map output.join)
  have hPlace : (making t output).files.placeOf output = t.placeOf output :=
    hExtends.placeOf_eq output
  -- once the directories are made, only names and what already has them can be in the way
  have hAccepted (hMade : (making t output).result = .ok ()) :
      (∀ file ∈ i.files, ∃ p, (making t output).files.Accepts (output.join file.path) p) ↔
        (∀ o ∈ i.operations,
          '\x00' ∉ o.key.toList ∧ (o.key ++ ".json").utf8ByteSize ≤ FileTree.maxNameLength) ∧
        ∀ file ∈ i.files,
          (making t output).files.isDirectory (t.placeOf output ++ file.path.parts) = false := by
    have hReaches := made_reaches ht hMade
    have hOutput := FileTree.reaches_of_concat (hReaches .action)
    have hOperations : (∀ o ∈ i.operations,
        ∃ p, (making t output).files.Accepts (output.join o.file.path) p) ↔ _ :=
      forall₂_congr fun o ho => exists_accepts_operation (hReaches o.kind) (h o ho)
    have hShared : (∀ file ∈ i.sharedFiles,
        ∃ p, (making t output).files.Accepts (output.join file.path) p) ↔ _ :=
      forall₂_congr (exists_accepts_shared hOutput)
    rw [forall_mem_files, forall_mem_files, hOperations, hShared, hPlace]
    simp only [forall_and, and_assoc]
    rfl
  simp only [write_eq_ok_iff_parts, FileTree.writeAll_eq_ok_iff, List.forall_mem_map]
  constructor
  · rintro ⟨_, hMade, hAll, -⟩
    obtain ⟨hNames, hFree⟩ := (hAccepted hMade).mp fun file hFile => (hAll file hFile).2
    exact ⟨hMade, fun file hFile => (hAll file hFile).1, hNames, hFree⟩
  · rintro ⟨hMade, hTexts, hNames, hFree⟩
    have hAll := (hAccepted hMade).mpr ⟨hNames, hFree⟩
    exact ⟨_, hMade, fun file hFile => ⟨hTexts file hFile, hAll file hFile⟩, rfl⟩

/-- A file that can be written where the directories were made is written at its place. -/
theorem Slashless.eq_of_destination (h : i.Slashless) (ht : t.Grounded) {file : PlannedFile}
    (hFile : file ∈ i.files) {p : Place}
    (hp : (making t output).files.destination (output.join file.path) = .place p) :
    p = t.placeOf output ++ file.path.parts := by
  have hExtends := FileTree.makeAll_extends ht (directories.map output.join)
  rw [← h.placeOf_eq t output file hFile, ← hExtends.placeOf_eq]
  exact (FileTree.placeOf_of_destination hp).symm

/-- If all files can be written, no two are written at the same place. -/
theorem Slashless.nodup_destinations (h : i.Slashless) (ht : t.Grounded)
    (hIds : (i.operations.map Operation.id).Nodup)
    (hWritten : ((making t output).files.writeAll (i.planned output)).result = .ok ()) :
    ((i.planned output).map fun file =>
      (making t output).files.destination file.path).Nodup := by
  have hAccepted := FileTree.writeAll_eq_ok_iff.mp hWritten
  -- each path leads to a place, which its names determine
  have hPlaces : (i.planned output).map (fun file => (making t output).files.destination file.path) =
      (i.files.map fun file => file.path.parts).map fun parts =>
        Destination.place (t.placeOf output ++ parts) := by
    rw [List.map_map, List.map_map]
    refine List.map_congr_left fun file hFile => ?_
    obtain ⟨-, p, hp⟩ := hAccepted _ (List.mem_map_of_mem hFile)
    have hDestination := hp.destination_eq
    rw [h.eq_of_destination ht hFile hDestination] at hDestination
    exact hDestination
  rw [hPlaces]
  -- distinct names lead from the same place to distinct ones
  refine (h.nodup_parts hIds).map fun _ _ hSame => ?_
  exact List.append_cancel_left (Destination.place.inj hSame)

/-- What was written stands at its place. -/
theorem write_content (ht : t.Grounded) (h : i.Slashless)
    (hIds : (i.operations.map Operation.id).Nodup) {paths : List Path}
    (hWrite : (i.write t output).result = .ok paths) :
    ∀ file ∈ i.files, ∃ text, file.text = .ok text ∧
      (i.write t output).files.node? (t.placeOf output ++ file.path.parts) =
        some (.file (Text.Utf8.encode text)) := by
  obtain ⟨-, hWritten, -⟩ := write_eq_ok_iff_parts.mp hWrite
  have hDistinct := h.nodup_destinations ht hIds hWritten
  intro file hFile
  obtain ⟨text, p, hText, hp, hNode⟩ :=
    FileTree.writeAll_content hWritten hDistinct _ (List.mem_map_of_mem hFile)
  refine ⟨text, hText, ?_⟩
  rw [write_files_of_ok hWrite, ← h.eq_of_destination ht hFile hp]
  exact hNode

/-- Whether or not an integration can be written, no file outside its directory changes. -/
theorem write_outside (ht : t.Grounded) (h : i.Slashless) {p : Place}
    (hOut : ¬ t.placeOf output <+: p) (octets : List UInt8) :
    (i.write t output).files.node? p = some (.file octets) ↔ t.node? p = some (.file octets) := by
  have hExtends := FileTree.makeAll_extends ht (directories.map output.join)
  rcases @write_files_cases i t output with hFiles | hFiles
  · rw [hFiles]
    exact hExtends.files p octets
  · rw [hFiles, FileTree.writeAll_elsewhere]
    · exact hExtends.files p octets
    · refine List.forall_mem_map.mpr fun file hFile hp => hOut ?_
      rw [h.eq_of_destination ht hFile hp]
      exact List.prefix_append _ _

/-! ## Files of their own -/

/-- Every operation of an integration has a file of its own. -/
structure OwnFiles (i : Integration) (t : FileTree) (output : Path) : Prop where
  /-- It stands directly in the directory of its kind, under its key. -/
  place_eq : ∀ o ∈ i.operations, t.placeOf (output.join o.path) =
    t.placeOf output ++ [o.kind.directory, o.key ++ ".json"]
  nodup_places : (i.files.map fun file => t.placeOf (output.join file.path)).Nodup
  inside : ∀ file ∈ i.files, t.placeOf output <+: t.placeOf (output.join file.path)
  succeeds : (∃ paths, (i.write t output).result = .ok paths) ↔ i.Writable t output
  /-- After the integration was written, the file holds the text of the operation. -/
  holds : ∀ paths, (i.write t output).result = .ok paths →
    paths = i.files.map (fun file => output.join file.path) ∧
    ∀ o ∈ i.operations, ∃ text, o.jsonText = .ok text ∧
      (i.write t output).files.node? (t.placeOf (output.join o.path)) =
        some (.file (Text.Utf8.encode text))
  /-- Whether or not it could be written, the files elsewhere are as before. -/
  outside : ∀ p octets, ¬ t.placeOf output <+: p →
    ((i.write t output).files.node? p = some (.file octets) ↔ t.node? p = some (.file octets))

theorem Slashless.ownFiles (h : i.Slashless) (ht : t.Grounded)
    (hIds : (i.operations.map Operation.id).Nodup) : i.OwnFiles t output := by
  have hPlace := h.placeOf_eq t output
  refine ⟨fun o ho => ?_, ?_, fun file hFile => ?_, write_eq_ok_iff ht h, fun paths hWrite => ?_,
    fun p octets hOut => write_outside ht h hOut octets⟩
  · exact o.kind.placeOf_pathOf (h o ho) t output
  · have hPlaces : (i.files.map fun file => t.placeOf (output.join file.path)) =
        (i.files.map fun file => file.path.parts).map (t.placeOf output ++ ·) := by
      rw [List.map_map]
      exact List.map_congr_left hPlace
    rw [hPlaces]
    exact (h.nodup_parts hIds).map fun _ _ => List.append_cancel_left
  · rw [hPlace file hFile]
    exact List.prefix_append _ _
  · refine ⟨(write_eq_ok_iff_parts.mp hWrite).2.2, fun o ho => ?_⟩
    have hFile : o.file ∈ i.files := (forall_mem_files.mp fun _ hFile => hFile).1 o ho
    obtain ⟨text, hText, hNode⟩ := write_content ht h hIds hWrite o.file hFile
    rw [← hPlace o.file hFile] at hNode
    exact ⟨text, hText, hNode⟩

end Integration

/-- The operations of a document have files of their own if no operation id and no key of a
configured trigger has a slash. -/
theorem compile_ownFiles {i : Integration} {config : GeneratorConfig} {onlyPath : Option String}
    {t : FileTree} {output : Path} (ht : t.Grounded)
    (hCompile : (compile i.document config onlyPath).run.1 = .ok i.operations)
    (hIds : ∀ e ∈ i.document.endpoints, ∀ id ∈ e.operationId, '/' ∉ id.toList)
    (hTriggers : ∀ named ∈ config.triggers, '/' ∉ named.1.toList) : i.OwnFiles t output := by
  obtain ⟨hidden, selected, hCompiles⟩ := compile_returns (Logged.returns_of_run hCompile)
  have hKeys : i.Slashless := hCompiles.slashless hIds hTriggers
  exact hKeys.ownFiles ht hCompiles.nodup_ids

/-- **Operations have files of their own if no key has a slash.** Each file stands directly in the
directory of the kind of its operation and holds its text, no two have the same place, and nothing
changes outside the directory of the integration. A key with a slash has no such file: if it leads
into the directory of its kind at all, it leads to the file of another key. -/
theorem operations_have_own_files (i : Integration) (t : FileTree) (output : Path)
    (ht : t.Grounded) (hIds : (i.operations.map Operation.id).Nodup) (hKeys : i.Slashless) :
    i.OwnFiles t output ∧ ∀ (kind : OperationKind) (key : String), '/' ∈ key.toList →
      (t.placeOf (output.join (kind.pathOf key))).dropLast = t.placeOf output ++ [kind.directory] →
      ∃ other, '/' ∉ other.toList ∧
        t.placeOf (output.join (kind.pathOf other)) = t.placeOf (output.join (kind.pathOf key)) := by
  refine ⟨hKeys.ownFiles ht hIds, fun kind key hSlash hDirectly => ?_⟩
  exact kind.shared_of_slash hSlash t output hDirectly

/-- Endpoints that are listed under the given ids. -/
def listings (ids : List String) : ApiDocument where
  endpoints := ids.map fun id => { path := "/" ++ id, method := .get, operationId := some id }

/-- The integration that is compiled from such endpoints. -/
def listingsOf (ids : List String) (config : GeneratorConfig) : Integration where
  document := listings ids
  operations := ((compile (listings ids) config none).run.1.toOption).getD []
  authentication := {}
  version := "1"

/-- A home directory without files. -/
def emptyHome : FileTree where
  here := ["home"]
  entries := [(["home"], .directory)]

theorem emptyHome_grounded : emptyHome.Grounded where
  here := rfl
  parent p hp := by
    cases p with
    | nil => rfl
    | cons name rest =>
      by_cases hHome : name :: rest = ["home"]
      · rw [hHome]
        rfl
      · have hNone : emptyHome.node? (name :: rest) = none := by
          show [(["home"], FileNode.directory)].lookup (name :: rest) = none
          rw [List.lookup_cons, beq_eq_false_iff_ne.mpr hHome]
          rfl
        rw [hNone] at hp
        cases hp

/-- New entries of the list are polled. -/
def newInList : GeneratorConfig where
  triggers := [("list", { endpoint := "/list", title := some "Triggers when the list grows." })]

theorem listingsOf_ids_list : (listingsOf ["list"] newInList).operations.map Operation.id =
    [(.action, "list"), (.trigger, "list")] := by
  with_unfolding_all rfl

/-- An action and a trigger of the same key have files of their own. The key with a point in front
would lead to that of the action. -/
theorem operations_have_own_files_list :
    ((listingsOf ["list"] newInList).write emptyHome (Path.ofText "out")).result.toOption.map
      (·.map Path.text) = some ["out/actions/list.json", "out/triggers/list.json",
        "out/authentication.json", "out/index.json", "out/README.md"] ∧
    (listingsOf ["list"] newInList).OwnFiles emptyHome (Path.ofText "out") ∧
    ∃ other, '/' ∉ other.toList ∧
      emptyHome.placeOf ((Path.ofText "out").join (OperationKind.action.pathOf other)) =
        emptyHome.placeOf ((Path.ofText "out").join (OperationKind.action.pathOf "./list")) := by
  have hIds : ((listingsOf ["list"] newInList).operations.map Operation.id).Nodup := by
    rw [listingsOf_ids_list]
    decide
  have hKeys : (listingsOf ["list"] newInList).Slashless := by
    intro o ho
    have hId : o.id ∈ [(OperationKind.action, "list"), (.trigger, "list")] :=
      listingsOf_ids_list ▸ List.mem_map_of_mem ho
    have hAll : ∀ id ∈ [(OperationKind.action, "list"), (.trigger, "list")],
        '/' ∉ id.2.toList := by decide
    exact hAll o.id hId
  obtain ⟨hOwn, hShared⟩ := operations_have_own_files (listingsOf ["list"] newInList) emptyHome
    (Path.ofText "out") emptyHome_grounded hIds hKeys
  refine ⟨by with_unfolding_all rfl, hOwn, ?_⟩
  exact hShared .action "./list" (by decide) (by with_unfolding_all rfl)

/-- **With a slash in its key an operation may have no file of its own.** Nothing can be written if
the key leads into a directory that was not made. Operations with different keys share a file if one
key leads where the other does. And a file stands outside the directory of the integration if the
key leads there. -/
theorem misplaced_operations :
    ((listingsOf ["users/list"] {}).operations.map Operation.id = [(.action, "users/list")] ∧
      ((listingsOf ["users/list"] {}).write emptyHome (Path.ofText "out")).result =
        .error .malformed) ∧
    ((listingsOf ["list", "./list"] {}).operations.map Operation.id =
        [(.action, "list"), (.action, "./list")] ∧
      ((listingsOf ["list", "./list"] {}).write emptyHome (Path.ofText "out")).result.toOption.map
        (·.map Path.text) = some ["out/actions/list.json", "out/actions/list.json",
          "out/authentication.json", "out/index.json", "out/README.md"]) ∧
    (listingsOf ["../../escaped"] {}).operations.map Operation.id =
        [(.action, "../../escaped")] ∧
      emptyHome.placeOf (Path.ofText "out") = ["home", "out"] ∧
      (((listingsOf ["../../escaped"] {}).write emptyHome (Path.ofText "out")).files.node?
        ["home", "escaped.json"]).isSome = true := by
  refine ⟨⟨?_, ?_⟩, ⟨?_, ?_⟩, ?_, ?_, ?_⟩ <;> with_unfolding_all rfl

end IntegrationCompiler
