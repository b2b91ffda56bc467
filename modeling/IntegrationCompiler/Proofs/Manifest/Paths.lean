import IntegrationCompiler.Proofs.Files.Names
import IntegrationCompiler.Proofs.Files.Writes
import IntegrationCompiler.Proofs.Operation.Triggers

/-!
# Paths of operations

The path of an operation is read from its key, so a slash in the key leads on to another directory.
Without one the key names a file of the directory of its kind, and no two operations share theirs.

Main definitions:

* `OperationKind.pathOf` — the path of the file of an operation, from its kind and its key;
* `Integration.Slashless` — no operation has a slash in its key.

Main results:

* `OperationKind.placeOf_pathOf` — where a key without a slash leads;
* `OperationKind.shared_of_slash` — where one with a slash leads, if it stays in the directory;
* `Integration.Slashless.nodup_parts` — distinct operations have distinct paths;
* `Compiles.slashless` — the operations of a document have no slash in their keys if its operation
  ids and the keys of configured triggers have none.
-/

namespace IntegrationCompiler

/-! ## Keys without a slash -/

/-- The path of the file of an operation, from its kind and its key. -/
def OperationKind.pathOf (kind : OperationKind) (key : String) : Path :=
  (Path.ofText kind.directory).child (key ++ ".json")

theorem Operation.path_eq (o : Operation) : o.path = o.kind.pathOf o.key :=
  rfl

theorem toList_fileName (key : String) :
    (key ++ ".json").toList = key.toList ++ ['.', 'j', 's', 'o', 'n'] :=
  String.toList_append

theorem ne_fileName {key short : String} (h : short.length < 5) : key ++ ".json" ≠ short := by
  rintro rfl
  rw [String.length_append] at h
  have hSuffix : ".json".length = 5 := rfl
  omega

/-- The ending adds none but its own characters. -/
theorem mem_fileName {key : String} {c : Char} (hc : c ∉ ['.', 'j', 's', 'o', 'n']) :
    c ∈ (key ++ ".json").toList ↔ c ∈ key.toList := by
  rw [toList_fileName, List.mem_append]
  exact or_iff_left hc

theorem OperationKind.up_ne_directory (kind : OperationKind) : ".." ≠ kind.directory := by
  cases kind <;> decide

theorem OperationKind.ofText_directory (kind : OperationKind) :
    Path.ofText kind.directory = { parts := [kind.directory] } := by
  cases kind <;> rfl

/-- Without a slash in its key an operation has a name in the directory of its kind. -/
theorem OperationKind.pathOf_of_name (kind : OperationKind) {key : String} (h : '/' ∉ key.toList) :
    kind.pathOf key = { parts := [kind.directory, key ++ ".json"] } := by
  have hSlash : '/' ∉ (key ++ ".json").toList := fun hMem =>
    h ((mem_fileName (by decide)).mp hMem)
  rw [pathOf, ofText_directory, Path.child,
    Path.ofText_of_name hSlash (ne_fileName (by decide)) (ne_fileName (by decide))]
  rfl

/-- Without a slash in its key the path of an operation stays where it is seen from. -/
theorem OperationKind.pathOf_inner (kind : OperationKind) {key : String} (h : '/' ∉ key.toList) :
    (kind.pathOf key).isAbsolute = false ∧ ".." ∉ (kind.pathOf key).parts := by
  have hName : ".." ≠ key ++ ".json" := (ne_fileName (by decide)).symm
  rw [kind.pathOf_of_name h]
  exact ⟨rfl, by simp [kind.up_ne_directory, hName]⟩

/-- Without a slash in its key an operation has its place directly in the directory of its kind. -/
theorem OperationKind.placeOf_pathOf (kind : OperationKind) {key : String} (h : '/' ∉ key.toList)
    (t : FileTree) (output : Path) : t.placeOf (output.join (kind.pathOf key)) =
      t.placeOf output ++ [kind.directory, key ++ ".json"] := by
  obtain ⟨hInner, hUp⟩ := kind.pathOf_inner h
  rw [FileTree.placeOf_join hInner hUp, kind.pathOf_of_name h]

/-! ## Keys with a slash -/

/-- The path of a key ends with what follows its last slash. -/
theorem OperationKind.exists_pathOf_parts (kind : OperationKind) {key : String}
    (h : '/' ∈ key.toList) (output : Path) : ∃ before other, '/' ∉ other.toList ∧
      (output.join (kind.pathOf key)).parts = before ++ [other ++ ".json"] := by
  obtain ⟨front, back, hSplit, hBack⟩ := Path.exists_last_slash h
  have hOther : '/' ∉ (String.ofList back).toList := by rwa [String.toList_ofList]
  have hName : '/' ∉ (String.ofList back ++ ".json").toList :=
    fun hMem => hOther ((mem_fileName (by decide)).mp hMem)
  -- the ending belongs to what follows the last slash
  have hText : (key ++ ".json").toList = front ++ '/' :: (String.ofList back ++ ".json").toList := by
    rw [toList_fileName, toList_fileName, String.toList_ofList, hSplit, List.append_assoc,
      List.cons_append]
  obtain ⟨before, hParts⟩ := Path.ofText_parts_of_slash hText hName (ne_fileName (by decide))
    (ne_fileName (by decide))
  obtain ⟨inDirectory, hPath⟩ := Path.exists_join_parts (Path.ofText kind.directory) hParts
  obtain ⟨inOutput, hWhole⟩ := Path.exists_join_parts output hPath
  exact ⟨inOutput, String.ofList back, hOther, hWhole⟩

/-- A key with a slash has no file of its own directly in the directory of its kind: if its file
stands there at all, it is the file of another key. -/
theorem OperationKind.shared_of_slash (kind : OperationKind) {key : String} (h : '/' ∈ key.toList)
    (t : FileTree) (output : Path)
    (hDirectly : (t.placeOf (output.join (kind.pathOf key))).dropLast =
      t.placeOf output ++ [kind.directory]) :
    ∃ other, '/' ∉ other.toList ∧
      t.placeOf (output.join (kind.pathOf other)) = t.placeOf (output.join (kind.pathOf key)) := by
  obtain ⟨before, other, hOther, hParts⟩ := kind.exists_pathOf_parts h output
  have hUp : other ++ ".json" ≠ ".." := ne_fileName (by decide)
  have hPlace : t.placeOf (output.join (kind.pathOf key)) =
      FileTree.arrival (t.start (output.join (kind.pathOf key))) before ++ [other ++ ".json"] := by
    rw [FileTree.placeOf, hParts, FileTree.arrival_append]
    exact FileTree.arrival_eq_append (by simpa using hUp.symm) _
  refine ⟨other, hOther, ?_⟩
  rw [hPlace, List.dropLast_concat] at hDirectly
  rw [hPlace, hDirectly, kind.placeOf_pathOf hOther, List.append_assoc]
  rfl

/-! ## The files of an integration -/

namespace Operation

/-- The file of an operation. -/
def file (o : Operation) : PlannedFile :=
  ⟨o.path, o.jsonText⟩

end Operation

namespace Integration

variable {i : Integration}

/-- The operations in the order in which they are written: first the actions. -/
def ordered (i : Integration) : List Operation :=
  i.actions.map .action ++ i.triggers.map .trigger

/-- The files that are written once for all operations. -/
def sharedFiles (i : Integration) : List PlannedFile := [
  ⟨Path.ofText "authentication.json", i.authenticationText⟩,
  ⟨Path.ofText "index.json", i.indexText⟩,
  ⟨Path.ofText "README.md", .ok i.overview⟩]

theorem files_eq (i : Integration) : i.files = i.ordered.map Operation.file ++ i.sharedFiles := by
  rw [ordered, List.map_append, List.map_map, List.map_map]
  rfl

theorem ordered_perm (i : Integration) : i.ordered.Perm i.operations := by
  unfold ordered actions triggers
  induction i.operations with
  | nil => exact .nil
  | cons o rest ih =>
    cases o with
    | action a => exact ih.cons _
    | trigger t => exact List.perm_middle.trans (ih.cons _)

theorem forall_mem_files {P : PlannedFile → Prop} : (∀ file ∈ i.files, P file) ↔
    (∀ o ∈ i.operations, P o.file) ∧ ∀ file ∈ i.sharedFiles, P file := by
  rw [files_eq, List.forall_mem_append, List.forall_mem_map]
  simp only [i.ordered_perm.mem_iff]

/-- No operation has a slash in its key. -/
def Slashless (i : Integration) : Prop :=
  ∀ o ∈ i.operations, '/' ∉ o.key.toList

/-- The paths of the shared files are names. -/
theorem sharedFiles_path : ∀ file ∈ i.sharedFiles, ∃ name,
    file.path = { parts := [name] } ∧ name ≠ ".." ∧ '\x00' ∉ name.toList ∧
      name.utf8ByteSize ≤ FileTree.maxNameLength := by
  simp only [sharedFiles, List.forall_mem_cons]
  exact ⟨⟨_, rfl, by decide, by decide, by decide⟩, ⟨_, rfl, by decide, by decide, by decide⟩,
    ⟨_, rfl, by decide, by decide, by decide⟩, nofun⟩

/-- The paths of all files lead into the directory of the integration. -/
theorem Slashless.inner (h : i.Slashless) :
    ∀ file ∈ i.files, file.path.isAbsolute = false ∧ ".." ∉ file.path.parts := by
  refine forall_mem_files.mpr ⟨fun o ho => ?_, fun file hFile => ?_⟩
  · exact o.kind.pathOf_inner (h o ho)
  · obtain ⟨name, hPath, hUp, -⟩ := sharedFiles_path file hFile
    rw [hPath]
    exact ⟨rfl, by simpa using hUp.symm⟩

theorem Slashless.placeOf_eq (h : i.Slashless) (t : FileTree) (output : Path) :
    ∀ file ∈ i.files, t.placeOf (output.join file.path) = t.placeOf output ++ file.path.parts := by
  intro file hFile
  obtain ⟨hInner, hUp⟩ := h.inner file hFile
  exact FileTree.placeOf_join hInner hUp

/-- A directory and a file name belong to one kind and one key. -/
theorem parts_injective : Function.Injective
    fun id : OperationKind × String => [id.1.directory, id.2 ++ ".json"] := by
  rintro ⟨kind, key⟩ ⟨kind', key'⟩ hSame
  simp only [List.cons.injEq, and_true] at hSame
  have hKind : kind = kind' := by
    cases kind <;> cases kind' <;> first | rfl | exact absurd hSame.1 (by decide)
  have hChars := congrArg String.toList hSame.2
  rw [toList_fileName, toList_fileName, List.append_cancel_right_eq, String.toList_inj] at hChars
  rw [hKind, hChars]

/-- Distinct operations have distinct paths, and none has that of a shared file. -/
theorem Slashless.nodup_parts (h : i.Slashless) (hIds : (i.operations.map Operation.id).Nodup) :
    (i.files.map fun file => file.path.parts).Nodup := by
  -- an operation's path is made of its kind and its key, which no other operation has
  have hParts : i.ordered.map (fun o => o.path.parts) =
      (i.ordered.map Operation.id).map fun id => [id.1.directory, id.2 ++ ".json"] := by
    rw [List.map_map]
    refine List.map_congr_left fun o ho => ?_
    rw [Operation.path_eq, o.kind.pathOf_of_name (h o (i.ordered_perm.mem_iff.mp ho))]
    rfl
  have hNames : (i.sharedFiles.map fun file => file.path.parts) =
      [["authentication.json"], ["index.json"], ["README.md"]] := rfl
  rw [files_eq, List.map_append, List.map_map, List.nodup_append', hNames]
  refine ⟨?_, by decide, ?_⟩
  · show (i.ordered.map fun o => o.path.parts).Nodup
    rw [hParts]
    exact ((i.ordered_perm.map Operation.id).nodup_iff.mpr hIds).map parts_injective
  · -- an operation's path has two names, that of a shared file has one
    intro parts hOperation hShared
    obtain ⟨o, ho, rfl⟩ := List.mem_map.mp hOperation
    have hOwn : o.path.parts = [o.kind.directory, o.key ++ ".json"] := by
      rw [Operation.path_eq, o.kind.pathOf_of_name (h o (i.ordered_perm.mem_iff.mp ho))]
    have hOne : ∀ names ∈ [["authentication.json"], ["index.json"], ["README.md"]],
        names.length = 1 := by decide
    have hLength := hOne _ hShared
    simp only [Function.comp_apply, Operation.file, hOwn] at hLength
    cases hLength

end Integration

/-! ## Keys of compiled operations -/

/-- A path has no slash once it is a key. -/
theorem slash_not_mem_pathToKey (path : String) : '/' ∉ (pathToKey path).toList := by
  intro h
  rw [pathToKey, String.toList_ofList] at h
  obtain ⟨c, -, hc⟩ := List.mem_map.mp ((List.dropWhile_sublist _).mem h)
  by_cases hSlash : c = '/'
  · rw [if_pos hSlash] at hc
    cases hc
  · rw [if_neg hSlash] at hc
    exact hSlash hc

/-- An action has a slash in its key only if its endpoint has one in its id. -/
theorem Endpoint.slash_not_mem_actionKey {e : Endpoint}
    (h : ∀ id ∈ e.operationId, '/' ∉ id.toList) : '/' ∉ e.actionKey.toList := by
  unfold actionKey firstText
  cases hFirst : [e.operationId.getD "", pathToKey e.path].find? fun s => !s.isEmpty with
  | none => exact List.not_mem_nil
  | some text =>
    rcases List.mem_pair.mp (List.mem_of_find?_eq_some hFirst) with rfl | rfl
    · cases hId : e.operationId with
      | none => exact List.not_mem_nil
      | some id => exact h id hId
    · exact slash_not_mem_pathToKey e.path

namespace Compiles

variable {document : ApiDocument} {config : GeneratorConfig} {onlyPath : Option String}
  {hidden : List (String × Trigger)} {selected : List Endpoint} {operations : List Operation}

/-- No operation of a document has a slash in its key if no operation id and no key of a trigger
has one. -/
theorem slashless (h : Compiles document config onlyPath hidden selected operations)
    (hIds : ∀ e ∈ document.endpoints, ∀ id ∈ e.operationId, '/' ∉ id.toList)
    (hTriggers : ∀ named ∈ config.triggers, '/' ∉ named.1.toList) :
    ∀ o ∈ operations, '/' ∉ o.key.toList := by
  have hSelected := selectEndpoints_subset h.selected_eq
  intro o ho
  have hMem : o.id ∈ operations.map Operation.id := List.mem_map_of_mem ho
  rw [h.ids_eq, Origin.mem_ids_firsts] at hMem
  obtain ⟨origin, hOrigin, hSame⟩ := List.mem_map.mp hMem.1
  have hKey : o.key = origin.id.2 := congrArg Prod.snd hSame.symm
  rw [hKey]
  cases origin with
  | action e =>
    have he := hSelected e (action_mem_allOrigins.mp hOrigin).1
    exact Endpoint.slash_not_mem_actionKey (hIds e he)
  | trigger e key c => exact hTriggers _ (of_trigger_mem_allOrigins hSelected hOrigin).1

end Compiles

end IntegrationCompiler
