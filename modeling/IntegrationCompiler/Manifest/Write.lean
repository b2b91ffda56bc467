import IntegrationCompiler.Files.Basic
import IntegrationCompiler.Manifest.Overview

/-!
# Writing an integration

The files of an integration are planned first and then written in their order.

Main definitions:

* `Integration.files` — the files that an integration consists of;
* `Integration.write` — writes them into a directory;
* `FileTree.clean` — removes what an earlier run left in a directory.
-/

namespace IntegrationCompiler

/-- What comes of a change to files: a result or a failure, and the files afterwards. -/
structure Filed (α : Type) where
  result : Except Failure α
  files : FileTree
  log : Log := []

/-- A file to be written. -/
structure PlannedFile where
  path : Path
  text : Except Failure String

namespace FileTree

/-- Writes files in their order, up to the first that cannot be written. -/
def writeAll (t : FileTree) : List PlannedFile → Filed Unit
  | [] => { result := .ok (), files := t }
  | file :: rest =>
    match file.text with
    | .error failure => { result := .error failure, files := t }
    | .ok text =>
      match t.write file.path (Text.Utf8.encode text) with
      | none => { result := .error .malformed, files := t }
      | some t => t.writeAll rest

/-- Makes directories in their order, up to the first that cannot be made. -/
def makeAll (t : FileTree) : List Path → Filed Unit
  | [] => { result := .ok (), files := t }
  | path :: rest =>
    match t.makeDirectories path with
    | none => { result := .error .malformed, files := t }
    | some t => t.makeAll rest

/-- Removes the directory of an integration, and tells whether there was one. -/
def clean (t : FileTree) (output : Path) : Filed Bool :=
  match t.present? output with
  | none => { result := .error .malformed, files := t }
  | some false => { result := .ok false, files := t }
  | some true =>
    let (done, files) := t.removeDirectory output
    { result := if done then .ok true else .error .malformed
      files := files
      log := [⟨.info, "Cleaning output directory " ++ output.text⟩] }

end FileTree

namespace Integration

/-- The directories of an integration, seen from its own. -/
def directories : List Path :=
  [OperationKind.action, OperationKind.trigger].map fun kind => Path.ofText kind.directory

/-- The files of an integration, seen from its directory: the actions, the triggers, and what is
kept once for all of them. -/
def files (i : Integration) : List PlannedFile :=
  let file (o : Operation) : PlannedFile := ⟨o.path, o.jsonText⟩
  i.actions.map (fun a => file (.action a)) ++ i.triggers.map (fun t => file (.trigger t)) ++ [
    ⟨Path.ofText "authentication.json", i.authenticationText⟩,
    ⟨Path.ofText "index.json", i.indexText⟩,
    ⟨Path.ofText "README.md", .ok i.overview⟩]

/-- Writes an integration into a directory, which is made if there is none yet; the result lists
the files written. -/
def write (i : Integration) (t : FileTree) (output : Path) : Filed (List Path) :=
  let made := t.makeAll (directories.map output.join)
  match made.result with
  | .error failure => { result := .error failure, files := made.files }
  | .ok () =>
    let planned := i.files.map fun file => { file with path := output.join file.path }
    let written := made.files.writeAll planned
    match written.result with
    | .error failure => { result := .error failure, files := written.files }
    | .ok () => {
      result := .ok (planned.map (·.path))
      files := written.files
      log := [⟨.debug, "Wrote " ++ intText planned.length ++ " files to " ++ output.text⟩] }

end Integration

end IntegrationCompiler
