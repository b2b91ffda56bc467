import IntegrationCompiler.Config.Load
import IntegrationCompiler.Json.Printer
import IntegrationCompiler.Proofs.Diagnostics.Checked
import IntegrationCompiler.Proofs.Diagnostics.Fails
import IntegrationCompiler.Proofs.Diagnostics.Outcomes
import IntegrationCompiler.Proofs.Value.Tree

/-!
# What becomes of a configuration

Each file is checked by itself, then the triggers are, and then all records. A configuration that is
loaded has an endpoint for each trigger, and one that is not is at fault as a configuration, but for
triggers that are no mapping: these are looked into before they are checked.

Main definitions:

* `fileEntries`, `GeneratorConfig.ofFiles` — what a file holds and what three of them make, without
  the remarks on the way;
* `HasTriggersOutsideMapping` — the triggers of a file that are looked into too early.

Main result: `GeneratorConfig.load_outcome`.
-/

namespace IntegrationCompiler

/-- A fault of the configuration. -/
def Failure.IsConfig (e : Failure) : Prop :=
  ∃ fault, e = .config fault

theorem not_isConfig_malformed : ¬ Failure.malformed.IsConfig := by
  rintro ⟨fault, hFault⟩
  cases hFault

theorem orInvalid_ends {α : Type} {P : α → Prop} (directory : Path) {c : Checked α}
    (h : ∀ a, c = .ok a → P a) : Ends P Failure.IsConfig (c.orInvalid directory) := by
  cases c with
  | ok a => exact h a rfl
  | bad issues => exact ⟨_, rfl⟩

/-! ## One file -/

/-- The entries of a file of the configuration; none if there is no such file. -/
def fileEntries (files : FileTree) (path : Path) : Except Failure Entries :=
  match files.read? path with
  | .ok (some octets) => configEntries path.text octets
  | .ok none => .ok []
  | .error e => .error e

/-- Whatever octets a file holds, they are a mapping or a fault of the configuration. -/
theorem configEntries_ends (file : String) (octets : List UInt8) :
    Ends (fun _ => True) Failure.IsConfig (configEntries file octets) := by
  unfold configEntries
  split
  · exact ⟨_, rfl⟩
  · split
    · exact ⟨_, rfl⟩
    · trivial
    · exact ⟨_, rfl⟩

theorem fileEntries_ends {files : FileTree} {path : Path}
    (hReached : files.destination path ≠ .tooLong) :
    Ends (fun _ => True) Failure.IsConfig (fileEntries files path) := by
  have hRead : ∃ content, files.read? path = .ok content := by
    unfold FileTree.read?
    split
    case h_1 hLong => exact absurd hLong hReached
    case h_2 => split <;> exact ⟨_, rfl⟩
    case h_3 => exact ⟨_, rfl⟩
  obtain ⟨content, hContent⟩ := hRead
  unfold fileEntries
  rw [hContent]
  cases content with
  | none => trivial
  | some octets => exact configEntries_ends path.text octets

/-- A missing file is remarked on, and that is all that the log adds. -/
theorem agree_readConfigFile (files : FileTree) (path : Path) :
    Logged.Agree (readConfigFile files path) (liftExcept (fileEntries files path)) := by
  unfold readConfigFile fileEntries
  cases files.read? path with
  | error e => exact Logged.Steady.throw_bind e _
  | ok content =>
    cases content with
    | none => exact Logged.agree_after_remark (Logged.Steady.pure [])
    | some octets => exact Logged.Steady.liftExcept _

/-! ## The triggers -/

/-- The triggers of a file are given, and not by their keys. -/
def HasTriggersOutsideMapping (file : Entries) : Prop :=
  ∃ v, (Entries.getOrNull file "triggers").present? = some v ∧ ∀ entries, v ≠ .map entries

/-- An entry of the triggers that names its endpoint in some way. -/
def NamesEndpoint (entry : Scalar × Value) : Prop :=
  ∃ es, entry.2 = .map es ∧ (Entries.getOrNull es "endpoint").truthy = true

theorem triggerEntries_ends {file : Entries} (h : ¬ HasTriggersOutsideMapping file) :
    Ends (fun named => ∀ entry ∈ named, NamesEndpoint entry) Failure.IsConfig
      (triggerEntries file) := by
  unfold triggerEntries
  split
  case h_1 =>
    intro entry hEntry
    cases hEntry
  case h_2 triggers hGiven =>
    split
    case h_1 => exact ⟨_, rfl⟩
    case h_2 hAll =>
      intro entry hEntry
      have hNot := List.find?_eq_none.mp hAll entry hEntry
      obtain ⟨key, v⟩ := entry
      cases v with
      | map es => exact ⟨es, rfl, by simpa using hNot⟩
      | _ => simp at hNot
  case h_3 v hNotMapping hGiven => exact absurd ⟨v, hGiven, hNotMapping⟩ h

theorem triggerEntries_eq_malformed {file : Entries} (h : HasTriggersOutsideMapping file) :
    triggerEntries file = .error .malformed := by
  obtain ⟨v, hGiven, hNotMapping⟩ := h
  unfold triggerEntries
  rw [hGiven]
  cases v with
  | map entries => exact absurd rfl (hNotMapping entries)
  | _ => rfl

/-- The endpoint of a trigger that passes its check is the text that stands there. -/
theorem TriggerConfig.endpoint_of_read {es : Entries} {config : TriggerConfig}
    (h : TriggerConfig.read (.map es) = .ok config) :
    Entries.getOrNull es "endpoint" = .str config.endpoint := by
  simp only [TriggerConfig.read, Value.asRecord, Checked.seq_eq_ok, Checked.map_eq_ok] at h
  obtain ⟨_, _, ⟨_, _, ⟨_, _, ⟨_, _, ⟨_, _, ⟨_, _, ⟨_, _, ⟨_, _, ⟨_, _, ⟨endpoint, hEndpoint, rfl⟩,
    -, rfl⟩, -, rfl⟩, -, rfl⟩, -, rfl⟩, -, rfl⟩, -, rfl⟩, -, rfl⟩, -, rfl⟩, -, rfl⟩ := h
  cases hField : es.get? "endpoint" with
  | none =>
    rw [Entries.need, Entries.field?_singleton, hField] at hEndpoint
    cases hEndpoint
  | some v =>
    have hText := Entries.need_eq_ok hField hEndpoint
    rw [Entries.getOrNull, hField]
    unfold Value.asText at hText
    split at hText
    case h_1 s => rw [← Checked.ok.inj hText]; rfl
    case h_2 => cases hText

/-- Triggers that name their endpoints in some way name them by texts, or do not pass the check. -/
theorem readTriggers_ends (directory : Path) {named : Entries}
    (h : ∀ entry ∈ named, NamesEndpoint entry) :
    Ends (fun triggers => ∀ entry ∈ triggers, entry.2.endpoint ≠ "") Failure.IsConfig
      (readTriggers directory named) := by
  refine Ends.mapM fun entry hEntry => ?_
  obtain ⟨key, v⟩ := entry
  obtain ⟨es, rfl, hNamed⟩ := h _ hEntry
  have hChecked : Ends (fun config : TriggerConfig => config.endpoint ≠ "") Failure.IsConfig
      ((TriggerConfig.read (.map es)).orInvalid directory) := by
    refine orInvalid_ends directory fun config hConfig hEmpty => ?_
    rw [TriggerConfig.endpoint_of_read hConfig, hEmpty] at hNamed
    cases hNamed
  exact hChecked.bind fun config hConfig => hConfig

/-! ## The whole configuration -/

namespace GeneratorConfig

theorem ofEntries_ends (directory : Path) (actions : Entries) {triggers : Entries}
    (authentication : Entries) (h : ¬ HasTriggersOutsideMapping triggers) :
    Ends (fun config => ∀ entry ∈ config.triggers, entry.2.endpoint ≠ "") Failure.IsConfig
      (ofEntries directory actions triggers authentication) := by
  unfold ofEntries
  refine (triggerEntries_ends h).bind fun named hNamed => ?_
  refine (readTriggers_ends directory hNamed).bind fun checked hChecked => ?_
  -- whatever the authentication is, the actions are checked after it
  have hActions (given : Value) (authentication : AuthConfig) :
      Ends (fun config : GeneratorConfig => ∀ entry ∈ config.triggers, entry.2.endpoint ≠ "")
        Failure.IsConfig
        (((Value.asMapping ActionConfig.read given).under (.key "actions")).orInvalid directory >>=
          fun actions => .ok ⟨actions, checked, authentication⟩) :=
    (orInvalid_ends (P := fun _ => True) directory fun _ _ => trivial).bind
      fun _ _ => hChecked
  dsimp only
  split
  · exact hActions _ _
  · exact (orInvalid_ends (P := fun _ => True) directory fun _ _ => trivial).bind
      fun authentication _ => hActions _ authentication

theorem ofEntries_eq_malformed (directory : Path) (actions : Entries) {triggers : Entries}
    (authentication : Entries) (h : HasTriggersOutsideMapping triggers) :
    ofEntries directory actions triggers authentication = .error .malformed := by
  unfold ofEntries
  rw [triggerEntries_eq_malformed h]
  rfl

/-- The configuration that the files in a directory make. -/
def ofFiles (files : FileTree) (directory : Path) : Except Failure GeneratorConfig := do
  let actions ← fileEntries files (directory.child actionsFile)
  let triggers ← fileEntries files (directory.child triggersFile)
  let authentication ← fileEntries files (directory.child authenticationFile)
  ofEntries directory actions triggers authentication

theorem agree_load (files : FileTree) (directory : Path) :
    Logged.Agree (load files directory) (liftExcept (ofFiles files directory)) := by
  have hBind {α β : Type} (x : Except Failure α) (f : α → Except Failure β) :
      (liftExcept (x >>= f) : Logged β) = liftExcept x >>= fun a => liftExcept (f a) := by
    cases x <;> rfl
  unfold load ofFiles
  rw [hBind]
  refine Logged.agree_bind (agree_readConfigFile _ _) fun actions _ => ?_
  rw [hBind]
  refine Logged.agree_bind (agree_readConfigFile _ _) fun triggers _ => ?_
  rw [hBind]
  refine Logged.agree_bind (agree_readConfigFile _ _) fun authentication _ => ?_
  -- the last remark comes after the result
  cases ofEntries directory actions triggers authentication with
  | error e => exact Logged.Steady.throw_bind e _
  | ok config => exact Logged.agree_after_remark (Logged.Steady.pure config)

theorem run_load (files : FileTree) (directory : Path) :
    (Logged.run (load files directory)).1 = ofFiles files directory := by
  refine (agree_load files directory).run_eq.trans ?_
  cases ofFiles files directory <;> rfl

/-- Files that can be looked up are all mappings, or absent, or the ending is the fault of one. -/
theorem ofFiles_eq {files : FileTree} {directory : Path}
    (hReached : ∀ name ∈ [actionsFile, triggersFile, authenticationFile],
      files.destination (directory.child name) ≠ .tooLong) :
    (∃ fault, ofFiles files directory = .error (.config fault)) ∨
      ∃ actions triggers authentication,
        fileEntries files (directory.child actionsFile) = .ok actions ∧
        fileEntries files (directory.child triggersFile) = .ok triggers ∧
        fileEntries files (directory.child authenticationFile) = .ok authentication ∧
        ofFiles files directory = ofEntries directory actions triggers authentication := by
  -- the files are read one after another, and the first fault ends it
  have hActions := fileEntries_ends (hReached actionsFile (by simp))
  have hTriggers := fileEntries_ends (hReached triggersFile (by simp))
  have hAuthentication := fileEntries_ends (hReached authenticationFile (by simp))
  unfold ofFiles
  cases hA : fileEntries files (directory.child actionsFile) with
  | error e =>
    rw [hA] at hActions
    obtain ⟨fault, rfl⟩ := hActions
    exact .inl ⟨fault, rfl⟩
  | ok actions =>
    cases hT : fileEntries files (directory.child triggersFile) with
    | error e =>
      rw [hT] at hTriggers
      obtain ⟨fault, rfl⟩ := hTriggers
      exact .inl ⟨fault, rfl⟩
    | ok triggers =>
      cases hU : fileEntries files (directory.child authenticationFile) with
      | error e =>
        rw [hU] at hAuthentication
        obtain ⟨fault, rfl⟩ := hAuthentication
        exact .inl ⟨fault, rfl⟩
      | ok authentication => exact .inr ⟨actions, triggers, authentication, rfl, rfl, rfl, rfl⟩

/-- Loading the configuration ends with one in which each trigger has an endpoint, or with a fault of
the configuration, whatever the files hold that can be looked up. The only other ending is that all
three files are mappings, or absent, and the triggers are given but are none. -/
theorem load_outcome {files : FileTree} {directory : Path}
    (hReached : ∀ name ∈ [actionsFile, triggersFile, authenticationFile],
      files.destination (directory.child name) ≠ .tooLong) :
    let outcome := (Logged.run (load files directory)).1
    (outcome = .error .malformed ∨
        Ends (fun config => ∀ entry ∈ config.triggers, entry.2.endpoint ≠ "") Failure.IsConfig
          outcome) ∧
      (outcome = .error .malformed ↔ ∃ actions triggers authentication,
        fileEntries files (directory.child actionsFile) = .ok actions ∧
        fileEntries files (directory.child triggersFile) = .ok triggers ∧
        fileEntries files (directory.child authenticationFile) = .ok authentication ∧
        HasTriggersOutsideMapping triggers) := by
  simp only [run_load]
  constructor
  · rcases ofFiles_eq hReached with
      ⟨fault, hFault⟩ | ⟨actions, triggers, authentication, -, -, -, hAll⟩
    · rw [hFault]
      exact .inr ⟨fault, rfl⟩
    · rw [hAll]
      by_cases hOutside : HasTriggersOutsideMapping triggers
      · exact .inl (ofEntries_eq_malformed directory actions authentication hOutside)
      · exact .inr (ofEntries_ends directory actions authentication hOutside)
  · constructor
    · intro hMalformed
      rcases ofFiles_eq hReached with
        ⟨fault, hFault⟩ | ⟨actions, triggers, authentication, hA, hT, hU, hAll⟩
      · rw [hFault] at hMalformed
        cases hMalformed
      · refine ⟨actions, triggers, authentication, hA, hT, hU, ?_⟩
        by_contra hInside
        rw [hAll] at hMalformed
        have hEnds := ofEntries_ends directory actions authentication hInside
        rw [hMalformed] at hEnds
        exact not_isConfig_malformed hEnds
    · rintro ⟨actions, triggers, authentication, hA, hT, hU, hOutside⟩
      have hAll : ofFiles files directory =
          ofEntries directory actions triggers authentication := by
        unfold ofFiles
        rw [hA, hT, hU]
        rfl
      rw [hAll]
      exact ofEntries_eq_malformed directory actions authentication hOutside

/-- A working directory that holds a file with the given triggers, and nothing else. -/
def directoryWithTriggers (triggers : Value) : FileTree :=
  let text := (Json.render? .compact (.object [("triggers", triggers)])).getD ""
  FileTree.withFile ⟨[], []⟩ (.ofText triggersFile) (Text.Utf8.encode text)

theorem load_outcome_newTask :
    let triggers : Value := .object [("new_task", .object [("endpoint", .str "/tasks")])]
    ∃ config, (Logged.run (load (directoryWithTriggers triggers) (.ofText "."))).1 = .ok config ∧
      ∀ entry ∈ config.triggers, entry.2.endpoint ≠ "" := by
  intro triggers
  have hReached : ∀ name ∈ [actionsFile, triggersFile, authenticationFile],
      (directoryWithTriggers triggers).destination ((Path.ofText ".").child name) ≠ .tooLong := by
    decide +kernel
  have hLoaded :
      (Logged.run (load (directoryWithTriggers triggers) (.ofText "."))).1.isOk = true := by
    decide +kernel
  have hEnds := (load_outcome hReached).1
  cases hOutcome : (Logged.run (load (directoryWithTriggers triggers) (.ofText "."))).1 with
  | ok config =>
    rw [hOutcome] at hEnds
    exact ⟨config, rfl, hEnds.resolve_left (by simp)⟩
  | error e =>
    rw [hOutcome] at hLoaded
    cases hLoaded

/-- Triggers in a list are looked into before they are checked. -/
theorem load_triggers_in_list :
    ((Logged.run (load (directoryWithTriggers (.list [.int 1])) (.ofText "."))).1 matches
      .error .malformed) = true := by
  decide +kernel

end GeneratorConfig

end IntegrationCompiler
