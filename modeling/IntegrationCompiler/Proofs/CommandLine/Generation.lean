import IntegrationCompiler.CommandLine.Run
import IntegrationCompiler.Proofs.Diagnostics.Fails
import IntegrationCompiler.Proofs.Files.Under

/-!
# A generation that fails

A generation reads everything it needs, cleans if it is asked to, compiles, and writes. Up to the
cleaning it makes no files but the directory of the cache, and after the compilation it fails only
where nobody planned for it. So what a planned failure can cost is known: nothing, or all of the old
output, if a generation that cleans fails to compile.

Main definitions:

* `Work.Keeps` — a computation that changes nothing under a place;
* `Work.FailsUnplanned` — a computation all of whose failures are unexpected;
* `prepare`, `writeOutput` — the parts of a generation before the cleaning and after the compilation.

Main results:

* `prepare_keeps`, `cleanOutput_keeps_or_clears` — what the first two parts do under a place;
* `failed_generation_keeps_output` — what a planned failure leaves of the output directory.
-/

namespace IntegrationCompiler

/-! ## Computations of a command -/

namespace Work

variable {α β : Type} {here p : Place}

/-- Result and desk of a computation that starts with a desk. -/
def on (x : Work α) (d : Desk) : Except Failure α × Desk :=
  StateT.run (ExceptT.run x) d

theorem on_bind (x : Work α) (f : α → Work β) (d : Desk) :
    on (x >>= f) d = match on x d with
      | (.ok a, d') => on (f a) d'
      | (.error failure, d') => (.error failure, d') := by
  show (StateT.run (ExceptT.run (x >>= f)) d) = _
  rw [ExceptT.run_bind, StateT.run_bind]
  unfold on
  cases (StateT.run (ExceptT.run x) d) with
  | mk result d' => cases result <;> rfl

theorem ok_of_on_bind {x : Work α} {f : α → Work β} {d d' : Desk} {b : β}
    (h : on (x >>= f) d = (.ok b, d')) :
    ∃ a d₁, x.on d = (.ok a, d₁) ∧ (f a).on d₁ = (.ok b, d') := by
  rw [on_bind] at h
  cases hRun : x.on d with
  | mk result d₁ =>
    rw [hRun] at h
    cases result with
    | ok a => exact ⟨a, d₁, rfl, h⟩
    | error failure => cases h

/-- A sequence fails in its first part, or in its second part after a result of the first. -/
theorem error_of_on_bind {x : Work α} {f : α → Work β} {d d' : Desk} {failure : Failure}
    (h : on (x >>= f) d = (.error failure, d')) :
    x.on d = (.error failure, d') ∨
      ∃ a d₁, x.on d = (.ok a, d₁) ∧ (f a).on d₁ = (.error failure, d') := by
  rw [on_bind] at h
  cases hRun : x.on d with
  | mk result d₁ =>
    rw [hRun] at h
    cases result with
    | ok a => exact .inr ⟨a, d₁, rfl, h⟩
    | error other =>
      cases h
      exact .inl rfl

/-- Started in a working directory, the computation stays there and changes nothing under a place,
whether or not it fails. -/
def Keeps (here p : Place) (x : Work α) : Prop :=
  ∀ d : Desk, d.files.here = here →
    (x.on d).2.files.here = here ∧ (x.on d).2.files.under p = d.files.under p

theorem keeps_pure (a : α) : (pure a : Work α).Keeps here p :=
  fun _ hHere => ⟨hHere, rfl⟩

theorem keeps_get : (get : Work Desk).Keeps here p :=
  fun _ hHere => ⟨hHere, rfl⟩

theorem keeps_bind {x : Work α} {f : α → Work β} (hx : x.Keeps here p)
    (hf : ∀ a, (f a).Keeps here p) : (x >>= f).Keeps here p := by
  intro d hHere
  obtain ⟨hHere', hUnder⟩ := hx d hHere
  rw [on_bind]
  cases hRun : x.on d with
  | mk result d' =>
    rw [hRun] at hHere' hUnder
    cases result with
    | error failure => exact ⟨hHere', hUnder⟩
    | ok a =>
      obtain ⟨hHere'', hUnder'⟩ := hf a d' hHere'
      exact ⟨hHere'', hUnder'.trans hUnder⟩

theorem keeps_liftExcept (x : Except Failure α) : (liftExcept x : Work α).Keeps here p := by
  cases x <;> exact fun _ hHere => ⟨hHere, rfl⟩

theorem keeps_orFail (c : Checked α) : (c.orFail : Work α).Keeps here p := by
  cases c <;> exact fun _ hHere => ⟨hHere, rfl⟩

theorem keeps_say (printed : Except Failure Printed) : (say printed).Keeps here p :=
  keeps_bind (keeps_liftExcept printed) fun _ _ hHere => ⟨hHere, rfl⟩

theorem say_files {printed : Except Failure Printed} {d d' : Desk}
    (h : (say printed).on d = (.ok (), d')) : d'.files = d.files := by
  cases printed with
  | ok more =>
    cases h
    rfl
  | error failure => cases h

theorem keeps_ofLogged (x : Logged α) : (ofLogged x).Keeps here p :=
  fun _ hHere => ⟨hHere, rfl⟩

/-- All failures of the computation are unexpected. -/
def FailsUnplanned (x : Work α) : Prop :=
  ∀ (d : Desk) (failure : Failure), (x.on d).1 = .error failure → failure.isUnexpected = true

theorem failsUnplanned_pure (a : α) : (pure a : Work α).FailsUnplanned :=
  fun _ _ h => nomatch h

theorem failsUnplanned_bind {x : Work α} {f : α → Work β} (hx : x.FailsUnplanned)
    (hf : ∀ a, (f a).FailsUnplanned) : (x >>= f).FailsUnplanned := by
  intro d failure h
  rw [on_bind] at h
  cases hRun : x.on d with
  | mk result d' =>
    rw [hRun] at h
    cases result with
    | error other =>
      refine hx d failure ?_
      rw [hRun]
      exact congrArg Except.error (Except.error.inj h)
    | ok a => exact hf a d' failure h

theorem failsUnplanned_onFiles {change : FileTree → Filed α}
    (h : ∀ t failure, (change t).result = .error failure → failure = .malformed) :
    (onFiles change).FailsUnplanned := by
  intro d failure hFails
  rw [h d.files failure hFails]
  rfl

/-- Saying something fails only if it cannot be shown. -/
theorem failsUnplanned_say {printed : Except Failure Printed}
    (h : ∀ failure, printed = .error failure → failure = .malformed) :
    (say printed).FailsUnplanned := by
  refine failsUnplanned_bind ?_ fun _ _ _ h => nomatch h
  intro d failure hFails
  cases printed with
  | ok more => cases hFails
  | error other =>
    cases hFails
    rw [h _ rfl]
    rfl

end Work

/-! ## Failures nobody planned for -/

theorem malformed_of_orMalformed {α : Type} {x : Option α} {failure : Failure}
    (h : (orMalformed x : Except Failure α) = .error failure) : failure = .malformed := by
  cases x with
  | some a => cases h
  | none =>
    cases h
    rfl

namespace Reporter

variable {r : Reporter} {failure : Failure}

theorem fitted_malformed {markup : String} (h : fitted markup = .error failure) :
    failure = .malformed := by
  rcases error_of_bind h with h | ⟨text, -, h⟩
  · exact malformed_of_orMalformed h
  · cases h

theorem styledMessage_malformed {markup : String} (h : styledMessage markup = .error failure) :
    failure = .malformed :=
  fitted_malformed (error_of_map h)

theorem info_malformed {text : String} (h : r.info text = .error failure) :
    failure = .malformed := by
  unfold info plainMessage at h
  split at h
  · cases h
  · split at h
    · cases h
    · exact styledMessage_malformed h

theorem success_malformed {text : String} (h : r.success text = .error failure) :
    failure = .malformed := by
  unfold success plainMessage at h
  split at h
  · cases h
  · split at h
    · cases h
    · exact styledMessage_malformed h

end Reporter

theorem jsonFileText_malformed {v : Value} {failure : Failure}
    (h : jsonFileText v = .error failure) : failure = .malformed := by
  rcases error_of_bind h with h | ⟨form, -, h⟩
  · exact malformed_of_orMalformed h
  · rcases error_of_bind h with h | ⟨text, -, h⟩
    · exact malformed_of_orMalformed h
    · cases h

theorem FileTree.makeAll_malformed {t : FileTree} {paths : List Path} {failure : Failure}
    (h : (t.makeAll paths).result = .error failure) : failure = .malformed := by
  induction paths generalizing t with
  | nil => cases h
  | cons path rest ih =>
    rw [makeAll] at h
    split at h
    · cases h
      rfl
    · exact ih h

theorem FileTree.writeAll_malformed {t : FileTree} {planned : List PlannedFile} {failure : Failure}
    (hTexts : ∀ file ∈ planned, ∀ other, file.text = .error other → other = .malformed)
    (h : (t.writeAll planned).result = .error failure) : failure = .malformed := by
  induction planned generalizing t with
  | nil => cases h
  | cons file rest ih =>
    rw [writeAll] at h
    split at h
    next other hText =>
      cases h
      exact hTexts file List.mem_cons_self _ hText
    · split at h
      · cases h
        rfl
      · exact ih (fun other hOther => hTexts other (List.mem_cons_of_mem _ hOther)) h

/-- The text of a planned file is missing only if a value has no JSON text. -/
theorem Integration.files_malformed {i : Integration} {file : PlannedFile} {failure : Failure}
    (hFile : file ∈ i.files) (h : file.text = .error failure) : failure = .malformed := by
  simp only [Integration.files, List.mem_append, List.mem_map, List.mem_cons, List.not_mem_nil,
    or_false] at hFile
  rcases hFile with (⟨a, -, rfl⟩ | ⟨t, -, rfl⟩) | rfl | rfl | rfl
  · exact jsonFileText_malformed h
  · exact jsonFileText_malformed h
  · exact jsonFileText_malformed h
  · exact jsonFileText_malformed h
  · cases h

theorem Integration.write_malformed {i : Integration} {t : FileTree} {output : Path}
    {failure : Failure} (h : (i.write t output).result = .error failure) : failure = .malformed := by
  unfold Integration.write at h
  dsimp only at h
  split at h
  next other hMade =>
    cases h
    exact FileTree.makeAll_malformed hMade
  · split at h
    next other hWritten =>
      cases h
      refine FileTree.writeAll_malformed (fun file hFile other hText => ?_) hWritten
      obtain ⟨planned, hPlanned, rfl⟩ := List.mem_map.mp hFile
      exact Integration.files_malformed hPlanned hText
    · cases h

/-! ## The parts of a generation -/

/-- What a generation works with once everything is read. -/
structure Prepared where
  settings : Settings
  config : GeneratorConfig
  document : ApiDocument
  version : String

/-- The part of a generation that reads, up to the cleaning. -/
def prepare (r : Reporter) (s : Surrounding) (options : GenerateOptions) : Work Prepared := do
  let settings ← settingsOf s options.arguments
  Work.say (r.info ("Schema: " ++ settings.schemaUrl))
  Work.say (r.info ("Output directory: " ++ settings.outputDir))
  let config ← Work.ofLogged
    (GeneratorConfig.load (← get).files (Path.ofText settings.configDir))
  Work.say (r.debug ("Loaded " ++ intText config.actions.length ++ " action config(s) and " ++
    intText config.triggers.length ++ " trigger config(s) from " ++ settings.configDir))
  let document ← loadDocument s settings.schemaUrl settings.updateCache
  let version ← liftExcept (integrationVersion settings document)
  Work.say (r.info (document.title ++ " " ++ version ++ ": " ++
    intText document.endpoints.length ++ " endpoint(s)"))
  pure ⟨settings, config, document, version⟩

/-- The part of a generation that writes, from the compilation on. -/
def writeOutput (r : Reporter) (prepared : Prepared) (operations : List Operation) : Work Unit := do
  let settings := prepared.settings
  let integration : Integration := {
    document := prepared.document
    operations := operations
    authentication := prepared.config.authentication
    version := prepared.version
    source := settings.schemaUrl }
  let written ← Work.onFiles fun files => integration.write files (Path.ofText settings.outputDir)
  Work.say (r.success ("Generated " ++ intText integration.actions.length ++ " action(s) and " ++
    intText integration.triggers.length ++ " trigger(s) (" ++ intText written.length ++
    " files) in " ++ settings.outputDir))

/-- The compilation of what was read. -/
def Prepared.compile (prepared : Prepared) : Logged (List Operation) :=
  IntegrationCompiler.compile prepared.document prepared.config prepared.settings.endpoint

/-- A generation is its parts one after the other. -/
theorem generate_eq (r : Reporter) (s : Surrounding) (options : GenerateOptions) :
    generate r s options = (do
      let prepared ← prepare r s options
      cleanOutput r prepared.settings
      let operations ← Work.ofLogged prepared.compile
      writeOutput r prepared operations) := by
  rw [prepare]
  simp only [bind_assoc, pure_bind]
  rfl

/-- The settings of a generation on some files. -/
def GenerateOptions.settings (options : GenerateOptions) (s : Surrounding) (files : FileTree) :
    Checked Settings :=
  Settings.resolve (options.arguments.map fun (name, v) => (.str name, v)) s.environment
    { root := "/", parts := files.here }

theorem settingsOf_on (s : Surrounding) (options : GenerateOptions) (d : Desk) :
    (settingsOf s options.arguments).on d = match options.settings s d.files with
      | .ok settings => (.ok settings, d)
      | .bad issues => (.error (.invalid issues), d) := by
  unfold settingsOf GenerateOptions.settings
  rw [Work.on_bind]
  show Work.on (Checked.orFail _) d = _
  cases Settings.resolve _ s.environment _ <;> rfl

/-! ## What the parts keep -/

section

variable {r : Reporter} {s : Surrounding} {options : GenerateOptions} {settings : Settings}
variable {d : Desk} {p : Place} {failure : Failure}

/-- Where fetched documents are kept. -/
def Surrounding.cachePath (s : Surrounding) : Path :=
  SchemaCache.directory (cacheDirectory s.platform s.environment s.home)

theorem openCache_keeps (hCache : d.files.Avoids s.cachePath p) :
    (openCache s).Keeps d.files.here p := by
  intro other hHere
  have hAvoids : ∀ path ∈ [s.cachePath], other.files.Avoids path p := by
    intro path hPath
    rw [List.mem_singleton.mp hPath, FileTree.Avoids, FileTree.start, hHere]
    exact hCache
  obtain ⟨hUnder, hSame⟩ := FileTree.makeAll_under hAvoids
  exact ⟨hSame.trans hHere, hUnder⟩

theorem loadDocument_keeps {source : String} {update : Bool}
    (hCache : d.files.Avoids s.cachePath p) :
    (loadDocument s source update).Keeps d.files.here p :=
  Work.keeps_bind (openCache_keeps hCache) fun _ =>
    Work.keeps_bind (fun _ hHere => ⟨hHere, rfl⟩) fun _ =>
      Work.keeps_bind (Work.keeps_liftExcept _) fun _ => Work.keeps_ofLogged _

theorem settingsOf_keeps {here : Place} {arguments : List (String × Value)} :
    (settingsOf s arguments).Keeps here p :=
  Work.keeps_bind Work.keeps_get fun _ => Work.keeps_orFail _

/-- **Before the cleaning**, a generation changes nothing under a place that the path of the cache
avoids. -/
theorem prepare_keeps (hCache : d.files.Avoids s.cachePath p) :
    (prepare r s options).Keeps d.files.here p :=
  Work.keeps_bind settingsOf_keeps fun _ =>
    Work.keeps_bind (Work.keeps_say _) fun _ =>
    Work.keeps_bind (Work.keeps_say _) fun _ =>
    Work.keeps_bind Work.keeps_get fun _ =>
    Work.keeps_bind (Work.keeps_ofLogged _) fun _ =>
    Work.keeps_bind (Work.keeps_say _) fun _ =>
    Work.keeps_bind (loadDocument_keeps hCache) fun _ =>
    Work.keeps_bind (Work.keeps_liftExcept _) fun _ =>
    Work.keeps_bind (Work.keeps_say _) fun _ => Work.keeps_pure _

theorem settings_of_prepare {prepared : Prepared} {d' : Desk}
    (h : (prepare r s options).on d = (.ok prepared, d')) :
    options.settings s d.files = .ok prepared.settings := by
  obtain ⟨settings, d₁, hSettings, h⟩ := Work.ok_of_on_bind h
  obtain ⟨_, d₂, -, h⟩ := Work.ok_of_on_bind h
  obtain ⟨_, d₃, -, h⟩ := Work.ok_of_on_bind h
  obtain ⟨found, d₄, -, h⟩ := Work.ok_of_on_bind h
  obtain ⟨config, d₅, -, h⟩ := Work.ok_of_on_bind h
  obtain ⟨_, d₆, -, h⟩ := Work.ok_of_on_bind h
  obtain ⟨document, d₇, -, h⟩ := Work.ok_of_on_bind h
  obtain ⟨version, d₈, -, h⟩ := Work.ok_of_on_bind h
  obtain ⟨_, d₉, -, h⟩ := Work.ok_of_on_bind h
  cases h
  -- Only the first of the steps decides about the settings.
  rw [settingsOf_on] at hSettings
  cases hResolved : options.settings s d.files with
  | ok settings =>
    rw [hResolved] at hSettings
    cases hSettings
    rfl
  | bad issues =>
    rw [hResolved] at hSettings
    cases hSettings

/-- Cleaning fails only where nobody planned for it. -/
theorem cleanOutput_failsUnplanned : (cleanOutput r settings).FailsUnplanned := by
  unfold cleanOutput
  split
  · refine Work.failsUnplanned_bind
      (Work.failsUnplanned_onFiles fun _ _ h => FileTree.clean_malformed h) fun removed => ?_
    split
    · exact Work.failsUnplanned_say fun _ h => Reporter.info_malformed h
    · exact Work.failsUnplanned_pure _
  · exact Work.failsUnplanned_pure _

/-- **The cleaning** leaves the files as they are, or it was asked for and leaves nothing of the
output directory. -/
theorem cleanOutput_keeps_or_clears {d' : Desk} (h : (cleanOutput r settings).on d = (.ok (), d')) :
    d'.files = d.files ∨ settings.clean = true ∧
      d'.files.under (d.files.placeOf (Path.ofText settings.outputDir)) = [] := by
  unfold cleanOutput at h
  split at h
  next hClean =>
    obtain ⟨removed, d₁, hRemoved, h⟩ := Work.ok_of_on_bind h
    have hResult : (d.files.clean (Path.ofText settings.outputDir)).result = .ok removed :=
      congrArg Prod.fst hRemoved
    have hCleaned : (d.files.clean (Path.ofText settings.outputDir)).files = d₁.files :=
      congrArg (·.2.files) hRemoved
    have hSaid : d'.files = d₁.files := by
      split at h
      · exact Work.say_files h
      · cases h
        rfl
    rw [hSaid, ← hCleaned]
    rcases FileTree.clean_under hResult with hSame | hGone
    · exact .inl hSame
    · exact .inr ⟨hClean, hGone⟩
  · cases h
    exact .inl rfl

/-- **After the compilation**, a generation fails only where nobody planned for it. -/
theorem writeOutput_failsUnplanned {prepared : Prepared} {operations : List Operation} :
    (writeOutput r prepared operations).FailsUnplanned := by
  refine Work.failsUnplanned_bind
    (Work.failsUnplanned_onFiles fun _ _ h => Integration.write_malformed h) fun written => ?_
  exact Work.failsUnplanned_say fun _ h => Reporter.success_malformed h

/-! ## The whole generation -/

/-- A command that fails leaves the files as the generation left them. -/
theorem generate_of_runCommand (h : (runCommand r s (.generate options) d).failure = some failure) :
    ∃ d', (generate r s options).on d = (.error failure, d') ∧
      (runCommand r s (.generate options) d).desk.files = d'.files := by
  unfold runCommand at h ⊢
  dsimp only at h ⊢
  cases hRun : StateT.run (ExceptT.run (generate r s options)) d with
  | mk result d' =>
    rw [hRun] at h
    cases result with
    | ok _ => cases h
    | error other =>
      cases h
      exact ⟨d', hRun, rfl⟩

/-- **What a planned failure leaves.** A generation that fails as planned leaves the output directory
as it found it, if the directory of the cache lies elsewhere. The only exception is a generation
that cleans and then fails to compile: nothing is left of the output directory. -/
theorem failed_generation_keeps_output (hSettings : options.settings s d.files = .ok settings)
    (hCache : d.files.Avoids s.cachePath (d.files.placeOf (Path.ofText settings.outputDir)))
    (hFailed : (runCommand r s (.generate options) d).failure = some failure)
    (hPlanned : failure.isUnexpected = false) :
    let output := d.files.placeOf (Path.ofText settings.outputDir)
    let after := (runCommand r s (.generate options) d).desk.files
    after.under output = d.files.under output ∨
      (settings.clean = true ∧ after.under output = [] ∧
        ∃ prepared, ((prepare r s options).on d).1 = .ok prepared ∧
          prepared.compile.run.1 = .error failure) := by
  intro output after
  obtain ⟨d', hRun, hFiles⟩ := generate_of_runCommand hFailed
  have hAfter : after = d'.files := hFiles
  rw [hAfter]
  have hKeeps : (prepare r s options).Keeps d.files.here output := prepare_keeps hCache
  obtain ⟨hHere, hKept⟩ := hKeeps d rfl
  rw [generate_eq] at hRun
  rcases Work.error_of_on_bind hRun with hPrepare | ⟨prepared, d₁, hPrepared, hRun⟩
  · -- The generation fails while it reads.
    rw [hPrepare] at hKept
    exact .inl hKept
  · rw [hPrepared] at hHere hKept
    have hSame : prepared.settings = settings := by
      have := settings_of_prepare hPrepared
      rw [hSettings] at this
      exact (Checked.ok.inj this).symm
    rcases Work.error_of_on_bind hRun with hClean | ⟨_, d₂, hCleaned, hRun⟩
    · have hUnplanned := cleanOutput_failsUnplanned d₁ failure (congrArg Prod.fst hClean)
      exact absurd hUnplanned (by simp [hPlanned])
    · rcases Work.error_of_on_bind hRun with hCompile | ⟨operations, d₃, -, hWrite⟩
      · -- The generation fails to compile, which leaves the files as the cleaning left them.
        have hLeft : d₂.files = d'.files := congrArg (·.2.files) hCompile
        have hFails : prepared.compile.run.1 = .error failure := congrArg Prod.fst hCompile
        have hPlace : d₁.files.placeOf (Path.ofText prepared.settings.outputDir) = output := by
          rw [hSame, FileTree.placeOf, FileTree.start, hHere]
          rfl
        rw [← hLeft]
        rcases cleanOutput_keeps_or_clears hCleaned with hSameFiles | ⟨hAsked, hGone⟩
        · rw [hSameFiles]
          exact .inl hKept
        · rw [hPlace] at hGone
          exact .inr ⟨hSame ▸ hAsked, hGone, prepared, congrArg Prod.fst hPrepared, hFails⟩
      · have hUnplanned := writeOutput_failsUnplanned d₃ failure (congrArg Prod.fst hWrite)
        exact absurd hUnplanned (by simp [hPlanned])

end

/-! ## Two directories -/

/-- A working directory with a document that names no paths, and with an earlier output. -/
def workingDirectory : FileTree where
  here := ["work"]
  entries := [
    (["work"], .directory),
    (["work", "api.json"],
      .file (Text.Utf8.encode "\x7b\"openapi\":\"3.0.3\",\"info\":\x7b\"version\":\"1\"\x7d\x7d")),
    (["work", "out"], .directory),
    (["work", "out", "notes.txt"], .file (Text.Utf8.encode "keep"))]

/-- A generation that cleans, of the endpoints with one path. -/
def cleaning (source output : String) : GenerateOptions where
  schemaUrl := some source
  outputDir := some output
  configDir := some "."
  endpoint := some "/users"
  clean := true

/-- The settings of such a generation. -/
def cleaningSettings (source output : String) : Settings where
  schemaUrl := source
  outputDir := output
  configDir := "."
  endpoint := some "/users"
  clean := true

/-- What becomes of such a generation in that directory. -/
def cleaningRun (s : Surrounding) (source output : String) : Outcome :=
  runCommand { quiet := true, plain := true } s (.generate (cleaning source output))
    { files := workingDirectory }

/-- A generation that cleans, but finds no document, has not cleaned yet. -/
theorem failed_generation_keeps_output_sourceMissing :
    (cleaning "missing.json" "out").settings {} workingDirectory =
        .ok (cleaningSettings "missing.json" "out") ∧
      workingDirectory.Avoids (Surrounding.cachePath {}) ["work", "out"] ∧
      (cleaningRun {} "missing.json" "out").failure = some (.source (.fileNotFound "missing.json")) ∧
      (cleaningRun {} "missing.json" "out").desk.files.under ["work", "out"] =
        workingDirectory.under ["work", "out"] := by
  have hSettings : (cleaning "missing.json" "out").settings {} workingDirectory =
      .ok (cleaningSettings "missing.json" "out") := by
    with_unfolding_all rfl
  have hCache : workingDirectory.Avoids (Surrounding.cachePath {}) ["work", "out"] :=
    FileTree.avoids_of_straight (by with_unfolding_all decide +kernel)
      (by with_unfolding_all decide +kernel)
  have hFailed : (cleaningRun {} "missing.json" "out").failure =
      some (.source (.fileNotFound "missing.json")) := by
    with_unfolding_all rfl
  have hUnread : ((prepare { quiet := true, plain := true } {} (cleaning "missing.json" "out")).on
      { files := workingDirectory }).1 = .error (.source (.fileNotFound "missing.json")) := by
    with_unfolding_all rfl
  refine ⟨hSettings, hCache, hFailed, ?_⟩
  rcases failed_generation_keeps_output hSettings hCache hFailed rfl with
    hKept | ⟨-, -, prepared, hPrepared, -⟩
  · exact hKept
  · rw [hUnread] at hPrepared
    cases hPrepared

/-- Surroundings where the path of the cache steps through a directory and out of it again. -/
def steppingThrough : Surrounding where
  environment := [("XDG_CACHE_HOME", "/work/new/../cache")]

/-- What a generation can change although it fails as planned. Cleaning comes before the
compilation, so that a path without endpoints costs the earlier output. The path of the cache can
step through the output directory and out of it again, and that makes the directory. -/
theorem failed_generation_changes_output :
    ((cleaning "api.json" "out").settings {} workingDirectory =
        .ok (cleaningSettings "api.json" "out") ∧
      ¬ ["work", "out"] <+: workingDirectory.placeOf (Surrounding.cachePath {}) ∧
      (cleaningRun {} "api.json" "out").exitCode = 2 ∧
      (cleaningRun {} "api.json" "out").failure.map Failure.message =
        some "Endpoint /users not found in the schema" ∧
      workingDirectory.under ["work", "out"] =
        [(["work", "out"], .directory),
          (["work", "out", "notes.txt"], .file (Text.Utf8.encode "keep"))] ∧
      (cleaningRun {} "api.json" "out").desk.files.under ["work", "out"] = []) ∧
    ((cleaning "missing.json" "new").settings steppingThrough workingDirectory =
        .ok (cleaningSettings "missing.json" "new") ∧
      ¬ ["work", "new"] <+: workingDirectory.placeOf steppingThrough.cachePath ∧
      (cleaningRun steppingThrough "missing.json" "new").exitCode = 7 ∧
      (cleaningRun steppingThrough "missing.json" "new").failure.map Failure.message =
        some "Schema file not found: missing.json" ∧
      workingDirectory.under ["work", "new"] = [] ∧
      (cleaningRun steppingThrough "missing.json" "new").desk.files.under ["work", "new"] =
        [(["work", "new"], .directory)]) := by
  refine ⟨⟨by with_unfolding_all rfl, ?_⟩, by with_unfolding_all rfl, ?_⟩
  · with_unfolding_all decide +kernel
  · with_unfolding_all decide +kernel

end IntegrationCompiler
