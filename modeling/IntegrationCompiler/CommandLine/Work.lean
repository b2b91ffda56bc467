import IntegrationCompiler.CommandLine.Invocation
import IntegrationCompiler.Config.Load
import IntegrationCompiler.Config.Settings
import IntegrationCompiler.Endpoint.Extract
import IntegrationCompiler.Manifest.Write
import IntegrationCompiler.Operation.Compile
import IntegrationCompiler.Source.Load

/-!
# The commands

What the commands do, as computations on files, a cache and what has been printed.

Main definitions:

* `Surrounding` — what a command finds; `Desk` — what it changes;
* `generate` — compiles a document and writes the integration;
* `listEndpoints` — lists what can be compiled.
-/

namespace IntegrationCompiler

/-- What a command finds when it starts, apart from the files. -/
structure Surrounding where
  standardInput : String := ""
  server : Server := []
  environment : List (String × String) := []
  platform : String := "Linux"
  home : Path := Path.ofText "/"

/-- What a command changes. -/
structure Desk where
  files : FileTree
  cache : SchemaCache := .empty
  /-- The addresses that were asked. -/
  fetched : List String := []
  log : Log := []
  printed : Printed := {}

/-- A computation of a command; what it has changed outlives a failure. -/
abbrev Work (α : Type) := ExceptT Failure (StateM Desk) α

namespace Work

/-- Prints something. -/
def say (printed : Except Failure Printed) : Work Unit := do
  let more ← liftExcept printed
  modify fun d => { d with printed := d.printed ++ more }

/-- A computation that only makes remarks. -/
def ofLogged {α : Type} (x : Logged α) : Work α := ExceptT.mk do
  let (result, log) := x.run
  modify fun d => { d with log := d.log ++ log }
  pure result

/-- A change to the files. -/
def onFiles {α : Type} (change : FileTree → Filed α) : Work α := ExceptT.mk do
  let filed := change (← get).files
  modify fun d => { d with files := filed.files, log := d.log ++ filed.log }
  pure filed.result

end Work

/-! ## Loading -/

/-- Makes the directory in which fetched documents are kept. -/
def openCache (s : Surrounding) : Work Unit :=
  let directory := SchemaCache.directory (cacheDirectory s.platform s.environment s.home)
  Work.onFiles fun files => files.makeAll [directory]

/-- Loads the raw document of a source. -/
def loadRaw (s : Surrounding) (source : String) (update : Bool) : Work Entries := ExceptT.mk do
  let d ← get
  let origins : Origins :=
    { files := d.files, standardInput := s.standardInput, server := s.server }
  let loaded := load origins source d.cache (if update then .refresh else .on)
  set { d with
    cache := loaded.cache
    fetched := d.fetched ++ loaded.fetched
    log := d.log ++ loaded.log }
  pure (loaded.document.bind RawDocument.found)

/-- Loads the document of a source and reads its endpoints. -/
def loadDocument (s : Surrounding) (source : String) (update : Bool) : Work ApiDocument := do
  openCache s
  let raw ← loadRaw s source update
  let version ← liftExcept (supportedVersion raw)
  Work.ofLogged (ApiDocument.extract raw version)

/-- The settings that arguments and environment make. -/
def settingsOf (s : Surrounding) (arguments : List (String × Value)) : Work Settings := do
  let here : Path := { root := "/", parts := (← get).files.here }
  let entries : Entries := arguments.map fun (name, v) => (.str name, v)
  (Settings.resolve entries s.environment here).orFail

/-! ## Generating -/

/-- The arguments of a generation by their names. -/
def GenerateOptions.arguments (o : GenerateOptions) : List (String × Value) := [
  ("schema_url", .optionalText o.schemaUrl), ("output_dir", .optionalText o.outputDir),
  ("config_dir", .optionalText o.configDir), ("endpoint", .optionalText o.endpoint),
  ("version", .optionalText o.version), ("update_cache", .bool o.updateCache),
  ("clean", .bool o.clean)]

/-- The version of an integration: the given one, or that of the document. -/
def integrationVersion (settings : Settings) (document : ApiDocument) : Except Failure String :=
  let given := (settings.version.filter fun v => !v.isEmpty).getD document.version
  if given.isEmpty then .error (.usage .versionUnknown) else .ok given

/-- Removes what an earlier run left in the directory of an integration. -/
def cleanOutput (r : Reporter) (settings : Settings) : Work Unit := do
  if settings.clean then
    let removed ← Work.onFiles fun files => files.clean (Path.ofText settings.outputDir)
    if removed then Work.say (r.info ("Cleaned " ++ settings.outputDir))

/-- Compiles a document and writes the integration. The old one goes before the new one is
compiled. -/
def generate (r : Reporter) (s : Surrounding) (options : GenerateOptions) : Work Unit := do
  let settings ← settingsOf s options.arguments
  Work.say (r.info ("Schema: " ++ settings.schemaUrl))
  Work.say (r.info ("Output directory: " ++ settings.outputDir))
  let config ← Work.ofLogged
    (GeneratorConfig.load (← get).files (Path.ofText settings.configDir))
  Work.say (r.debug ("Loaded " ++ intText config.actions.length ++ " action config(s) and " ++
    intText config.triggers.length ++ " trigger config(s) from " ++ settings.configDir))
  let document ← loadDocument s settings.schemaUrl settings.updateCache
  let version ← liftExcept (integrationVersion settings document)
  Work.say (r.info (document.title ++ " " ++ version ++ ": " ++
    intText document.endpoints.length ++ " endpoint(s)"))
  cleanOutput r settings
  let operations ← Work.ofLogged (compile document config settings.endpoint)
  let integration : Integration := {
    document := document
    operations := operations
    authentication := config.authentication
    version := version
    source := settings.schemaUrl }
  let written ← Work.onFiles fun files => integration.write files (Path.ofText settings.outputDir)
  Work.say (r.success ("Generated " ++ intText integration.actions.length ++ " action(s) and " ++
    intText integration.triggers.length ++ " trigger(s) (" ++ intText written.length ++
    " files) in " ++ settings.outputDir))

/-! ## Listing -/

/-- A text, and a hyphen where there is none. -/
def orHyphen (s : String) : String :=
  if s.isEmpty then "-" else s

/-- The endpoints of a document as a table. -/
def endpointTable (document : ApiDocument) : Output.Table where
  headers := ["Method", "Path", "Operation ID", "Summary"]
  rows := document.endpoints.map fun e => [
    String.ofList (Text.upper e.method.name.toList), e.path, orHyphen (e.operationId.getD ""),
    orHyphen e.summary]
  title := some (document.title ++ " -- Endpoints (" ++ intText document.endpoints.length ++ ")")

/-- Lists the endpoints of a document. -/
def listEndpoints (r : Reporter) (s : Surrounding) (options : EndpointsOptions) : Work Unit := do
  let settings ← settingsOf s [("schema_url", .optionalText options.schemaUrl)]
  let document ← loadDocument s settings.schemaUrl options.updateCache
  Work.say (r.table (endpointTable document))

end IntegrationCompiler
