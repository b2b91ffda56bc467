import IntegrationCompiler.Config.Basic
import IntegrationCompiler.Files.Path

/-!
# Settings of a run

Where a run reads from and writes to. Arguments come before the environment, and the environment
before the usual places.

Main definitions:

* `Settings`, `Settings.resolve`;
* `cacheDirectory` — where fetched documents are kept.
-/

namespace IntegrationCompiler

/-- The settings in force. -/
structure Settings where
  schemaUrl : String
  outputDir : String
  configDir : String
  endpoint : Option String := none
  version : Option String := none
  updateCache : Bool := false
  clean : Bool := false
  deriving DecidableEq, Repr

namespace Settings

/-- Checks settings. -/
def read : Value → Checked Settings := Value.asRecord fun es =>
  Settings.mk
    <$> es.need ["schema_url"] Value.asText
    <*> es.need ["output_dir"] Value.asText
    <*> es.need ["config_dir"] Value.asText
    <*> es.want ["endpoint"] (Value.asOptional Value.asText) none
    <*> es.want ["version"] (Value.asOptional Value.asText) none
    <*> es.want ["update_cache"] Value.asBool false
    <*> es.want ["clean"] Value.asBool false

/-- Writes settings. -/
def toValue (s : Settings) : Value := .object [
  ("schema_url", .str s.schemaUrl), ("output_dir", .str s.outputDir),
  ("config_dir", .str s.configDir), ("endpoint", .optionalText s.endpoint),
  ("version", .optionalText s.version), ("update_cache", .bool s.updateCache),
  ("clean", .bool s.clean)]

/-- The names of the settings. -/
def names : List String :=
  ["schema_url", "output_dir", "config_dir", "endpoint", "version", "update_cache", "clean"]

/-- The document that is compiled where none is named. -/
def usualSchemaUrl : String := "https://petstore3.swagger.io/api/v3/openapi.json"

/-- The directory that is written to where none is named. -/
def usualOutput : String := "generated"

/-- The first of an argument, a variable and a usual value that is present and not empty. -/
def choose (arguments : Entries) (name : String) (environment : List (String × String))
    (key usual : String) : Value :=
  let given := (Entries.getOrNull arguments name).present?
  let fallback := (environment.lookup key).filter fun s => !s.isEmpty
  given.getD (.str (fallback.getD usual))

/-- The settings for arguments, environment and working directory. -/
def resolve (arguments : Entries) (environment : List (String × String)) (here : Path) :
    Checked Settings :=
  let chosen := [
    ("schema_url", choose arguments "schema_url" environment "ZAPSPEC_SCHEMA_URL" usualSchemaUrl),
    ("output_dir", choose arguments "output_dir" environment "ZAPSPEC_OUTPUT_DIR"
      (here.child usualOutput).text),
    ("config_dir", choose arguments "config_dir" environment "ZAPSPEC_CONFIG_DIR" here.text)]
  let others := ["endpoint", "version", "update_cache", "clean"].filterMap fun name =>
    (Entries.get? arguments name).map (name, ·)
  read (.object (chosen ++ others))

end Settings

/-! ## The cache -/

/-- The name of the program. -/
def programName : String := "zapspec"

/-- Whether programs of a platform keep their caches in the directory that a variable names. -/
def hasCacheVariable (platform : String) : Bool :=
  platform == "Linux" || ['B', 'S', 'D'].isSuffixOf platform.toList

/-- The directory for fetched documents. -/
def cacheDirectory (platform : String) (environment : List (String × String)) (home : Path) :
    Path :=
  if hasCacheVariable platform then
    match (environment.lookup "XDG_CACHE_HOME").filter fun s => !s.isEmpty with
    | some base => (Path.ofText base).child programName
    | none => (home.child ".cache").child programName
  else (home.child ("." ++ programName)).child "cache"

end IntegrationCompiler
