import IntegrationCompiler.Diagnostics.Issue
import IntegrationCompiler.Diagnostics.Log
import IntegrationCompiler.Json.Reader
import IntegrationCompiler.Text.Utf8

/-!
# Failures

Every way in which reading, configuring or compiling can fail, as a cause with its wording.

Main definitions:

* `Failure` — the causes, grouped by who has to act;
* `Failure.message`, `Failure.exitCode` — what the user sees;
* `Logged` — a computation that may fail and keeps its remarks either way.
-/

namespace IntegrationCompiler

/-- The command was asked for something that is not there. -/
inductive UsageFault where
  | endpointNotFound (path : String)
  | versionUnknown
  deriving Repr

/-- A configuration file cannot be used. -/
inductive ConfigFault where
  | notJson (file : String) (error : Json.ReadError)
  | notText (file : String) (fault : Text.Utf8.Fault)
  | notObject (file : String)
  | triggerWithoutEndpoint (key : String)
  | invalid (directory : String) (issues : List Issue)
  deriving Repr

/-- Configuration and document disagree about an operation. -/
inductive GenerationFault where
  | titleMissing
  | titleMalformed (title : String)
  | itemSchemaUnknown (name : String)
  | bodyWithoutProperties
  | additionalUnknown (names : List String)
  | helperType (field type : String)
  | defaultsUnknown (names : List String)
  deriving Repr

/-- A document cannot be read. -/
inductive SourceFault where
  | noInput
  | status (code : Int) (url : String)
  | fileNotFound (path : String)
  | fileEmpty (path : String)
  | notJson (error : Json.ReadError)
  | notJsonNorYaml (json : Option Json.ReadError)
  | notObject (kind : String)
  | oldFormat (version : String)
  | versionMissing
  | versionUnsupported (version : String)
  deriving Repr

/-- Why a run stops. -/
inductive Failure where
  | usage (fault : UsageFault)
  | config (fault : ConfigFault)
  | generation (operation : String) (fault : GenerationFault)
  | connection (url reason : String)
  | source (fault : SourceFault)
  /-- A part of a result breaks its rules. -/
  | invalid (issues : List Issue)
  /-- A value of a kind that nobody planned for at its place. -/
  | malformed
  deriving Repr

/-- What every trigger title begins with. -/
def triggerTitlePrefix : String := "Triggers when "

/-- A text between double quotation marks. -/
def inQuotes (s : String) : String :=
  "\"" ++ s ++ "\""

namespace UsageFault

/-- The wording of a usage fault. -/
def message : UsageFault → String
  | .endpointNotFound path => "Endpoint " ++ path ++ " not found in the schema"
  | .versionUnknown =>
    "Could not extract a version from the schema and no --version override was given"

end UsageFault

namespace ConfigFault

/-- The wording of a configuration fault; issues are listed apart. -/
def message : ConfigFault → String
  | .notJson file error => "Invalid config at " ++ file ++ ": " ++ error.message
  | .notText file fault => "Invalid config at " ++ file ++ ": " ++ fault.message
  | .notObject file => "Invalid config at " ++ file ++ ": expected a JSON object"
  | .triggerWithoutEndpoint key =>
    "Trigger " ++ inQuotes key ++ " is missing required " ++ inQuotes "endpoint" ++ " property"
  | .invalid directory _ => "Invalid configuration in " ++ directory ++ ": "

end ConfigFault

namespace GenerationFault

/-- The configuration entry at fault. -/
def configKey : GenerationFault → String
  | .titleMissing | .titleMalformed _ => "title"
  | .itemSchemaUnknown _ => "simplify.flattenArray.itemSchema"
  | .bodyWithoutProperties | .additionalUnknown _ => "simplify.additionalProperties"
  | .helperType field _ => "helperFields." ++ field ++ ".type"
  | .defaultsUnknown _ => "fieldDefaults"

/-- The wording for the operation with the given key. -/
def message (operation : String) : GenerationFault → String
  | .titleMissing =>
    "Trigger " ++ inQuotes operation ++ " is missing the required " ++ inQuotes "title" ++ " field"
  | .titleMalformed title =>
    "Trigger " ++ inQuotes operation ++ " has an invalid title " ++ inQuotes title ++
      ": it must start with " ++ inQuotes triggerTitlePrefix
  | .itemSchemaUnknown name =>
    action ++ "itemSchema " ++ inQuotes name ++ " does not exist in components.schemas"
  | .bodyWithoutProperties =>
    action ++
      "simplify.additionalProperties is set but the request body schema has no properties"
  | .additionalUnknown names =>
    action ++ "The following properties in simplify.additionalProperties do not exist in the " ++
      "request body schema: " ++ commaSeparated names
  | .helperType field type =>
    action ++ "helper field " ++ inQuotes field ++ " has unsupported type " ++ inQuotes type
  | .defaultsUnknown names =>
    action ++ "The following properties in fieldDefaults do not exist in the input fields: " ++
      commaSeparated names
where
  /-- The operation, as the subject of the sentence. -/
  action : String := "Action " ++ inQuotes operation ++ ": "

end GenerationFault

namespace SourceFault

/-- The wording of a source fault. What a YAML reader has to say is not part of it. -/
def message : SourceFault → String
  | .noInput => "No input received from stdin"
  | .status code url => "HTTP " ++ intText code ++ " fetching schema from " ++ url
  | .fileNotFound path => "Schema file not found: " ++ path
  | .fileEmpty path => "Schema file is empty: " ++ path
  | .notJson error => "Invalid JSON: " ++ error.message
  | .notJsonNorYaml json =>
    let first := match json with
      | some error => "\n  JSON error: " ++ error.message
      | none => ""
    "Failed to parse schema as JSON or YAML" ++ first ++ "\n  YAML error: "
  | .notObject kind => "Schema must be a JSON/YAML object (got " ++ kind ++ ")"
  | .oldFormat version =>
    "Swagger " ++ version ++ " is not supported; convert the document to OpenAPI 3.x first " ++
      "(https://converter.swagger.io)"
  | .versionMissing => "Missing 'openapi' field. Is this an OpenAPI 3.x document?"
  | .versionUnsupported version =>
    "Unsupported OpenAPI version: " ++ version ++ " (expected 3.0.x or 3.1.x)"

end SourceFault

namespace Failure

/-- The wording of a failure; values that break rules and values nobody planned for have none. -/
def message : Failure → String
  | .usage fault => fault.message
  | .config fault => fault.message
  | .generation operation fault => fault.message operation
  | .connection url reason => "Failed to fetch schema from " ++ url ++ ": " ++ reason
  | .source fault => fault.message
  | .invalid _ | .malformed => ""

/-- The exit code that tells scripts what kind of failure it was. -/
def exitCode : Failure → Nat
  | .usage _ => 2
  | .config _ => 3
  | .generation .. => 4
  | .connection .. => 6
  | .source _ => 7
  | .invalid _ | .malformed => 1

/-- The issues that a failure lists. -/
def issues : Failure → List Issue
  | .config (.invalid _ issues) => issues
  | .invalid issues => issues
  | _ => []

end Failure

/-! ## Computations -/

/-- A computation that may fail and whose remarks are kept either way. -/
abbrev Logged (α : Type) := ExceptT Failure (StateM Log) α

namespace Logged

/-- Adds a remark. -/
def remark (level : Level) (text : String) : Logged Unit :=
  modify (· ++ [⟨level, text⟩])

/-- Result and remarks of a computation that starts without remarks. -/
def run {α : Type} (x : Logged α) : Except Failure α × Log :=
  StateT.run (ExceptT.run x) []

end Logged

/-- A checked part as a step of a computation. -/
def Checked.orFail {α : Type} {m : Type → Type} [Monad m] [MonadExceptOf Failure m]
    (c : Checked α) : m α :=
  match c with
  | .ok a => pure a
  | .bad issues => throw (.invalid issues)

/-- A part that may be of an unplanned kind as a step of a computation. -/
def orMalformed {α : Type} {m : Type → Type} [Monad m] [MonadExceptOf Failure m]
    (x : Option α) : m α :=
  match x with
  | some a => pure a
  | none => throw Failure.malformed

end IntegrationCompiler
