import IntegrationCompiler.Config.Basic
import IntegrationCompiler.Config.Comments
import IntegrationCompiler.Files.Basic

/-!
# Loading the configuration

The configuration stands in three files of a directory, each of which may be missing: one for
actions, one for triggers, one for the authentication.

Main definitions:

* `readConfigFile` — the entries of one file;
* `GeneratorConfig.load` — the whole configuration.
-/

namespace IntegrationCompiler

/-- The file for actions. -/
def actionsFile : String := "actions-config.json"

/-- The file for triggers. -/
def triggersFile : String := "triggers-config.json"

/-- The file for the authentication. -/
def authenticationFile : String := "authentication-config.json"

/-- The entries that a text with comments holds. -/
def configEntries (file : String) (octets : List UInt8) : Except Failure Entries :=
  match textOf octets with
  | .error fault => .error (.config (.notText file fault))
  | .ok cs =>
    match Json.parse (stripComments (String.ofList cs)) with
    | .error error => .error (.config (.notJson file error))
    | .ok (.map entries) => .ok entries
    | .ok _ => .error (.config (.notObject file))

/-- The entries of one file of the configuration; none, with a remark, if there is no such file. -/
def readConfigFile (files : FileTree) (path : Path) : Logged Entries := do
  match ← liftExcept (files.read? path) with
  | some octets => liftExcept (configEntries path.text octets)
  | none =>
    Logged.remark .debug ("No config file at " ++ path.text ++ "; using defaults")
    pure []

/-- The triggers of a file, each of which has to name its endpoint. -/
def triggerEntries (file : Entries) : Except Failure Entries :=
  match (Entries.getOrNull file "triggers").present? with
  | none => .ok []
  | some (.map triggers) =>
    match triggers.find? fun (_, v) => match v with
      | .map es => !(Entries.getOrNull es "endpoint").truthy
      | _ => true with
    | some (key, _) => .error (.config (.triggerWithoutEndpoint key.text))
    | none => .ok triggers
  | some _ => .error .malformed

/-- A checked part of the configuration in a directory. -/
def Checked.orInvalid {α : Type} (directory : Path) (c : Checked α) : Except Failure α :=
  match c with
  | .ok a => .ok a
  | .bad issues => .error (.config (.invalid directory.text issues))

/-- The triggers under their keys; the issues of the first one that has some are its own. -/
def readTriggers (directory : Path) (triggers : Entries) :
    Except Failure (List (String × TriggerConfig)) :=
  triggers.mapM fun (key, v) => do
    let config ← (TriggerConfig.read v).orInvalid directory
    .ok (key.text, config)

namespace GeneratorConfig

/-- The configuration that three files make. -/
def ofEntries (directory : Path) (actions triggers authentication : Entries) :
    Except Failure GeneratorConfig := do
  let named ← triggerEntries triggers
  let triggers ← readTriggers directory named
  let authentication ←
    if authentication.isEmpty then .ok {}
    else (AuthConfig.read (.map authentication)).orInvalid directory
  let given := ((Entries.getOrNull actions "actions").present?).getD (.map [])
  let actions ← ((Value.asMapping ActionConfig.read given).under (.key "actions")).orInvalid directory
  .ok { actions := actions, triggers := triggers, authentication := authentication }

/-- Loads the configuration in a directory. -/
def load (files : FileTree) (directory : Path) : Logged GeneratorConfig := do
  let actions ← readConfigFile files (directory.child actionsFile)
  let triggers ← readConfigFile files (directory.child triggersFile)
  let authentication ← readConfigFile files (directory.child authenticationFile)
  let config ← liftExcept (ofEntries directory actions triggers authentication)
  Logged.remark .debug ("Loaded config: " ++ intText config.actions.length ++ " action(s), " ++
    intText config.triggers.length ++ " trigger(s), test endpoint " ++
    config.authentication.testEndpoint)
  pure config

end GeneratorConfig

end IntegrationCompiler
