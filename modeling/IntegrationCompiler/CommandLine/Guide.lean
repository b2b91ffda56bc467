import IntegrationCompiler.CommandLine.Invocation
import IntegrationCompiler.Config.Settings

/-!
# What users are told about the commands

Main definitions: `Topic.help` — the help on a topic; `ArgumentFault.report` — what is said about
arguments that cannot be used.
-/

namespace IntegrationCompiler

/-- The version of the program. -/
def programVersion : String := "0.3.0"

/-- How the program is called. -/
def Topic.usage : Topic → String
  | .program => "Usage: " ++ programName ++ " [OPTIONS] COMMAND [ARGS]..."
  | .generate => "Usage: " ++ programName ++ " generate [OPTIONS]"
  | .endpoints => "Usage: " ++ programName ++ " endpoints [OPTIONS]"

/-- What a topic is about, and the options or commands that it has. -/
def Topic.parts : Topic → List String
  | .program => [
    "Compile OpenAPI 3.0/3.1 documents into Zapier integrations.",
    "",
    "  --version      Show version and exit.",
    "  --json         JSON output for listings.",
    "  --no-color     Disable color output.",
    "  --quiet, -q    Suppress non-essential output.",
    "  --verbose, -v  Enable debug output.",
    "  --help         Show this message and exit.",
    "",
    "  generate       Generate an integration from an OpenAPI document.",
    "  endpoints      List the endpoints of an OpenAPI document."]
  | .generate => [
    "Generate an integration from an OpenAPI document.",
    "",
    "  --schema-url, -s TEXT  OpenAPI document URL, file path, or '-' for stdin.",
    "  --output-dir, -o TEXT  Directory the integration is written to.",
    "  --config-dir, -c TEXT  Directory holding the *-config.json files.",
    "  --endpoint, -e TEXT    Only compile endpoints with this path.",
    "  --version TEXT         Integration version (defaults to info.version).",
    "  --update-cache         Fetch the schema again instead of using the cache.",
    "  --clean                Remove the output directory before generating.",
    "  --help                 Show this message and exit."]
  | .endpoints => [
    "List the endpoints of an OpenAPI document.",
    "",
    "  --schema-url, -s TEXT  OpenAPI document URL, file path, or '-' for stdin.",
    "  --update-cache         Fetch the schema again instead of using the cache.",
    "  --help                 Show this message and exit."]

/-- The help on a topic. -/
def Topic.help (t : Topic) : String :=
  String.join ((["", t.usage, ""] ++ t.parts).map (· ++ "\n"))

/-- Whether a fault lies in the value of a known option, so that no more than that has to be said. -/
def ArgumentFault.isAboutValue : ArgumentFault → Bool
  | .valueMissing _ | .valueUnwanted _ => true
  | _ => false

/-- What is said about arguments that cannot be used. -/
def ArgumentFault.report (fault : ArgumentFault) : String :=
  let box := Output.panel "Error" fault.message
  if fault.isAboutValue then box
  else Topic.program.usage ++ "\nTry '" ++ programName ++ " --help' for help.\n" ++ box

end IntegrationCompiler
