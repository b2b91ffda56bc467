import IntegrationCompiler.CommandLine.Arguments
import IntegrationCompiler.Output.Reporter

/-!
# Invocations

What the program is asked to do: options for all commands come before the name of the command, its
own options after it.

Main definitions:

* `Command`, `Invocation` — what can be asked for;
* `Invocation.ofArguments` — what arguments ask for.
-/

namespace IntegrationCompiler

/-! ## Options -/

/-- The option for help, which every command has. -/
def helpOption : OptionSpec := ⟨["--help"], false⟩

/-- The options for all commands. -/
def versionOption : OptionSpec := ⟨["--version"], false⟩

/-- Listings as JSON. -/
def jsonOption : OptionSpec := ⟨["--json"], false⟩

/-- Plain messages. -/
def noColorOption : OptionSpec := ⟨["--no-color"], false⟩

/-- Only messages that matter. -/
def quietOption : OptionSpec := ⟨["--quiet", "-q"], false⟩

/-- Details as well. -/
def verboseOption : OptionSpec := ⟨["--verbose", "-v"], false⟩

/-- The document that is compiled. -/
def schemaOption : OptionSpec := ⟨["--schema-url", "-s"], true⟩

/-- Where the integration is written. -/
def outputOption : OptionSpec := ⟨["--output-dir", "-o"], true⟩

/-- Where the configuration is. -/
def configOption : OptionSpec := ⟨["--config-dir", "-c"], true⟩

/-- The path whose endpoints are compiled. -/
def endpointOption : OptionSpec := ⟨["--endpoint", "-e"], true⟩

/-- The version of the integration. -/
def givenVersionOption : OptionSpec := ⟨["--version"], true⟩

/-- Fetch documents again. -/
def updateOption : OptionSpec := ⟨["--update-cache"], false⟩

/-- Remove what an earlier run wrote. -/
def cleanOption : OptionSpec := ⟨["--clean"], false⟩

/-- The options before the name of the command. -/
def commonOptions : List OptionSpec :=
  [versionOption, jsonOption, noColorOption, quietOption, verboseOption, helpOption]

/-- The options for generating. -/
def generateOptions : List OptionSpec :=
  [schemaOption, outputOption, configOption, endpointOption, givenVersionOption, updateOption,
    cleanOption, helpOption]

/-- The options for listing endpoints. -/
def endpointsOptions : List OptionSpec :=
  [schemaOption, updateOption, helpOption]

/-! ## What is asked for -/

/-- What is asked of a generation. -/
structure GenerateOptions where
  schemaUrl : Option String := none
  outputDir : Option String := none
  configDir : Option String := none
  endpoint : Option String := none
  version : Option String := none
  updateCache : Bool := false
  clean : Bool := false
  deriving DecidableEq, Repr

/-- What is asked of a listing of endpoints. -/
structure EndpointsOptions where
  schemaUrl : Option String := none
  updateCache : Bool := false
  deriving DecidableEq, Repr

/-- The commands. -/
inductive Command where
  | generate (options : GenerateOptions)
  | endpoints (options : EndpointsOptions)
  deriving DecidableEq, Repr

/-- What the help is about. -/
inductive Topic where
  | program
  | generate
  | endpoints
  deriving DecidableEq, Repr

/-- What the program is asked to do. -/
inductive Invocation where
  | version
  /-- To show help; `asked` is false where there was nothing else to do. -/
  | help (topic : Topic) (asked : Bool)
  | refused (fault : ArgumentFault)
  | run (reporter : Reporter) (command : Command)
  deriving Repr

namespace Invocation

/-- Arguments of a command that has options of its own. -/
def ofCommand (reporter : Reporter) (topic : Topic) (specs : List OptionSpec)
    (build : Arguments → Command) (arguments : List String) : Invocation :=
  match Arguments.read specs true arguments with
  | .error fault => .refused fault
  | .ok a =>
    if a.has helpOption then .help topic true
    else if !a.rest.isEmpty then .refused (.unexpected a.rest)
    else .run reporter (build a)

/-- The options for generating, as they are given. -/
def generateOf (a : Arguments) : Command := .generate {
  schemaUrl := a.value? schemaOption
  outputDir := a.value? outputOption
  configDir := a.value? configOption
  endpoint := a.value? endpointOption
  version := a.value? givenVersionOption
  updateCache := a.has updateOption
  clean := a.has cleanOption }

/-- The options for listing endpoints, as they are given. -/
def endpointsOf (a : Arguments) : Command := .endpoints {
  schemaUrl := a.value? schemaOption
  updateCache := a.has updateOption }

/-- The reporter that the options for all commands ask for. -/
def reporterOf (a : Arguments) : Reporter where
  asJson := a.has jsonOption
  plain := a.has noColorOption
  quiet := a.has quietOption
  verbose := a.has verboseOption

/-- What the options for all commands ask for by themselves: of version and help, the first. -/
def early? (a : Arguments) : Option Invocation :=
  a.given.findSome? fun g =>
    if g.spec == versionOption then some .version
    else if g.spec == helpOption then some (.help .program true)
    else none

/-- The arguments after the options for all commands, or what is asked for without them. -/
def readCommon (arguments : List String) : Except Invocation Arguments :=
  match Arguments.read commonOptions false arguments with
  | .error fault => .error (.refused fault)
  | .ok a =>
    match early? a with
    | some invocation => .error invocation
    | none => .ok a

/-- What is asked for when a name is no command: it may be an option after all. -/
def ofUnknown (name : String) (arguments : List String) : Invocation :=
  match readCommon arguments with
  | .error invocation => invocation
  | .ok _ => .refused (.commandUnknown name)

/-- What arguments ask for. -/
def ofArguments (arguments : List String) : Invocation :=
  if arguments.isEmpty then .help .program false
  else
    match readCommon arguments with
    | .error invocation => invocation
    | .ok a =>
      match a.rest with
      | [] => .refused .commandMissing
      | name :: own =>
        if name == "generate" then ofCommand (reporterOf a) .generate generateOptions generateOf own
        else if name == "endpoints" then
          ofCommand (reporterOf a) .endpoints endpointsOptions endpointsOf own
        else ofUnknown name a.rest

end Invocation

end IntegrationCompiler
