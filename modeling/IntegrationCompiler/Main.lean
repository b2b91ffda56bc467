import IntegrationCompiler.CommandLine.Run

/-!
# The program

The only module that touches the world: it reads what the asked command needs, lets the run go, and
writes what has changed. Documents on the web are out of its reach, as there is no server to ask.
-/

namespace IntegrationCompiler

/-- The variables that matter to a run. -/
def variableNames : List String :=
  ["NO_COLOR", "TERM", "XDG_CACHE_HOME", "ZAPSPEC_SCHEMA_URL", "ZAPSPEC_OUTPUT_DIR",
    "ZAPSPEC_CONFIG_DIR"]

/-- The variables that are set, with their values. -/
def readEnvironment : IO (List (String × String)) :=
  variableNames.filterMapM fun name => do
    return (← IO.getEnv name).map (name, ·)

/-- Everything that a stream still holds. -/
partial def readStream (input : IO.FS.Stream) : IO String := do
  let line ← input.getLine
  if line.isEmpty then return "" else return line ++ (← readStream input)

/-- What an opened path leads to. A directory can be opened, but not read. -/
def nodeOf (handle : IO.FS.Handle) : IO FileNode :=
  try return .file (← handle.readBinToEnd).toList
  catch _ => return .directory

/-- What stands at a path in the world. -/
def look (path : Path) : IO (Option FileNode) :=
  try return some (← nodeOf (← IO.FS.Handle.mk path.text .read))
  catch _ => return none

/-- The settings that a command works with. -/
def Command.settings (environment : List (String × String)) (here : Path) : Command → Checked Settings
  | .generate o => Settings.resolve (o.arguments.map fun (name, v) => (.str name, v)) environment here
  | .endpoints o =>
    Settings.resolve [(.str "schema_url", .optionalText o.schemaUrl)] environment here

/-- The files that a command reads. -/
def Command.reads (settings : Settings) : Command → List Path
  | .generate _ =>
    let directory := Path.ofText settings.configDir
    Path.ofText settings.schemaUrl ::
      [actionsFile, triggersFile, authenticationFile].map directory.child
  | .endpoints _ => [Path.ofText settings.schemaUrl]

/-- The directory that a command writes to. -/
def Command.writes (settings : Settings) : Command → Option Path
  | .generate _ => some (Path.ofText settings.outputDir)
  | .endpoints _ => none

/-- The place of a path. -/
def placeOf (here path : Path) : Place :=
  (here.join path).parts

/-- A name that no file has. Where it stands in a directory at the end of a run, that directory has
not been cleared. -/
def mark : String := "\x00"

/-- The tree with what stands at a path in the world. -/
def addFrom (files : FileTree) (path : Path) : IO FileTree := do
  match ← look path with
  | some (.file octets) => return files.withFile path octets
  | some .directory => return (files.makeDirectories path).getD files
  | none => return files

/-- The tree of all that a command needs. -/
def gather (here : Path) (settings : Settings) (command : Command) : IO FileTree := do
  let files ← (command.reads settings).foldlM addFrom (FileTree.withHere here)
  match command.writes settings with
  | none => return files
  | some output =>
    let files ← addFrom files output
    let place := placeOf here output
    return if files.isDirectory place then files.put (place ++ [mark]) .directory else files

/-- Writes a file, with the directories on the way to it. -/
def writeOut (place : Place) (octets : List UInt8) : IO Unit := do
  let path (names : Place) : String := ({ root := "/", parts := names } : Path).text
  IO.FS.createDirAll (path place.dropLast)
  IO.FS.writeBinFile (path place) ⟨octets.toArray⟩

/-- Makes in the world the changes that a run has made. -/
def carryOut (here : Path) (output : Path) (before after : FileTree) : IO Unit := do
  let place := placeOf here output ++ [mark]
  let cleared := (before.node? place).isSome && (after.node? place).isNone
  if cleared then
    try IO.FS.removeDirAll output.text catch _ => pure ()
  for (place, octets) in after.files do
    if cleared || before.node? place != some (.file octets) then writeOut place octets

/-- Prints what a run has to say. -/
def present (o : Outcome) : IO Unit := do
  for remark in o.desk.log do
    IO.eprintln (remark.level.name ++ " " ++ remark.text)
  IO.eprint o.desk.printed.messages
  IO.print o.desk.printed.data

/-- Runs a command in the world. -/
def runOutside (s : Surrounding) (arguments : List String) (here : Path) (command : Command) :
    IO Outcome := do
  match command.settings s.environment here with
  | .bad _ => return runProgram s arguments (FileTree.withHere here) .empty
  | .ok settings =>
    let files ← gather here settings command
    let input ← if settings.schemaUrl == "-" then readStream (← IO.getStdin) else pure ""
    let outcome := runProgram { s with standardInput := input } arguments files .empty
    match command.writes settings with
    | some output => carryOut here output files outcome.desk.files
    | none => pure ()
    return outcome

end IntegrationCompiler

open IntegrationCompiler in
/-- Runs the program; the exit code tells what came of it. -/
def main (arguments : List String) : IO UInt32 := do
  let here := Path.ofText (← IO.currentDir).toString
  let home := Path.ofText ((← IO.getEnv "HOME").getD "/")
  let s : Surrounding := { environment := ← readEnvironment, home := home }
  let outcome ← match Invocation.ofArguments arguments with
    | .run _ command => runOutside s arguments here command
    | _ => pure (runProgram s arguments (FileTree.withHere here) .empty)
  present outcome
  return outcome.exitCode.toUInt32
