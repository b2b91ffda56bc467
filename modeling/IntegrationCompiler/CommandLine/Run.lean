import IntegrationCompiler.CommandLine.Guide
import IntegrationCompiler.CommandLine.Work

/-!
# Running the program

Main definitions:

* `Outcome` — what a run leaves behind;
* `runProgram` — the run that arguments ask for.
-/

namespace IntegrationCompiler

/-- What a run leaves behind. -/
structure Outcome where
  exitCode : Nat
  /-- Why the run stopped, if it failed. -/
  failure : Option Failure := none
  /-- The files, the cache, and what was printed and remarked on the way. -/
  desk : Desk

namespace Outcome

/-- The outcome of a run that only prints something. -/
def printing (desk : Desk) (exitCode : Nat) (printed : Printed) : Outcome :=
  { exitCode := exitCode, desk := { desk with printed := desk.printed ++ printed } }

end Outcome

/-- Whether a failure is one that nobody planned for. -/
def Failure.isUnexpected : Failure → Bool
  | .invalid _ | .malformed => true
  | _ => false

/-- What is said about a failure. -/
def Failure.report : Failure → String
  | .malformed => "Unexpected error: a value is of another kind than its place asks for"
  | .invalid issues => "Unexpected error: " ++ intText issues.length ++ " value(s) break a rule"
  | failure => failure.message

/-- The desk after a failure. Where the message cannot be shown, nothing is. -/
def Desk.afterFailure (d : Desk) (r : Reporter) (failure : Failure) : Desk :=
  let remarks : Log := if failure.isUnexpected then [⟨.debug, "Unhandled error"⟩] else []
  let message := match r.error failure.report with
    | .ok printed => printed
    | .error _ => {}
  { d with log := d.log ++ remarks, printed := d.printed ++ message }

/-- The remarks that are shown to the user of a reporter. -/
def Reporter.shown (r : Reporter) (log : Log) : Log :=
  log.atLeast (if r.verbose then .debug else .warning)

/-- Runs a command. -/
def runCommand (r : Reporter) (s : Surrounding) (command : Command) (d : Desk) : Outcome :=
  let work : Work Unit := match command with
    | .generate options => generate r s options
    | .endpoints options => listEndpoints r s options
  let (result, d) := StateT.run (ExceptT.run work) d
  let d := match result with
    | .ok () => d
    | .error failure => d.afterFailure r failure
  let d := { d with log := r.shown d.log }
  match result with
  | .ok () => { exitCode := 0, desk := d }
  | .error failure => { exitCode := failure.exitCode, failure := some failure, desk := d }

/-- The exit code for arguments that cannot be used. -/
def usageExitCode : Nat := 2

/-- Does what the program is asked to do. -/
def runInvocation (s : Surrounding) (invocation : Invocation) (d : Desk) : Outcome :=
  match invocation with
  | .version => .printing d 0 { data := programName ++ " " ++ programVersion ++ "\n" }
  | .help topic asked => .printing d (if asked then 0 else usageExitCode) { data := topic.help }
  | .refused fault => .printing d usageExitCode { messages := fault.report }
  | .run reporter command => runCommand (reporter.configure s.environment) s command d

/-- Runs the program with arguments. -/
def runProgram (s : Surrounding) (arguments : List String) (files : FileTree)
    (cache : SchemaCache) : Outcome :=
  runInvocation s (Invocation.ofArguments arguments) { files := files, cache := cache }

end IntegrationCompiler
