import IntegrationCompiler.Diagnostics.Failure
import IntegrationCompiler.Json.Printer
import IntegrationCompiler.Output.Table

/-!
# What a command says

Data and messages go two different ways, so that data can be read by other programs. Messages are
plain, or they are marked up and fitted to the screen.

Main definitions:

* `Printed` — what is said on the two ways;
* `Reporter` — how it is said;
* `Reporter.info`, `Reporter.success`, `Reporter.warning`, `Reporter.error`, `Reporter.debug` —
  messages;
* `Reporter.json`, `Reporter.table` — data.
-/

namespace IntegrationCompiler

/-- What is printed: data, and messages about it. -/
structure Printed where
  data : String := ""
  messages : String := ""
  deriving DecidableEq, Repr

/-- One thing after another. -/
instance : Append Printed where
  append a b := ⟨a.data ++ b.data, a.messages ++ b.messages⟩

/-- How a command says things. -/
structure Reporter where
  /-- Tables are written as JSON. -/
  asJson : Bool := false
  /-- Messages are written as they are, without styles and line breaks of their own. -/
  plain : Bool := false
  quiet : Bool := false
  verbose : Bool := false
  deriving DecidableEq, Repr

namespace Reporter

/-- Whether the environment asks for plain messages. -/
def wantsPlain (environment : List (String × String)) : Bool :=
  (environment.lookup "NO_COLOR").isSome || environment.lookup "TERM" == some "dumb"

/-- The reporter for some options in an environment. -/
def configure (r : Reporter) (environment : List (String × String)) : Reporter :=
  { r with plain := r.plain || wantsPlain environment }

/-! ## Messages -/

/-- A marked-up text, fitted to the screen. -/
def fitted (markup : String) : Except Failure String := do
  let text ← orMalformed (Output.plainText? markup.toList)
  let lines := Output.wrap Output.screenWidth true text
  .ok (Output.textOfLines (lines.map (Output.crop Output.screenWidth)))

/-- A message as it is. -/
def plainMessage (text : String) : Except Failure Printed :=
  .ok { messages := text ++ "\n" }

/-- A message with markup. -/
def styledMessage (markup : String) : Except Failure Printed :=
  (fitted markup).map fun text => { messages := text }

/-- A text between the tags of a style. -/
def styled (style text : String) : String :=
  "[" ++ style ++ "]" ++ text ++ "[/" ++ style ++ "]"

/-- A message on the progress, unless the reporter is quiet. -/
def info (r : Reporter) (text : String) : Except Failure Printed :=
  if r.quiet then .ok {} else if r.plain then plainMessage text else styledMessage text

/-- A message on a success, unless the reporter is quiet. -/
def success (r : Reporter) (text : String) : Except Failure Printed :=
  if r.quiet then .ok {}
  else if r.plain then plainMessage text
  else styledMessage (styled "green" text)

/-- A message after a label in a style of its own. -/
def labelled (r : Reporter) (label style text : String) : Except Failure Printed :=
  if r.plain then plainMessage (label ++ text) else styledMessage (styled style label ++ text)

/-- A warning. -/
def warning (r : Reporter) (text : String) : Except Failure Printed :=
  r.labelled "Warning: " "yellow" text

/-- A message on an error. -/
def error (r : Reporter) (text : String) : Except Failure Printed :=
  r.labelled "Error: " "bold red" text

/-- A message on details, if the reporter is verbose. -/
def debug (r : Reporter) (text : String) : Except Failure Printed :=
  if !r.verbose then .ok {}
  else if r.plain then plainMessage ("[debug] " ++ text)
  else styledMessage (styled "dim" text)

/-! ## Data -/

/-- A value as indented JSON. -/
def json (v : Value) : Except Failure Printed := do
  let text ← orMalformed (Json.render? .pretty v)
  .ok { data := text ++ "\n" }

/-- The rows of a table as records. -/
def records (t : Output.Table) : Value :=
  let record (row : List String) : Entries :=
    (t.headers.zip row).foldl (fun entries (header, cell) => Entries.set entries header (.str cell)) []
  .list (t.rows.map fun row => Value.map (record row))

/-- A table, or its rows as JSON. -/
def table (r : Reporter) (t : Output.Table) : Except Failure Printed :=
  if r.asJson then json (records t)
  else do
    let text ← orMalformed t.draw?
    .ok { data := text }

end Reporter

end IntegrationCompiler
