import IntegrationCompiler.Config.Settings
import IntegrationCompiler.Manifest.Basic
import IntegrationCompiler.Text.Case

/-!
# The overview of an integration

A page for readers that lists the operations. Main definition: `Integration.overview`.
-/

namespace IntegrationCompiler

/-- A text marked as code. -/
def codeSpan (s : String) : String :=
  "\x60" ++ s ++ "\x60"

/-- One row of a table. -/
def tableRow (cells : List String) : String :=
  "| " ++ " | ".intercalate cells ++ " |"

/-- The lines of a table. -/
def tableLines (headers : List String) (rows : List (List String)) : List String :=
  [tableRow headers, tableRow (headers.map fun _ => "---")] ++ rows.map tableRow

/-- A truth value as a word. -/
def yesOrNo (b : Bool) : String :=
  if b then "yes" else "no"

/-- The cells of an action. -/
def Action.cells (a : Action) : List String := [
  codeSpan a.head.key, a.head.displayLabel,
  String.ofList (Text.upper a.head.request.method.name.toList), codeSpan a.head.path]

/-- The cells of a trigger. -/
def Trigger.cells (t : Trigger) : List String := [
  codeSpan t.head.key, t.head.displayLabel, codeSpan t.head.path, yesOrNo t.pagination.isSome,
  yesOrNo t.hidden]

namespace Integration

/-- The lines in front of the tables. -/
def introduction (i : Integration) : List String := [
  "# " ++ i.document.title ++ " " ++ i.version,
  "",
  "Generated by " ++ programName ++ " from " ++ codeSpan i.source ++ ".",
  "",
  "Base URL: " ++ codeSpan (if i.document.baseUrl.isEmpty then "(none)" else i.document.baseUrl),
  "",
  "## Authentication",
  "",
  "Bearer token read from the " ++ codeSpan i.authentication.fieldKey ++ " field (" ++
    i.authentication.fieldLabel ++ ").",
  "Connection test: " ++ codeSpan ("GET " ++ i.authentication.testEndpoint) ++ ".",
  ""]

/-- The page that describes an integration. -/
def overview (i : Integration) : String :=
  let lines := i.introduction ++
    ["## Actions (" ++ intText i.actions.length ++ ")", ""] ++
    tableLines ["Key", "Label", "Method", "Path"] (i.actions.map Action.cells) ++
    ["", "## Triggers (" ++ intText i.triggers.length ++ ")", ""] ++
    tableLines ["Key", "Label", "Path", "Paginated", "Hidden"] (i.triggers.map Trigger.cells)
  String.join (lines.map (· ++ "\n"))

end Integration

end IntegrationCompiler
