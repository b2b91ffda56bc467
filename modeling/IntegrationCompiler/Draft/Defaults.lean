import IntegrationCompiler.Draft.Basic
import IntegrationCompiler.Field.Edit
import IntegrationCompiler.Field.OfSchema

/-!
# Configured defaults

Text fields carry their defaults themselves. For other fields the request plan has the default of a
property of the body, for inputs that are left empty.

Main definitions: `Draft.setDefault`, `Draft.addDefaults`.
-/

namespace IntegrationCompiler.Draft

/-- Sets the default for the input with the given key. -/
def setDefault (scope : Scope) (d : Draft) (key : String) (v : Value) : Logged Draft := do
  match Field.find? d.fields key with
  | none => pure d
  | some f =>
    let bodyNames := (d.request.body.map (·.propertyNames)).getD []
    if f.type = some .string then
      let default ← match v with
        | .null => pure none
        | v => some <$> liftExcept (defaultText v)
      let _ ← (Field.checked { f with default := default }).orFail
      pure { d with fields := Field.updateFirst key (fun g => { g with default := default }) d.fields }
    else if bodyNames.contains key && !(v matches .null) then
      let body := d.request.body.map fun b => { b with defaults := Entries.set b.defaults key v }
      pure { d with request := { d.request with body := body } }
    else do
      Logged.remark .debug ("Action " ++ inQuotes scope.key ++ ": default for non-string field " ++
        inQuotes key ++ " ignored")
      pure d

/-- Sets the configured defaults, each of which has to belong to an input. -/
def addDefaults (scope : Scope) (d : Draft) : Logged Draft := do
  let defaults := scope.config.fieldDefaults
  let unknown := (Entries.names defaults).filter fun key => (Field.find? d.fields key).isNone
  if unknown.isEmpty then
    defaults.foldlM (fun d (key, v) => setDefault scope d key.text v) d
  else scope.fail (.defaultsUnknown unknown)

end IntegrationCompiler.Draft
