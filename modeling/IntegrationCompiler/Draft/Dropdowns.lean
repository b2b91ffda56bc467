import IntegrationCompiler.Draft.Basic
import IntegrationCompiler.Field.Edit

/-!
# Dropdowns

Inputs whose choices come from a hidden trigger. Main definitions: `Draft.bindings`, `Draft.bind`.
-/

namespace IntegrationCompiler.Draft

/-- The dropdown configured for a field without children. -/
def dropdownFor? (scope : Scope) (f : Field) : Option DropdownConfig :=
  if f.children.isEmpty then scope.config.dynamicFields.lookup f.key else none

/-- The dropdowns of all fields that get one, under the keys of the fields. -/
def bindings (scope : Scope) (fields : List Field) : Logged (List (String × Binding)) :=
  (Field.preorder fields).filterMapM fun f =>
    match dropdownFor? scope f with
    | none => pure none
    | some dropdown => return (← scope.bind f.key dropdown).map fun b => (f.key, b)

/-- A property of the body, marked if a dropdown is configured for it. -/
def markDynamic (scope : Scope) (p : PropertyPlan) : PropertyPlan :=
  if (scope.config.dynamicFields.lookup p.name).isSome then { p with dynamic := true } else p

/-- A body with the properties marked for which a dropdown is configured. -/
def markBody (scope : Scope) (body : BodyPlan) : BodyPlan :=
  { body with
    properties := body.properties.map (markDynamic scope)
    flatten := body.flatten.map fun flatten =>
      { flatten with itemProperties := flatten.itemProperties.map (markDynamic scope) } }

/-- The configured dropdowns that belong to no field, in the order of their keys. -/
def unmatched (scope : Scope) (fields : List Field) : List String :=
  let keys := (Field.preorder fields).map (·.key)
  let left := (scope.config.dynamicFields.map (·.1)).filter fun key => !keys.contains key
  left.mergeSort fun a b => a ≤ b

/-- Gives fields their dropdowns. -/
def bindDropdowns (scope : Scope) (d : Draft) : Logged Draft := do
  let bound ← bindings scope d.fields
  for key in unmatched scope d.fields do
    scope.warn ("dynamicFields entry " ++ inQuotes key ++ " matches no input field")
  let fields := Field.mapLeaves (fun f => match bound.lookup f.key with
    | some b => { f with dynamic := some b }
    | none => f) d.fields
  let request := { d.request with body := d.request.body.map (markBody scope) }
  pure { d with fields := fields, request := request }

end IntegrationCompiler.Draft
