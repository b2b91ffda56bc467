import IntegrationCompiler.Draft.Basic

/-!
# Hiding inputs

The configuration may hide query parameters and properties of the body. They go from the inputs,
from the request and from the sample. A property that shares its name with a parameter cannot be
hidden.

Main definitions: `Field.dropHidden`, `Value.dropKeys`, `Draft.hide`.
-/

namespace IntegrationCompiler

mutual

/-- A field without hidden ones under it; none if it is hidden or if nothing is left under it. -/
def Field.unlessHidden? (hidden : List String) : Field → Option Field
  | f@⟨key, _, _, children, _, _, _, _, _, _⟩ =>
    if hidden.contains key then none
    else if children.isEmpty then some f
    else
      let kept := Field.dropHidden hidden children
      if kept.isEmpty then none else some { f with children := kept }

/-- Fields without hidden ones, at any depth, and without groups that were left empty. -/
def Field.dropHidden (hidden : List String) : List Field → List Field
  | [] => []
  | f :: rest =>
    match Field.unlessHidden? hidden f with
    | some g => g :: Field.dropHidden hidden rest
    | none => Field.dropHidden hidden rest

end

/-- Whether a key is none of the names. -/
def isNoneOf (names : List String) (key : Scalar) : Bool :=
  !names.any fun name => key == .str name

mutual

/-- A value without some keys, in itself or in the items of lists. -/
def Value.dropKeys (names : List String) : Value → Value
  | .map entries => .map (entries.filter fun (key, _) => isNoneOf names key)
  | .list items => .list (Value.dropKeysOfItems names items)
  | other => other

/-- Items without some keys. -/
def Value.dropKeysOfItems (names : List String) : List Value → List Value
  | [] => []
  | v :: rest => v.dropKeys names :: Value.dropKeysOfItems names rest

end

namespace Scope

/-- The query parameters that are hidden. -/
def hiddenQuery (scope : Scope) : List String :=
  scope.config.hideQueryParams.filter scope.queryNames.contains

/-- The properties of the body that are hidden. -/
def hiddenBody (scope : Scope) : List String :=
  scope.config.hideRequestBodyProperties.filter fun name => !scope.parameterNames.contains name

end Scope

/-- A request without hidden query parameters and properties. -/
def RequestPlan.hide (plan : RequestPlan) (query body : List String) : RequestPlan :=
  { plan with
    query := { plan.query with params := plan.query.params.filter fun p => !query.contains p.name }
    body := plan.body.map fun b =>
      { b with properties := b.properties.filter fun p => !body.contains p.name } }

/-- The draft without what the configuration hides. -/
def Draft.hide (scope : Scope) (d : Draft) : Draft :=
  let query := scope.hiddenQuery
  let body := scope.hiddenBody
  if query.isEmpty && body.isEmpty then d
  else
    { fields := Field.dropHidden (query ++ body) d.fields
      request := d.request.hide query body
      sample := d.sample.dropKeys body }

end IntegrationCompiler
