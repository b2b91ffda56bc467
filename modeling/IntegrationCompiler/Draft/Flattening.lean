import IntegrationCompiler.Draft.Basic
import IntegrationCompiler.Field.OfSchema
import IntegrationCompiler.Naming.Noun
import IntegrationCompiler.Request.OfEndpoint

/-!
# Flattening a list

A body that holds one list of items is presented as the inputs of one item, in a group of their own
where the list has a public name and among the other inputs where it has none. Some properties of
the body may stay beside them.

Main definitions:

* `Draft.keptProperties` — the properties that stay beside the item;
* `Draft.regroupSample` — the sample in the same arrangement;
* `Draft.flatten` — the stage.
-/

namespace IntegrationCompiler.Draft

/-- The properties that stay beside the item, apart from hidden ones. Each has to be a property of
the body. -/
def keptProperties (scope : Scope) (names : List String) : Logged (List String) := do
  let properties := Schema.properties scope.bodySchema
  if names.isEmpty then pure []
  else if properties.isEmpty then scope.fail .bodyWithoutProperties
  else
    let unknown := names.filter fun name => !Entries.has properties name
    if unknown.isEmpty then
      pure (names.filter fun name => !scope.config.hideRequestBodyProperties.contains name)
    else scope.fail (.additionalUnknown unknown)

/-- Fields for the properties that stay, each at most once. -/
def addKept (scope : Scope) (required : List Scalar) (fields : List Field) (name : String) :
    Except Failure (List Field) :=
  if fields.any (·.key == name) then .ok fields
  else do
    let schema := Entries.getOrNull (Schema.properties scope.bodySchema) name
    let isRequired := required.any (·.same (.str name))
    let field ← Field.ofSchema schema name isRequired .null
    .ok (fields ++ [field])

/-- The key of the group around the fields of an item; none where they stand alone. -/
def groupKey? (config : FlattenConfig) (itemFields : List Field) : Option String :=
  let key := slugify (config.publicName.getD "")
  if key.isEmpty || itemFields.isEmpty then none else some key

/-- The inputs with the fields of an item put in, in a group or each unless its key is taken. -/
def placeItem (group : Option String) (label : String) (itemFields fields : List Field) :
    Checked (List Field) :=
  match group with
  | some key =>
    (fun g => fields ++ [g]) <$>
      Field.checked { key := key, label := label, required := true, children := itemFields }
  | none => .ok (fields ++ itemFields.filter fun f => !fields.any (·.key == f.key))

/-- A sample whose list has a first item, with that item in the group and what stays beside it. -/
def regroupSample (scope : Scope) (arrayField group : String) (itemNames kept : List String)
    (sample : Value) : Value :=
  match sample with
  | .map es =>
    match Entries.getOrNull es arrayField with
    | .list (.map first :: _) =>
      let item := first.filter fun (key, _) => itemNames.any fun name => key == .str name
      .map (kept.foldl (fun acc name =>
        match (Entries.get? es name).or (Entries.get? scope.config.fieldDefaults name) with
        | some v => Entries.set acc name v
        | none => acc) [(.str group, .map item)])
    | _ => sample
  | _ => sample

/-- The inputs that do not come from the body. -/
def fieldsBesideBody (scope : Scope) (d : Draft) : List Field :=
  let bodyNames := (d.request.body.map (·.propertyNames)).getD []
  d.fields.filter fun f => scope.parameterNames.contains f.key || !bodyNames.contains f.key

/-- Presents the list of a body as the inputs of one item. -/
def flatten (scope : Scope) (config : FlattenConfig) (additional : List String) (d : Draft) :
    Logged Draft := do
  let itemSchema := scope.itemSchema
  if itemSchema matches .null then scope.fail (.itemSchemaUnknown config.itemSchema)
  else
    let kept ← keptProperties scope additional
    let itemFields ← liftExcept
      (Field.ofProperties itemSchema scope.config.hideRequestBodyProperties)
    let itemNames := itemFields.map (·.key)
    let group := groupKey? config itemFields
    let label := config.publicName.getD ""
    let placed ← (placeItem group label itemFields (fieldsBesideBody scope d)).orFail
    let required ← liftExcept (Field.requiredNames scope.bodySchema)
    let fields ← liftExcept (kept.foldlM (addKept scope required) placed)
    let previous := d.request.body.getD {}
    let body : BodyPlan := {
      properties := namedPropertyPlans scope.bodySchema kept
      flatten := some ⟨config.arrayField, group, namedPropertyPlans itemSchema itemNames⟩
      helperMerges := previous.helperMerges
      defaults := previous.defaults }
    let sample := match group with
      | some key => regroupSample scope config.arrayField key itemNames kept d.sample
      | none => d.sample
    pure { fields := fields, request := { d.request with body := some body }, sample := sample }

end IntegrationCompiler.Draft
