import IntegrationCompiler.Draft.Basic
import IntegrationCompiler.Field.Edit
import IntegrationCompiler.Schema.Basic

/-!
# Helper inputs

Extra inputs whose values are merged into a property of the body. A helper of a property of the
flattened item stands in the group of the item, any other one beside the inputs.

Main definitions:

* `Draft.Attachment` — inputs and merges while helpers are added;
* `Draft.attachHelper` — one helper;
* `Draft.addHelpers` — the stage.
-/

namespace IntegrationCompiler.Draft

/-- The field of a helper. -/
def helperField (scope : Scope) (key : String) (helper : HelperConfig) : Logged Field := do
  let type ← match FieldType.ofName? helper.type with
    | some type => pure type
    | none => scope.fail (.helperType key helper.type)
  let binding ← match helper.dynamicFields with
    | some dropdown => scope.bind key dropdown
    | none => pure none
  let label := match helper.label with
    | some label => if label.isEmpty then key else label
    | none => key
  (Field.checked {
    key := key, label := label, type := some type, helpText := helper.helpText,
    dynamic := binding }).orFail

/-- The inputs and the merges while helpers are added. -/
structure Attachment where
  fields : List Field
  merges : List MergePlan := []

/-- What is known of the item of a flattened list while helpers are added. -/
structure ItemSite where
  /-- The key of the group of the item, if a field has that key. -/
  group : Option String
  properties : Entries

/-- The item of the flattened list of a draft. -/
def itemSite? (scope : Scope) (d : Draft) : Option ItemSite :=
  (d.request.body.bind (·.flatten)).map fun flatten => {
    group := flatten.groupKey.filter fun key => !key.isEmpty && (Field.find? d.fields key).isSome
    properties := Schema.properties scope.itemSchema }

/-- The inputs with one more in the group with the given key. -/
def addToGroup (fields : List Field) (group : String) (field : Field) : Checked (List Field) :=
  let change (f : Field) : Field := { f with children := f.children ++ [field] }
  match Field.find? fields group with
  | some g => (change g).checked.andThen fun _ => .ok (Field.updateFirst group change fields)
  | none => .ok fields

/-- The merges with one more helper for the target of a helper. -/
def addMerge (scope : Scope) (site : Option ItemSite) (nested : Bool) (key : String)
    (helper : HelperConfig) (merges : List MergePlan) : Logged (List MergePlan) := do
  if merges.any (·.target == helper.mapTo) then
    pure (merges.map fun m =>
      if m.target == helper.mapTo then { m with helperKeys := m.helperKeys ++ [key] } else m)
  else
    let itemProperty := (site.map (·.properties)).bind (Entries.get? · helper.mapTo)
    let schema := itemProperty.getD
      (Entries.getOrNull (Schema.properties scope.bodySchema) helper.mapTo)
    if schema matches .null then
      scope.warn ("helper field " ++ inQuotes key ++ " maps to " ++ inQuotes helper.mapTo ++
        ", which is not a request body property")
    pure (merges ++ [{
      target := helper.mapTo, helperKeys := [key], targetIsArray := Schema.hasType schema "array",
      inItem := itemProperty.isSome, nested := nested }])

/-- Adds one helper, unless there is an input with its key where it would stand. -/
def attachHelper (scope : Scope) (site : Option ItemSite) (a : Attachment)
    (named : String × HelperConfig) : Logged Attachment := do
  let (key, helper) := named
  let inItem := (site.map fun s => Entries.has s.properties helper.mapTo).getD false
  -- Keys are compared with the inputs among which the helper will stand.
  let group := if inItem then site.bind (·.group) else none
  let siblings := match group with
    | some g => ((Field.find? a.fields g).map Field.children).getD []
    | none => a.fields
  if siblings.any (·.key == key) then
    scope.warn ("helper field " ++ inQuotes key ++
      " skipped, an input with that key already exists")
    pure a
  else
    let field ← helperField scope key helper
    let fields ← match group with
      | some g => (addToGroup a.fields g field).orFail
      | none => pure (a.fields ++ [field])
    let merges ← addMerge scope site group.isSome key helper a.merges
    pure ⟨fields, merges⟩

/-- Adds the helpers of the configuration. -/
def addHelpers (scope : Scope) (d : Draft) : Logged Draft := do
  let a ← scope.config.helperFields.foldlM (attachHelper scope (itemSite? scope d))
    { fields := d.fields }
  let body := d.request.body.getD {}
  let body := { body with helperMerges := body.helperMerges ++ a.merges }
  pure { d with fields := a.fields, request := { d.request with body := some body } }

end IntegrationCompiler.Draft
