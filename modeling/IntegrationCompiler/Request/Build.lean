import IntegrationCompiler.Request.Reading
import IntegrationCompiler.Text.Search

/-!
# Building requests

A request plan applied to the inputs of a user.

Main definitions:

* `inputAt` — the input for a name, in a group, under a joined name, or alone;
* `BodyPlan.build` — the body;
* `RequestPlan.build` — the whole request.
-/

namespace IntegrationCompiler

/-- The input for a name. With a group, the group is asked first, then the name that joins group and
name, and then the name alone. -/
def inputAt (inputs : Entries) (key : String) (group : Option String) : Value :=
  let alone := Entries.getOrNull inputs key
  match group with
  | none => alone
  | some "" => alone
  | some g =>
    let joined := (Entries.get? inputs (g ++ "__" ++ key)).getD alone
    match Entries.get? inputs g with
    | some (.map entries) => (Entries.get? entries key).getD joined
    | _ => joined

namespace MergePlan

/-- Merges extra inputs into a body or an item. A list gains the positive numbers among them, and
stays away if it would be empty; another property takes the first one that is provided. -/
def apply (m : MergePlan) (target : Entries) (inputs : Entries) (group : Option String) : Entries :=
  let helpers := m.helperKeys.map fun key => inputAt inputs key (if m.nested then group else none)
  if m.targetIsArray then
    let existing := match Entries.getOrNull target m.target with
      | .null => inputAt inputs m.target (if m.inItem then group else none)
      | v => v
    let merged := mergeHelperValues (asListInput existing) helpers
    if merged.isEmpty then target
    else Entries.set target m.target (.list (merged.map .ofNumber))
  else
    match helpers.find? fun v => !isUnprovided v with
    | some v => Entries.set target m.target (((toNumber? v).map Value.ofNumber).getD v)
    | none => target

end MergePlan

namespace BodyPlan

/-- A body with one more property, if it gets an input or has a default. -/
def addProperty (plan : BodyPlan) (inputs : Entries) (body : Entries) (p : PropertyPlan) : Entries :=
  match readInput? p.kind (Entries.getOrNull inputs p.name) p.dynamic with
  | some v => Entries.set body p.name v
  | none =>
    match Entries.get? plan.defaults p.name with
    | some v => Entries.set body p.name v
    | none => body

/-- The only item of a flattened list. -/
def item (plan : BodyPlan) (flatten : FlattenPlan) (inputs : Entries) : Entries :=
  let plain := flatten.itemProperties.foldl (fun acc p =>
    match readInput? p.kind (inputAt inputs p.name flatten.groupKey) p.dynamic with
    | some v => Entries.set acc p.name v
    | none => acc) []
  (plan.helperMerges.filter (·.inItem)).foldl
    (fun acc m => m.apply acc inputs flatten.groupKey) plain

/-- The body that a plan makes of inputs. -/
def build (plan : BodyPlan) (inputs : Entries) : Entries :=
  let plain := plan.properties.foldl (plan.addProperty inputs) []
  let body := match plan.flatten with
    | some flatten => Entries.set plain flatten.arrayField (.list [.map (plan.item flatten inputs)])
    | none => plain
  (plan.helperMerges.filter (!·.inItem)).foldl (fun acc m => m.apply acc inputs none) body

end BodyPlan

namespace RequestPlan

/-- The address with one more parameter filled in. -/
def fillPath (inputs : Entries) (url : List Char) (name : String) : List Char :=
  let text := match Entries.getOrNull inputs name with
    | .null => ""
    | v => v.text
  Text.replaceAll ('\x7b' :: name.toList ++ ['\x7d']) text.toList url

/-- The query: what is fixed, and what the user provides. -/
def queryOf (plan : RequestPlan) (inputs : Entries) : Entries :=
  plan.query.params.foldl (fun acc p =>
    match readInput? p.kind (Entries.getOrNull inputs p.name) false with
    | some v => Entries.set acc p.name v
    | none => acc) plan.query.fixed

/-- The headers, with the token where there is one. -/
def headersOf (plan : RequestPlan) (auth : Entries) : List (String × String) :=
  let token := match (Entries.getOrNull auth plan.authFieldKey).present? with
    | some v => [("Authorization", "Bearer " ++ v.text)]
    | none => []
  let content := if plan.body.isSome then [("Content-Type", "application/json")] else []
  ("Accept", "application/json") :: token ++ content

/-- The request that a plan makes of inputs and authentication. -/
def build (plan : RequestPlan) (inputs auth : Entries) : PreparedRequest where
  method := String.ofList (plan.method.name.toList.flatMap Text.upperChar)
  url := String.ofList (plan.pathParams.foldl (fillPath inputs) plan.urlTemplate.toList)
  params := plan.queryOf inputs
  jsonBody := match plan.body with
    | some body => .map (body.build inputs)
    | none => .null
  headers := plan.headersOf auth

end RequestPlan

end IntegrationCompiler
