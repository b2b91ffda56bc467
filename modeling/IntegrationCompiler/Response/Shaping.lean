import IntegrationCompiler.Diagnostics.Failure
import IntegrationCompiler.Response.Plan
import IntegrationCompiler.Value.Text

/-!
# Shaping answers

Response plans applied to payloads.

Main definitions:

* `ResponsePlan.shape` — what an action returns;
* `ArrayExtraction.items` — the items that a trigger yields;
* `LabelPlan.label`, `FilterPlan.keep`, `sortByIdDesc` — what happens to the items.
-/

namespace IntegrationCompiler

/-- A text or null as a key. -/
def keyOf : Option String → Scalar
  | some s => .str s
  | none => .null

/-- What an action returns when there is nothing to return. -/
def noContentResult : Value := .object [("success", .bool true), ("status", .int 204)]

/-- The result of an action for an answer with the given status. -/
def ResponsePlan.shape (plan : ResponsePlan) (status payload : Value) : Value :=
  if plan.kind = .noContent || status.same (.int 204) then noContentResult
  else
    match plan.kind, payload with
    | .wrapArray, .list items => .map [(keyOf plan.key, .list items)]
    | .bestEffort, .list items => .map [(keyOf plan.key, .list items)]
    | .extractSingle, .map entries =>
      match Entries.find? (keyOf plan.arrayProperty) entries with
      | some (.list (v :: _)) => v
      | _ => payload
    | _, _ => payload

/-- The items of a list, or nothing. -/
def itemsOf : Value → List Value
  | .list items => items
  | _ => []

/-- The items of a list, or the payload as the only item where it counts as present. -/
def itemsOrOnly (payload : Value) : List Value :=
  match payload with
  | .list items => items
  | other => if other.truthy then [other] else []

/-- The items that an answer holds. A property may hold the list itself or an object with the list
under the same name. -/
def ArrayExtraction.items (e : ArrayExtraction) (payload : Value) : List Value :=
  match e.kind, payload with
  | .property, .list items => items
  | .property, .map entries =>
    match Entries.find? (keyOf e.property) entries with
    | some (.map inner) => itemsOf ((Entries.find? (keyOf e.property) inner).getD .null)
    | some v => itemsOf v
    | none => []
  | .property, _ => []
  | .direct, v => itemsOf v
  | .wrapSingle, v => itemsOrOnly v
  | .bestEffort, v => itemsOrOnly v

/-! ## Labels -/

/-- What stands at a path of keys in an item. -/
def atPath (item : Value) (path : List String) : Value :=
  path.foldl (fun v key => match v with
    | .map es => Entries.getOrNull es key
    | _ => .null) item

/-- The text of a value in a label; null, false, zero and the empty text leave no trace. -/
def labelText (v : Value) : String :=
  if v.same .null || v.same (.str "") || v.same (.bool false) then "" else v.text

/-- Whether `c` may begin the path in a placeholder. -/
def isPathStart (c : Char) : Bool :=
  ('A' ≤ c && c ≤ 'Z') || ('a' ≤ c && c ≤ 'z') || c == '_'

/-- Whether `c` may stand in the path in a placeholder. -/
def isPathChar (c : Char) : Bool :=
  isPathStart c || ('0' ≤ c && c ≤ '9') || c == '.'

/-- The path of the placeholder that begins a text, if one does. -/
def placeholderPath? : List Char → Option (List Char)
  | '$' :: '\x7b' :: c :: rest =>
    let path := rest.takeWhile isPathChar
    if isPathStart c && (rest.drop path.length).head? == some '\x7d' then some (c :: path) else none
  | _ => none

/-- A template with its placeholders filled in from an item; the first `skip` characters belong to
a placeholder that is filled in already. -/
def fillTemplate (item : Value) : Nat → List Char → List Char
  | _, [] => []
  | skip + 1, _ :: rest => fillTemplate item skip rest
  | 0, c :: rest =>
    match placeholderPath? (c :: rest) with
    | some path =>
      let keys := (Text.splitAt '.' path).map String.ofList
      (labelText (atPath item keys)).toList ++ fillTemplate item (path.length + 2) rest
    | none => c :: fillTemplate item 0 rest

/-- A label from a template, without blanks at its ends. -/
def renderLabel (template : String) (item : Value) : String :=
  String.ofList (Text.trim (fillTemplate item 0 template.toList))

/-- The first of two texts that is not empty. -/
def orElseText (a b : String) : String :=
  if a.isEmpty then b else a

/-- The label of an item: from the template, else from the fallback, else its description, else its
id. -/
def LabelPlan.nameOf (plan : LabelPlan) (item : Entries) : Value :=
  let fallback := orElseText (plan.fallback.getD "") "$\x7bid\x7d"
  let name := orElseText (renderLabel plan.template (.map item)) (renderLabel fallback (.map item))
  if !name.isEmpty then .str name
  else
    match (Entries.getOrNull item "description").present? with
    | some v => v
    | none => .str ("Item " ++ (Entries.getOrNull item "id").text)

/-- The items with their labels as names; every item has to be an object. -/
def LabelPlan.label (plan : LabelPlan) (items : List Value) : Except Failure (List Value) :=
  items.mapM fun item => match item with
    | .map es => .ok (.map (Entries.set es "name" (plan.nameOf es)))
    | _ => .error .malformed

/-! ## Filters and order -/

/-- Whether an item has all the values that a filter asks for. -/
def FilterPlan.accepts (plan : FilterPlan) (item : Value) : Bool :=
  match item with
  | .map es => plan.equals.all fun (key, v) => match Entries.find? key es with
    | some w => w.same v
    | none => false
  | _ => false

/-- The items that a filter keeps. -/
def FilterPlan.keep (plan : FilterPlan) (items : List Value) : List Value :=
  if plan.equals.isEmpty then items else items.filter plan.accepts

/-- The number by which an item is ordered: its id, and zero where that is no number. -/
def orderNumber (item : Value) : Number :=
  match item with
  | .map es =>
    match Entries.getOrNull es "id" with
    | .int n => .int n
    | .float x => .float x
    | _ => .int 0
  | _ => .int 0

/-- Whether `a` may stand before `b`: its number is not the smaller one. -/
def mayPrecede (a b : Value) : Bool :=
  (orderNumber a).cmp (orderNumber b) != some .lt

/-- The list with an item put before the first one that it may precede. -/
def insertById (item : Value) : List Value → List Value
  | [] => [item]
  | v :: rest => if mayPrecede item v then item :: v :: rest else v :: insertById item rest

/-- Items with the greatest id first; items with the same id keep their order. -/
def sortByIdDesc (items : List Value) : List Value :=
  items.foldr insertById []

end IntegrationCompiler
