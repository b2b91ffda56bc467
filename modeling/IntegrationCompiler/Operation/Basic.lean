import IntegrationCompiler.Field.Basic
import IntegrationCompiler.Request.Plan
import IntegrationCompiler.Response.Plan

/-!
# Operations

The result of a compilation: actions, which are called, and triggers, which are polled.

Main definitions: `Operation`, with `Head` for what both have, `Operation.read` and
`Operation.toValue`.
-/

namespace IntegrationCompiler

/-- What all operations have. -/
structure Head where
  key : String
  noun : String
  displayLabel : String
  description : String
  operationId : Option String := none
  path : String
  inputFields : List Field := []
  sample : Entries
  request : RequestPlan
  deriving Repr

namespace Head

/-- Checks what all operations have. -/
def read (es : Entries) : Checked Head :=
  Head.mk
    <$> es.need ["key"] Value.asText
    <*> es.need ["noun"] Value.asText
    <*> es.need ["display_label"] Value.asText
    <*> es.need ["description"] Value.asText
    <*> es.want ["operation_id"] (Value.asOptional Value.asText) none
    <*> es.need ["path"] Value.asText
    <*> es.want ["input_fields"] (Value.asList Field.read) []
    <*> es.need ["sample"] Value.asEntries
    <*> es.need ["request"] RequestPlan.read

/-- Writes what all operations have. -/
def fields (h : Head) : List (String × Value) := [
  ("key", .str h.key), ("noun", .str h.noun), ("display_label", .str h.displayLabel),
  ("description", .str h.description), ("operation_id", .optionalText h.operationId),
  ("path", .str h.path), ("input_fields", .list (Field.toValues h.inputFields)),
  ("sample", .map h.sample), ("request", h.request.toValue)]

end Head

/-- What only actions have. -/
structure Action where
  head : Head
  response : ResponsePlan
  deriving Repr

/-- What only triggers have. -/
structure Trigger where
  head : Head
  hidden : Bool := false
  extraction : ArrayExtraction
  pagination : Option PaginationPlan := none
  label : Option LabelPlan := none
  filter : Option FilterPlan := none
  sortByIdDesc : Bool := false
  deriving Repr

/-- The kinds of operation. -/
inductive OperationKind where
  | action
  | trigger
  deriving DecidableEq, Repr

/-- The name of a kind. -/
def OperationKind.name : OperationKind → String
  | .action => "action"
  | .trigger => "trigger"

/-- The directory in which operations of a kind are kept. -/
def OperationKind.directory : OperationKind → String
  | .action => "actions"
  | .trigger => "triggers"

/-- A compiled operation. -/
inductive Operation where
  | action (a : Action)
  | trigger (t : Trigger)
  deriving Repr

namespace Operation

/-- What all operations have. -/
def head : Operation → Head
  | .action a => a.head
  | .trigger t => t.head

/-- The kind of an operation. -/
def kind : Operation → OperationKind
  | .action _ => .action
  | .trigger _ => .trigger

/-- The key of an operation, which is unique among those of its kind. -/
def key (o : Operation) : String :=
  o.head.key

/-- The action that an operation is. -/
def action? : Operation → Option Action
  | .action a => some a
  | .trigger _ => none

/-- The trigger that an operation is. -/
def trigger? : Operation → Option Trigger
  | .action _ => none
  | .trigger t => some t

/-- Checks a kind that is written beside an operation of that kind. -/
def kindField (kind : OperationKind) : Value → Checked Unit
  | .str s => if s == kind.name then .ok () else .fail .constant
  | _ => .fail .constant

/-- Checks an action. -/
def readAction (es : Entries) : Checked Action :=
  (fun head _ response => Action.mk head response)
    <$> Head.read es
    <*> es.want ["kind"] (kindField .action) ()
    <*> es.need ["response"] ResponsePlan.read

/-- Checks a trigger. -/
def readTrigger (es : Entries) : Checked Trigger :=
  (fun head _ => Trigger.mk head)
    <$> Head.read es
    <*> es.want ["kind"] (kindField .trigger) ()
    <*> es.want ["hidden"] Value.asBool false
    <*> es.need ["extraction"] ArrayExtraction.read
    <*> es.want ["pagination"] (Value.asOptional PaginationPlan.read) none
    <*> es.want ["label"] (Value.asOptional LabelPlan.read) none
    <*> es.want ["filter"] (Value.asOptional FilterPlan.read) none
    <*> es.want ["sort_by_id_desc"] Value.asBool false

/-- Checks an operation, whose kind tells which one it is. -/
def read : Value → Checked Operation
  | .map es =>
    match Entries.get? es "kind" with
    | none => .fail .tagMissing
    | some kind =>
      if kind.isText "action" then (.action <$> readAction es : Checked Operation).under (.key "action")
      else if kind.isText "trigger" then
        (.trigger <$> readTrigger es : Checked Operation).under (.key "trigger")
      else .fail .tagUnknown
  | _ => .fail .taggedObject

/-- Writes an operation. -/
def toValue : Operation → Value
  | .action a => .object (a.head.fields ++ [
      ("kind", .str "action"), ("response", a.response.toValue)])
  | .trigger t => .object (t.head.fields ++ [
      ("kind", .str "trigger"), ("hidden", .bool t.hidden), ("extraction", t.extraction.toValue),
      ("pagination", .optional PaginationPlan.toValue t.pagination),
      ("label", .optional LabelPlan.toValue t.label),
      ("filter", .optional FilterPlan.toValue t.filter),
      ("sort_by_id_desc", .bool t.sortByIdDesc)])

end Operation

end IntegrationCompiler
