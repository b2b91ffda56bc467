import IntegrationCompiler.Diagnostics.Failure
import IntegrationCompiler.Reference.Pointer

/-!
# Resolving schemas

A resolved schema has no references and no composition: references are replaced by what they name,
`allOf` by the union of its members, `oneOf` and `anyOf` by their first member. A reference met
while it is being expanded is replaced by a placeholder, and an expansion that is complete is
remembered.

Main definitions:

* `Session` — what is remembered, which references are being expanded, and the log;
* `expandWith` — the rules for one schema, given how references and inner schemas are expanded;
* `Resolver.resolve`, `Resolver.deref`, `Resolver.componentSchemas`.
-/

namespace IntegrationCompiler

/-- The state of a resolver. -/
structure Session where
  /-- The complete expansions, the latest first; a reference may lead to no schema. -/
  resolved : List (String × Option Entries) := []
  /-- The references that are being expanded, the innermost first. -/
  active : List String := []
  log : Log := []
  deriving Repr

/-- A step of a resolver; its state outlives a failure. -/
abbrev Resolving (α : Type) := ExceptT Failure (StateM Session) α

namespace Resolving

/-- Adds a remark. -/
def remark (level : Level) (text : String) : Resolving Unit :=
  modify fun s => { s with log := s.log ++ [⟨level, text⟩] }

/-- Runs a step while a reference is being expanded, which ends whether or not the step fails. -/
def during {α : Type} (ref : String) (step : Resolving α) : Resolving α := ExceptT.mk do
  modify fun s => { s with active := ref :: s.active }
  let result ← step.run
  modify fun s => { s with active := s.active.drop 1 }
  pure result

/-- The result of steps that start from an empty session; of the session, the remarks are kept. -/
def toLogged {α : Type} (steps : Resolving α) : Logged α := ExceptT.mk do
  let (result, session) := StateT.run (ExceptT.run steps) {}
  modify (· ++ session.log)
  pure result

end Resolving

/-! ## The rules for a schema -/

/-- The key of the mark on a placeholder. -/
def circularKey : String := "x-circular-ref"

/-- What stands for a reference inside its own expansion. -/
def placeholder (ref : String) : Entries :=
  [(.str "type", .str "object"), (.str circularKey, .str ref)]

/-- Appends the values that are not there yet. -/
def appendNew (xs ys : List Value) : List Value :=
  ys.foldl (fun acc y => if acc.any (·.same y) then acc else acc ++ [y]) xs

/-- The pairs that a value can be read as: the entries of a mapping, or items of two parts each of
which the first can be a key. -/
def pairs? (v : Value) : Option (List (Scalar × Value)) :=
  match v with
  | .map entries => some entries
  | other => do
    let items ← other.walk?
    items.mapM fun item => do
      match ← item.walk? with
      | [.scalar k, w] => some (k, w)
      | _ => none

/-- The items met when the value at a key is walked through; none where it does not count as
present. -/
def itemsAt (entries : Entries) (key : String) : Resolving (List Value) :=
  match (Entries.getOrNull entries key).present? with
  | none => pure []
  | some v => orMalformed v.walk?

/-- The union of the members of `allOf`. -/
structure Merged where
  properties : Entries := []
  required : List Value := []

namespace Merged

/-- The properties of a resolved member; none where they do not count as present. -/
def propertiesOf (member : Entries) : Resolving Entries :=
  match (Entries.getOrNull member "properties").present? with
  | none => pure []
  | some v => orMalformed (pairs? v)

/-- Adds the properties and the required names of a resolved member. -/
def add (u : Merged) (member : Entries) : Resolving Merged := do
  let properties ← propertiesOf member
  let required ← itemsAt member "required"
  pure ⟨u.properties.update properties, appendNew u.required required⟩

/-- The union as a schema, with the keywords that stand beside it. -/
def toSchema (u : Merged) (beside : Entries) : Entries :=
  let kept := ["description", "example", "title"].filterMap fun key =>
    (beside.get? key).map fun v => (Scalar.str key, v)
  [(.str "type", .str "object"), (.str "properties", .map u.properties),
    (.str "required", .list u.required)] ++ kept

end Merged

/-- A resolved schema as a value. -/
def schemaValue : Option Entries → Value
  | some es => .map es
  | none => .null

/-- The keywords whose value may be a schema. -/
def innerKeywords : List String := ["items", "additionalProperties", "not"]

section Rules

variable (follow : String → Resolving (Option Entries)) (sub : Value → Resolving (Option Entries))

/-- The schema that the value of `$ref` names. -/
def followValue : Value → Resolving (Option Entries)
  | .str ref => follow ref
  | .scalar other => do
    Resolving.remark .warning
      ("Unsupported $ref " ++ other.literal ++ ": only internal references are followed")
    pure none
  | _ => throw .malformed

/-- The resolved properties. -/
def expandProperties (properties : Entries) : Resolving Entries :=
  properties.mapM fun (name, v) => return (name, schemaValue (← sub v))

/-- Adds a member of `allOf` to those before it; one that leads to no schema adds nothing. -/
def addMember (u : Merged) (member : Value) : Resolving Merged := do
  match ← sub member with
  | none => pure u
  | some [] => pure u
  | some resolved => u.add resolved

/-- The resolved properties that stand beside a union. -/
def ownProperties (schema : Entries) : Resolving Entries :=
  match Entries.get? schema "properties" with
  | none => pure []
  | some (.map properties) => expandProperties sub properties
  | some _ => throw .malformed

/-- The union of the members of `allOf` and of the keywords beside it. -/
def expandUnion (schema : Entries) : Resolving Entries := do
  let members ← orMalformed (Entries.getOrNull schema "allOf").walk?
  let u ← members.foldlM (addMember sub) {}
  -- Properties beside the union come last and win over those of its members.
  let own ← ownProperties sub schema
  let required ← itemsAt schema "required"
  pure (Merged.toSchema ⟨u.properties.update own, appendNew u.required required⟩ schema)

/-- The first member that leads to a schema. -/
def firstMember : List Value → Resolving (Option Entries)
  | [] => pure none
  | member :: rest => do
    match ← sub member with
    | some resolved => pure (some resolved)
    | none => firstMember rest

/-- Remarks on a choice among several members. -/
def remarkChoice (keyword : String) (count : Nat) : Resolving Unit :=
  if 1 < count then
    Resolving.remark .debug
      (keyword ++ " with " ++ intText count ++ " members resolved to its first member")
  else pure ()

/-- A resolved member, described as the choice is if it has no description. -/
def describedAs (schema resolved : Entries) : Entries :=
  match Entries.get? schema "description" with
  | some description =>
    if Entries.has resolved "description" then resolved
    else Entries.set resolved "description" description
  | none => resolved

/-- The first member under a keyword that leads to a schema. -/
def expandChoice (schema : Entries) (keyword : String) : Resolving (Option Entries) := do
  let members ← itemsAt schema keyword
  match ← firstMember sub members with
  | none => pure none
  | some resolved => do
    remarkChoice keyword members.length
    pure (some (describedAs schema resolved))

/-- One keyword of a schema without reference and composition. -/
def expandKeyword (key : Scalar) (v : Value) : Resolving Value :=
  match v with
  | .map inner =>
    if key = .str "properties" then return .map (← expandProperties sub inner)
    else if innerKeywords.any fun name => key = .str name then return schemaValue (← sub v)
    else pure v
  | _ => pure v

/-- A schema without references and composition, given how references and inner schemas are
expanded. What is not a mapping is no schema. -/
def expandWith (v : Value) : Resolving (Option Entries) :=
  match v with
  | .map schema =>
    match Entries.get? schema "$ref" with
    | some ref => followValue follow ref
    | none =>
      if Entries.has schema "allOf" then some <$> expandUnion sub schema
      else if Entries.has schema "oneOf" then expandChoice sub schema "oneOf"
      else if Entries.has schema "anyOf" then expandChoice sub schema "anyOf"
      else some <$> schema.mapM fun (key, v) => return (key, ← expandKeyword sub key v)
  | _ => pure none

end Rules

/-- The expansion of a schema nested less than `depth` deep. -/
def expandTo (follow : String → Resolving (Option Entries)) : Nat → Value → Resolving (Option Entries)
  | 0, _ => throw .malformed
  | depth + 1, v => expandWith follow (expandTo follow depth) v

/-- The expansion of a schema. -/
def expand (follow : String → Resolving (Option Entries)) (v : Value) : Resolving (Option Entries) :=
  expandTo follow v.depth v

/-! ## References -/

mutual

/-- How many references a value holds. -/
def Value.refCount : Value → Nat
  | .list items => Value.refCountOfItems items
  | .map entries => Value.refCountOfEntries entries
  | _ => 0

/-- How many references items hold. -/
def Value.refCountOfItems : List Value → Nat
  | [] => 0
  | v :: rest => v.refCount + Value.refCountOfItems rest

/-- How many references entries hold. -/
def Value.refCountOfEntries : List (Scalar × Value) → Nat
  | [] => 0
  | (k, v) :: rest =>
    (if k = .str "$ref" then 1 else 0) + v.refCount + Value.refCountOfEntries rest

end

namespace Resolver

/-- The value that a reference names; null, with a remark, if there is none. -/
def lookup (document : Value) (ref : String) : Resolving Value := do
  let text := (Scalar.str ref).literal
  match Pointer.segments? ref with
  | none => do
    Resolving.remark .warning
      ("Unsupported $ref " ++ text ++ ": only internal references are followed")
    pure .null
  | some segments =>
    match Pointer.find document segments with
    | .value v => pure v
    | .missing segment => do
      Resolving.remark .warning ("Cannot resolve $ref " ++ text ++ ": '" ++ segment ++ "' not found")
      pure .null
    | .noIndex => throw .malformed

/-- The value that the value of `$ref` names. -/
def lookupValue (document : Value) : Value → Resolving Value
  | .str ref => lookup document ref
  | other => do
    Resolving.remark .warning
      ("Unsupported $ref " ++ other.literal ++ ": only internal references are followed")
    pure .null

/-- The schema at the place that a reference names, given how what stands there is expanded. A
complete expansion is remembered. -/
def enter (document : Value) (expandTarget : Value → Resolving (Option Entries)) (ref : String) :
    Resolving (Option Entries) := do
  match ← lookup document ref with
  -- This is not remembered, so that a broken reference is remarked wherever it stands.
  | .null => pure none
  | target => do
    let resolved ← Resolving.during ref (expandTarget target)
    modify fun s => { s with resolved := (ref, resolved) :: s.resolved }
    pure resolved

/-- The schema that a reference stands for: a placeholder while it is being expanded, and what is
remembered of it when it has been. -/
def followWith (document : Value) (expandTarget : Value → Resolving (Option Entries))
    (ref : String) : Resolving (Option Entries) := do
  let session ← get
  if session.active.contains ref then pure (some (placeholder ref))
  else
    match session.resolved.lookup ref with
    | some resolved => pure resolved
    | none => enter document expandTarget ref

/-- The schema that a reference names, where at most `budget` references are expanded inside one
another. -/
def followTo (document : Value) : Nat → String → Resolving (Option Entries)
  | 0, _ => throw .malformed
  | budget + 1, ref => followWith document (expand (followTo document budget)) ref

/-- Enough for any chain of different references that starts at a schema. -/
def budget (document schema : Value) : Nat :=
  document.refCount + schema.refCount + 2

/-- A schema without references and composition; none if there is no schema. -/
def resolve (document schema : Value) : Resolving (Option Entries) :=
  expand (followTo document (budget document schema)) schema

/-- The end of a chain of references, of which at most `budget` are followed; `seen` are those
passed so far. -/
def derefTo (document : Value) : Nat → List String → Value → Resolving Value
  | 0, _, _ => throw .malformed
  | budget + 1, seen, v =>
    match v with
    | .map entries =>
      match Entries.get? entries "$ref" with
      | none => pure v
      | some (.str ref) =>
        if seen.contains ref then do
          Resolving.remark .warning ("Circular $ref chain at " ++ ref)
          pure .null
        else do
          let next ← lookup document ref
          derefTo document budget (ref :: seen) next
      | some (.scalar other) => lookupValue document (.scalar other)
      | some _ => throw .malformed
    | other => pure other

/-- What a value names, if it is a reference, and the value itself otherwise. -/
def deref (document v : Value) : Resolving Value :=
  derefTo document (budget document v) [] v

/-- The names of the schemas of a document. -/
def componentNames (document : Entries) : Resolving (List Value) := do
  let components ← match Entries.get? document "components" with
    | none => pure []
    | some (.map components) => pure components
    | some _ => throw .malformed
  match Entries.get? components "schemas" with
  | none => pure []
  | some raw => orMalformed raw.walk?

/-- The reference to a named schema. -/
def componentRef (name : String) : String :=
  Pointer.toKeys ["components", "schemas", name]

/-- The resolved schemas of a document that lead to a schema, given how references are followed. -/
def collectSchemas (follow : String → Resolving (Option Entries)) (document : Entries) :
    Resolving Entries := do
  let names ← componentNames document
  names.foldlM (fun acc name => do
    match name with
    | .str s =>
      match ← follow (componentRef s) with
      | some schema => pure (Entries.set acc s (.map schema))
      | none => pure acc
    | _ => throw .malformed) []

/-- The resolved schemas of a document that lead to a schema. -/
def componentSchemas (document : Entries) : Resolving Entries :=
  let root := Value.map document
  collectSchemas (followTo root (budget root root)) document

end Resolver

end IntegrationCompiler
