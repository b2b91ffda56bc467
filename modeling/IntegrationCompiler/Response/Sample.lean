import IntegrationCompiler.Diagnostics.Failure
import IntegrationCompiler.Endpoint.Basic
import IntegrationCompiler.Schema.Basic
import IntegrationCompiler.Text.Case

/-!
# Samples

What an operation yields, by example: a declared example where there is one, or else a value built
from the schema. Keys that look like credentials are left out.

Main definitions:

* `Response.sample` — a representative payload;
* `isSensitive`, `withoutSensitive` — credentials among the keys of an object;
* `actionSample`, `triggerSample` — a payload as the sample of an operation.
-/

namespace IntegrationCompiler

/-! ## From examples and schemas -/

namespace Schema

/-- A value for a schema of a plain type. -/
def plainSample (schema : Value) : Except Failure Value :=
  if isTextOf schema "date" then .ok (.str "2025-01-01")
  else if isTextOf schema "date-time" then .ok (.str "2025-01-01T00:00:00Z")
  else if hasType schema "string" then
    match (entry schema "enum").present? with
    | some v => orMalformed v.first?
    | none => .ok (.str "example")
  else if isNumeric schema then .ok (.int 0)
  else if hasType schema "boolean" then .ok (.bool false)
  else if hasType schema "array" then .ok (.list [])
  else .ok .null

/-- A value for a schema, given how its properties are sampled. -/
def sampleWith (sub : Value → Except Failure Value) (schema : Value) : Except Failure Value :=
  if !schema.truthy then .ok .null
  else do
    let given ← orMalformed (schema.contains? "example")
    match schema with
    | .map es =>
      match Entries.get? es "example" with
      | some v => .ok v
      | none =>
        if hasType schema "object" then do
          let fields ← (properties schema).mapM fun (name, p) => do
            let v ← sub p
            .ok (name, v)
          .ok (.map fields)
        else plainSample schema
    | _ => if given then .error .malformed else .ok .null

/-- A value for a schema nested less than `depth` deep. -/
def sampleTo : Nat → Value → Except Failure Value
  | 0, _ => .error .malformed
  | depth + 1, schema => sampleWith (sampleTo depth) schema

/-- A value for a schema: its example, or one that its type suggests. -/
def sample (schema : Value) : Except Failure Value :=
  sampleTo schema.depth schema

end Schema

/-- A representative payload: the first declared example, or else a value for the schema. -/
def Response.sample (r : Response) : Except Failure Value :=
  match r.examples with
  | (_, .map es) :: _ => .ok ((Entries.get? es "value").getD (.map es))
  | (_, .null) :: _ | [] => Schema.sample (.optionalEntries r.schema)
  | (_, v) :: _ => .ok v

/-- A representative payload of a response that may be missing. -/
def sampleOf : Option Response → Except Failure Value
  | some r => r.sample
  | none => .ok .null

/-! ## Credentials -/

/-- The keys that name credentials, in lower case and without separators. -/
def sensitiveNames : List String := ["password", "passwd", "pwd", "secret", "token", "apikey"]

/-- Whether a key names a credential, whatever its case and its separators. -/
def isSensitive (key : String) : Bool :=
  let bare := key.toList.filter fun c => !(c == '_' || c == '-' || Text.isBlank c)
  sensitiveNames.contains (String.ofList (Text.lower bare))

/-- The entries whose keys name no credentials; all keys have to be texts. -/
def withoutSensitive (sample : Entries) : Except Failure Entries :=
  sample.filterM fun (key, _) => match key with
    | .str s => .ok (!isSensitive s)
    | _ => .error .malformed

/-! ## Samples of operations -/

/-- The sample where there is nothing to show. -/
def emptySample : Entries := [(.str "id", .int 0)]

/-- A value as an object, if it is one. -/
def objectOrEmpty : Value → Entries
  | .map es => es
  | _ => []

/-- A value under the key `value`. -/
def boxed (v : Value) : Entries := [(.str "value", v)]

/-- Entries, or the empty sample in place of none. -/
def orEmptySample (sample : Entries) : Entries :=
  if sample.isEmpty then emptySample else sample

/-- The object that a payload shows: itself, the first item of a list, or a scalar in a box. -/
def actionSample (raw : Value) : Except Failure Entries := do
  let sample := match raw with
    | .list items => objectOrEmpty (items.headD .null)
    | .map es => es
    | .null => []
    | other => boxed other
  let kept ← withoutSensitive sample
  .ok (orEmptySample kept)

/-- The first item of the first list among entries, if some list has items. -/
def firstListed? : Entries → Option Value
  | [] => none
  | (_, .list (v :: _)) :: _ => some v
  | _ :: rest => firstListed? rest

/-- The keys that may stand for a missing `id`. -/
def idAliases : List String := ["_id", "ID", "Id", "transaction_id", "item_id", "record_id"]

/-- A sample with an `id`: its own, that of another key, or zero. -/
def withId (sample : Entries) : Entries :=
  if Entries.has sample "id" then sample
  else
    let v := (idAliases.findSome? fun name => Entries.get? sample name).getD (.int 0)
    Entries.set sample "id" v

/-- One item of what a payload holds, with an `id`. -/
def triggerSample (raw : Value) : Except Failure Entries := do
  let sample := match raw with
    | .list items => objectOrEmpty (items.headD .null)
    | .map es =>
      match firstListed? es with
      | some (.map item) => item
      | some v => boxed v
      | none => es
    | .null => []
    | other => boxed other
  let kept ← withoutSensitive sample
  .ok (withId (orEmptySample kept))

end IntegrationCompiler
