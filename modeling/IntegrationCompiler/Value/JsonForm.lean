import IntegrationCompiler.Value.Text

/-!
# The JSON form of a value

How the free-form parts of a descriptor are written when it is stored: as plain JSON values with
text keys. Main definition: `Value.jsonForm?`.
-/

namespace IntegrationCompiler

/-- A moment in the interchange format, with `Z` for universal time. -/
def Moment.interchange (m : Moment) : String :=
  match m.offset with
  | some 0 => ({ m with offset := none } : Moment).textWith 'T' ++ "Z"
  | _ => m.textWith 'T'

/-- The text that octets encode, when they are well-formed. -/
def textOfBytes? (octets : List UInt8) : Option String :=
  String.fromUTF8? ⟨octets.toArray⟩

/-- The JSON form of a scalar: a number without digits becomes null, calendar values and bytes
become text. -/
def Scalar.jsonForm? : Scalar → Option Scalar
  | .float .nan | .float (.infinite _) => some .null
  | .date d => some (.str d.text)
  | .moment m => some (.str m.interchange)
  | .bytes octets => (textOfBytes? octets).map .str
  | other => some other

/-- The text that stands for a key. -/
def Scalar.keyForm? : Scalar → Option String
  | .str s => some s
  | .int n => intText? n
  | .bool b => some (if b then "true" else "false")
  | .date d => some d.text
  | .moment m => some m.interchange
  | .bytes octets => textOfBytes? octets
  | other => some other.literal

mutual

/-- The JSON form of a value, unless it holds bytes that encode no text, or a key that is an integer
with too many digits. Keys that become equal share the first one's place and the last one's value. -/
def Value.jsonForm? : Value → Option Value
  | .scalar s => s.jsonForm?.map .scalar
  | .list items => (Value.jsonItems? items).map .list
  | .map entries => (Value.jsonEntries? [] entries).map .map
  | .set members => (members.mapM Scalar.jsonForm?).map fun ms => .list (ms.map .scalar)

/-- The JSON forms of the items of a list. -/
def Value.jsonItems? : List Value → Option (List Value)
  | [] => some []
  | v :: rest => do
    let head ← v.jsonForm?
    let tail ← Value.jsonItems? rest
    some (head :: tail)

/-- The JSON forms of entries, stored after those in `acc`. -/
def Value.jsonEntries? (acc : Entries) : List (Scalar × Value) → Option Entries
  | [] => some acc
  | (k, v) :: rest => do
    let key ← k.keyForm?
    let value ← v.jsonForm?
    Value.jsonEntries? (acc.set key value) rest

end

end IntegrationCompiler
