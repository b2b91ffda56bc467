import IntegrationCompiler.Json.Reader
import IntegrationCompiler.Request.Plan
import IntegrationCompiler.Text.Case
import IntegrationCompiler.Value.Text

/-!
# Reading inputs

What an input value counts as, given the kind of the place it is meant for. Null and the empty text
mean that nothing was provided.

Main definitions:

* `toNumber?`, `datePart`, `asListInput` — one value read as a number, a date or a list;
* `readInput?` — an input for a place of a given kind;
* `mergeHelperValues` — positive numbers added to others, each once.
-/

namespace IntegrationCompiler

/-- The number that a value is or that a text spells; never a NaN. -/
def toNumber? (v : Value) : Option Number :=
  let number : Option Number := match v with
    | .int n => some (.int n)
    | .float x => some (Number.float x)
    | .str s => Number.ofNumeral? (Text.trim s.toList)
    | _ => none
  number.filter (· != .float .nan)

/-- The text of a value up to the first `T` or space. -/
def datePart (v : Value) : String :=
  String.ofList (v.text.toList.takeWhile fun c => c != 'T' && c != ' ')

/-- Whether nothing was provided. -/
def isUnprovided (v : Value) : Bool :=
  match v with
  | .null => true
  | .str s => s.isEmpty
  | _ => false

/-- A piece of a list in a text: a number if it spells one. -/
def listPiece (piece : List Char) : Value :=
  match Number.ofNumeral? piece with
  | some (.float .nan) => .str (String.ofList piece)
  | some n => .ofNumber n
  | none => .str (String.ofList piece)

/-- The pieces between commas that hold more than blanks. -/
def commaPieces (cs : List Char) : List Value :=
  (((Text.splitAt ',' cs).map Text.trim).filter fun piece => !piece.isEmpty).map listPiece

/-- The items of a text: those of a JSON list, or else pieces between commas. -/
def listOfText (s : String) : List Value :=
  let cs := Text.trim s.toList
  let json := if cs.head? == some '[' then Json.parse (String.ofList cs) else .ok .null
  match json with
  | .ok (.list items) => items
  | _ => commaPieces cs

/-- A value read as a list: null is empty, a text is taken apart, anything else is the only item. -/
def asListInput : Value → List Value
  | .null => []
  | .list items => items
  | .str s => listOfText s
  | other => [other]

/-- A text read as JSON where it is JSON. -/
def ofJsonText (s : String) : Value :=
  match Json.parse s with
  | .ok v => v
  | .error _ => .str s

/-- A number read from an input; a dropdown's zero, or what is no number there, was not chosen. -/
def readNumber? (v : Value) (dynamic : Bool) : Option Value :=
  match toNumber? v with
  | some n => if dynamic && n.isZero then none else some (.ofNumber n)
  | none => if dynamic then none else some v

/-- A truth value read from an input: of texts only the word true is. -/
def readBoolean (v : Value) : Bool :=
  match v with
  | .str s => Text.lower (Text.trim s.toList) == ['t', 'r', 'u', 'e']
  | other => other.truthy

/-- An input for a place of the given kind; none if nothing was provided. -/
def readInput? (kind : ValueKind) (v : Value) (dynamic : Bool) : Option Value :=
  if isUnprovided v then none
  else
    match kind with
    | .date => some (.str (datePart v))
    | .number => readNumber? v dynamic
    | .boolean => some (.bool (readBoolean v))
    | .array => some (.list (asListInput v))
    | .object =>
      match v with
      | .str s => some (ofJsonText s)
      | other => some other
    | .string => some v

/-- Adds the numbers of some values that are positive and not there yet. -/
def addPositive (merged : List Number) (v : Value) : List Number :=
  match toNumber? v with
  | some n => if n.atMostZero || merged.any (·.same n) then merged else merged ++ [n]
  | none => merged

/-- The positive numbers among two lists of values, each at its first place. -/
def mergeHelperValues (existing helpers : List Value) : List Number :=
  (existing ++ helpers).foldl addPositive []

end IntegrationCompiler
