import IntegrationCompiler.Value.Text

/-!
# Issues with a value

What is wrong with a value that should describe a field, a plan or a configuration. All issues of a
value are collected, in the order in which its parts are declared.

Main definitions:

* `Issue` — a rule that is broken, and the path to the place;
* `Checked` — a result, or every issue found on the way to it;
* `Value.asText`, `Value.asBool`, … — the basic rules.
-/

namespace IntegrationCompiler

/-- One step of a path into a value. -/
inductive Step where
  | key (name : String)
  | index (i : Int)
  deriving DecidableEq, Repr

/-- How a field breaks the rule that it is either a scalar or a group. -/
inductive ShapeFault where
  /-- A group that also declares a type. -/
  | typedGroup (key : String)
  /-- Neither a type nor children. -/
  | empty (key : String)
  /-- A default on a field that holds no text. -/
  | defaultNotText (key : String)
  deriving DecidableEq, Repr

/-- The wording of a shape fault. -/
def ShapeFault.message : ShapeFault → String
  | .typedGroup key => "Field '" ++ key ++ "' has children and must not declare a type"
  | .empty key => "Field '" ++ key ++ "' needs a type or children"
  | .defaultNotText key =>
    "Field '" ++ key ++ "' may only carry a default when it is a string field"

/-- The rule that a value breaks. -/
inductive Rule where
  | missing
  | text
  | boolean
  | booleanForm
  | integer
  | integerForm
  | integerSize
  | integerFromFraction
  | finiteNumber
  | mapping
  | list
  | oneOf
  | constant
  | object
  | taggedObject
  | tagMissing
  | tagUnknown
  | attribute
  | shape (fault : ShapeFault)
  deriving DecidableEq, Repr

/-- The short name of a rule. -/
def Rule.code : Rule → String
  | .missing => "missing"
  | .text => "string_type"
  | .boolean => "bool_type"
  | .booleanForm => "bool_parsing"
  | .integer => "int_type"
  | .integerForm => "int_parsing"
  | .integerSize => "int_parsing_size"
  | .integerFromFraction => "int_from_float"
  | .finiteNumber => "finite_number"
  | .mapping => "dict_type"
  | .list => "list_type"
  | .oneOf => "enum"
  | .constant => "literal_error"
  | .object => "model_type"
  | .taggedObject => "model_attributes_type"
  | .tagMissing => "union_tag_not_found"
  | .tagUnknown => "union_tag_invalid"
  | .attribute => "no_such_attribute"
  | .shape _ => "value_error"

/-- A broken rule and the path to the value that breaks it. -/
structure Issue where
  path : List Step
  rule : Rule
  deriving DecidableEq, Repr

/-- A result, or all issues that stand in its way. -/
inductive Checked (α : Type) where
  | ok (a : α)
  | bad (issues : List Issue)
  deriving Repr

namespace Checked

/-- Both parts are checked, and the issues of the first come before those of the second. -/
instance : Applicative Checked where
  pure := .ok
  seq f a := match f, a () with
    | .ok f, .ok a => .ok (f a)
    | .ok _, .bad q => .bad q
    | .bad p, .ok _ => .bad p
    | .bad p, .bad q => .bad (p ++ q)

/-- A single issue at the value itself. -/
def fail {α : Type} (rule : Rule) : Checked α :=
  .bad [⟨[], rule⟩]

/-- The same result seen from one step further out. -/
def under {α : Type} (step : Step) : Checked α → Checked α
  | .ok a => .ok a
  | .bad issues => .bad (issues.map fun i => { i with path := step :: i.path })

/-- A further rule for a result, looked at only when everything before it holds. -/
def andThen {α β : Type} (a : Checked α) (f : α → Checked β) : Checked β :=
  match a with
  | .ok a => f a
  | .bad issues => .bad issues

/-- The results of all parts, or all their issues. -/
def all {α : Type} : List (Checked α) → Checked (List α)
  | [] => .ok []
  | c :: rest => (· :: ·) <$> c <*> all rest

end Checked

/-! ## Basic rules -/

namespace Value

/-- A text. -/
def asText : Value → Checked String
  | .str s => .ok s
  | _ => .fail .text

/-- The words that mean true. -/
def trueWords : List String := ["1", "on", "t", "true", "y", "yes"]

/-- The words that mean false. -/
def falseWords : List String := ["0", "off", "f", "false", "n", "no"]

/-- A truth value: itself, zero or one, or one of the usual words in any letter case. -/
def asBool : Value → Checked Bool
  | .bool b => .ok b
  | .str s =>
    let word := String.ofList (Number.asciiLower s.toList)
    if trueWords.contains word then .ok true
    else if falseWords.contains word then .ok false
    else .fail .booleanForm
  | .int n => if n = 1 then .ok true else if n = 0 then .ok false else .fail .booleanForm
  | .float x =>
    if x.cmpInt 1 = some .eq then .ok true
    else if x.isZero then .ok false
    else .fail .booleanForm
  | _ => .fail .boolean

/-- Digits without a fraction of zeros, when there is one. -/
def dropZeroFraction (cs : List Char) : List Char :=
  let fraction := cs.dropWhile (· != '.')
  if (fraction.drop 1).all (· == '0') then cs.takeWhile (· != '.') else cs

/-- An integer written as text: blanks around it and a fraction of zeros are allowed. -/
def integerOfText (s : String) : Checked Int :=
  let (negative, body) := Number.splitSign (Text.trim s.toList)
  match Number.dropUnderscores (dropZeroFraction body) with
  | none => .fail .integerForm
  | some digits =>
    if digits.isEmpty || !digits.all Number.isAsciiDigit then .fail .integerForm
    else if Number.maxIntegerDigits < digits.length then .fail .integerSize
    else
      let n := Text.ofDigits (digits.map Number.asciiValue)
      .ok (if negative then -(n : Int) else n)

/-- An integer: itself, a truth value, a double without fraction, or an integer as text. -/
def asInt : Value → Checked Int
  | .int n => .ok n
  | .bool b => .ok b.toNat
  | .float x =>
    match x with
    | .finite .. =>
      match x.toInt? with
      | some n => .ok n
      | none => .fail .integerFromFraction
    | _ => .fail .finiteNumber
  | .str s => integerOfText s
  | _ => .fail .integer

/-- Anything. -/
def asAny (v : Value) : Checked Value :=
  .ok v

/-- Null, or a value that satisfies the rule. -/
def asOptional {α : Type} (read : Value → Checked α) : Value → Checked (Option α)
  | .null => .ok none
  | v => some <$> read v

/-- The items of a list under their indexes. -/
def checkItems {α : Type} (read : Value → Checked α) (i : Nat) : List Value → Checked (List α)
  | [] => .ok []
  | v :: rest => (· :: ·) <$> (read v).under (.index i) <*> checkItems read (i + 1) rest

/-- A list whose items all satisfy the rule. -/
def asList {α : Type} (read : Value → Checked α) : Value → Checked (List α)
  | .list items => checkItems read 0 items
  | .set members => checkItems read 0 (members.map .scalar)
  | _ => .fail .list

/-- A key as a step of a path. -/
def keyStep : Scalar → Step
  | .str s => .key s
  | .int n => .index n
  | .bool b => .index b.toNat
  | other => .key other.literal

/-- One entry of a mapping whose keys have to be texts. -/
def checkEntry {α : Type} (read : Value → Checked α) (k : Scalar) (v : Value) :
    Checked (String × α) :=
  let key : Checked String := match k with
    | .str s => .ok s
    | _ => (Checked.fail .text).under (.key "[key]")
  Prod.mk <$> key.under (keyStep k) <*> (read v).under (keyStep k)

/-- A mapping from texts to values that satisfy the rule. -/
def asMapping {α : Type} (read : Value → Checked α) : Value → Checked (List (String × α))
  | .map entries => .all (entries.map fun (k, v) => checkEntry read k v)
  | _ => .fail .mapping

/-- A mapping with text keys and any values. -/
def asEntries : Value → Checked Entries
  | .map entries =>
    (fun fields => fields.map fun (k, v) => (.str k, v)) <$> asMapping asAny (.map entries)
  | _ => .fail .mapping

/-- One of the named constants. -/
def asOneOf {α : Type} (ofName? : String → Option α) : Value → Checked α
  | .str s =>
    match ofName? s with
    | some a => .ok a
    | none => .fail .oneOf
  | _ => .fail .oneOf

/-- A mapping read as a record. -/
def asRecord {α : Type} (read : Entries → Checked α) : Value → Checked α
  | .map entries => read entries
  | _ => .fail .object

end Value

/-! ## Record fields -/

namespace Entries

/-- The value of a record field with the key under which it was found: an alias wins. -/
def field? (entries : Entries) (names : List String) : Option (String × Value) :=
  names.findSome? fun name => (entries.get? name).map (name, ·)

/-- A field that has to be present. The names are those it may go by, the preferred one first. -/
def need {α : Type} (entries : Entries) (names : List String) (read : Value → Checked α) :
    Checked α :=
  match entries.field? names with
  | some (name, v) => (read v).under (.key name)
  | none => (Checked.fail .missing).under (.key (names.headD ""))

/-- A field with a default. -/
def want {α : Type} (entries : Entries) (names : List String) (read : Value → Checked α)
    (default : α) : Checked α :=
  match entries.field? names with
  | some (name, v) => (read v).under (.key name)
  | none => .ok default

end Entries

end IntegrationCompiler
