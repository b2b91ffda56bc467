import IntegrationCompiler.Number.Basic
import IntegrationCompiler.Text.Search
import IntegrationCompiler.Value.Calendar

/-!
# Values

The trees that documents, configuration and user inputs are made of.

Main definitions:

* `Scalar` — the leaves, which are also the keys of mappings;
* `Value` — scalars, lists, mappings that keep their order, and sets;
* `Scalar.same`, `Value.same` — equality by value: `true`, `1` and `1.0` are one number, and the
  order of a mapping does not count;
* `Entries` — looking up, storing and removing entries without disturbing the others' order.
-/

namespace IntegrationCompiler

/-- A leaf of a value tree. -/
inductive Scalar where
  | null
  | bool (b : Bool)
  | int (n : Int)
  | float (x : Binary64)
  | str (s : String)
  | date (d : Day)
  | moment (m : Moment)
  | bytes (octets : List UInt8)
  deriving DecidableEq, Repr, Inhabited

/-- A value tree. -/
inductive Value where
  | scalar (s : Scalar)
  | list (items : List Value)
  | map (entries : List (Scalar × Value))
  | set (members : List Scalar)
  deriving Repr, Inhabited

/-- The entries of a mapping, in the order in which their keys were first written. -/
abbrev Entries := List (Scalar × Value)

namespace Value

/-- The absent value. -/
@[match_pattern] abbrev null : Value := .scalar .null

/-- A truth value. -/
@[match_pattern] abbrev bool (b : Bool) : Value := .scalar (.bool b)

/-- An integer. -/
@[match_pattern] abbrev int (n : Int) : Value := .scalar (.int n)

/-- A double. -/
@[match_pattern] abbrev float (x : Binary64) : Value := .scalar (.float x)

/-- A text. -/
@[match_pattern] abbrev str (s : String) : Value := .scalar (.str s)

/-- A number as a value. -/
def ofNumber : Number → Value
  | .int n => .int n
  | .float x => .float x

/-- A mapping with text keys. -/
def object (fields : List (String × Value)) : Value :=
  .map (fields.map fun (k, v) => (.str k, v))

/-- A text or nothing. -/
def optionalText : Option String → Value
  | some s => .str s
  | none => .null

/-- A list of texts. -/
def texts (ss : List String) : Value :=
  .list (ss.map .str)

end Value

namespace Scalar

/-- The number a scalar counts as; truth values count as one and zero. -/
def number? : Scalar → Option Number
  | .bool b => some (.int b.toNat)
  | .int n => some (.int n)
  | .float x => some (.float x)
  | _ => none

/-- Equality of leaves by value. -/
def same (a b : Scalar) : Bool :=
  match a.number?, b.number? with
  | some m, some n => m.same n
  | none, none =>
    match a, b with
    | .moment s, .moment t => s.same t
    | _, _ => a == b
  | _, _ => false

end Scalar

/-! ## Entries -/

namespace Entries

/-- The value stored under `key`. -/
def find? (key : Scalar) : Entries → Option Value
  | [] => none
  | (k, v) :: rest => if k.same key then some v else find? key rest

/-- The value stored under a text key. -/
def get? (entries : Entries) (key : String) : Option Value :=
  find? (.str key) entries

/-- Whether a text key is present. -/
def has (entries : Entries) (key : String) : Bool :=
  (entries.get? key).isSome

/-- The value under a text key, `null` when absent. -/
def getOrNull (entries : Entries) (key : String) : Value :=
  (entries.get? key).getD .null

/-- Stores a value: an existing key keeps its place and its spelling, a new one goes last. -/
def put (key : Scalar) (value : Value) : Entries → Entries
  | [] => [(key, value)]
  | (k, v) :: rest => if k.same key then (k, value) :: rest else (k, v) :: put key value rest

/-- Stores a value under a text key. -/
def set (entries : Entries) (key : String) (value : Value) : Entries :=
  put (.str key) value entries

/-- Stores every entry of `later` in turn, so that later values win. -/
def update (entries later : Entries) : Entries :=
  later.foldl (fun acc (k, v) => put k v acc) entries

/-- The keys that are texts, in order. -/
def names (entries : Entries) : List String :=
  entries.filterMap fun (k, _) => match k with
    | .str s => some s
    | _ => none

end Entries

/-! ## Equality by value -/

mutual

/-- Equality by value. Mappings agree when they have as many entries and each key of one is a key
of the other with an equal value. -/
def Value.same : Value → Value → Bool
  | .scalar a, .scalar b => a.same b
  | .list xs, .list ys => Value.sameItems xs ys
  | .map xs, .map ys => xs.length == ys.length && Value.sameEntries xs ys
  | .set xs, .set ys => xs.length == ys.length && xs.all fun x => ys.any fun y => x.same y
  | _, _ => false

/-- Equality of lists, item by item. -/
def Value.sameItems : List Value → List Value → Bool
  | [], [] => true
  | x :: xs, y :: ys => x.same y && Value.sameItems xs ys
  | _, _ => false

/-- Whether every entry has an equal one among `ys`. -/
def Value.sameEntries : List (Scalar × Value) → List (Scalar × Value) → Bool
  | [], _ => true
  | (k, v) :: xs, ys =>
    (match Entries.find? k ys with
      | some w => v.same w
      | none => false) && Value.sameEntries xs ys

end

mutual

/-- How deep a value is nested; a leaf counts as one. -/
def Value.depth : Value → Nat
  | .scalar _ => 1
  | .list items => Value.depthOfItems items + 1
  | .map entries => Value.depthOfEntries entries + 1
  | .set _ => 2

/-- The greatest depth among items. -/
def Value.depthOfItems : List Value → Nat
  | [] => 0
  | v :: rest => max v.depth (Value.depthOfItems rest)

/-- The greatest depth among entries. -/
def Value.depthOfEntries : List (Scalar × Value) → Nat
  | [] => 0
  | (_, v) :: rest => max v.depth (Value.depthOfEntries rest)

end

namespace Value

/-- Whether a value counts as present: null, false, zero and everything empty do not. -/
def truthy : Value → Bool
  | .scalar .null => false
  | .scalar (.bool b) => b
  | .scalar (.int n) => n != 0
  | .scalar (.float x) => !x.isZero
  | .scalar (.str s) => !s.isEmpty
  | .scalar (.bytes octets) => !octets.isEmpty
  | .scalar _ => true
  | .list items => !items.isEmpty
  | .map entries => !entries.isEmpty
  | .set members => !members.isEmpty

/-- The value itself when it counts as present. -/
def present? (v : Value) : Option Value :=
  if v.truthy then some v else none

/-- The entries of a mapping. -/
def entries? : Value → Option Entries
  | .map entries => some entries
  | _ => none

/-- Whether the value is the given text. -/
def isText (v : Value) (s : String) : Bool :=
  match v with
  | .str t => t == s
  | _ => false

/-- The items met when the value is walked through: the items of a list, the characters of a text,
the keys of a mapping, the members of a set. Other values cannot be walked through. -/
def walk? : Value → Option (List Value)
  | .list items => some items
  | .map entries => some (entries.map fun (k, _) => .scalar k)
  | .set members => some (members.map .scalar)
  | .scalar (.str s) => some (s.toList.map fun c => .str (String.singleton c))
  | .scalar (.bytes octets) => some (octets.map fun b => .int b.toNat)
  | .scalar _ => none

/-- What a value holds at index zero: the first item of a list, the first character of a text, the
first octet, or what a mapping has under the key zero. -/
def first? : Value → Option Value
  | .list items => items.head?
  | .map entries => Entries.find? (.int 0) entries
  | .scalar (.str s) => s.toList.head?.map fun c => .str (String.singleton c)
  | .scalar (.bytes octets) => octets.head?.map fun b => .int b.toNat
  | _ => none

/-- Whether a value contains a text: as a part of a text, an item, a key or a member. Other values
cannot be asked. -/
def contains? (v : Value) (needle : String) : Option Bool :=
  match v with
  | .scalar (.str s) => some (Text.hasInfix needle.toList s.toList)
  | .list items => some (items.any (·.isText needle))
  | .map entries => some (Entries.has entries needle)
  | .set members => some (members.any fun m => m == .str needle)
  | .scalar _ => none

end Value

end IntegrationCompiler
