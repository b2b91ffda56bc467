import IntegrationCompiler.Value.Basic

/-!
# Pointers

A pointer names a place in a document by the keys and indexes that lead to it.

Main definitions:

* `escape`, `unescape` — a key as a segment of a pointer, in which a slash cannot stand;
* `Pointer.segments?`, `Pointer.toKey` — the segments of a reference, and the reference to a key;
* `Pointer.find` — what stands at a place.
-/

namespace IntegrationCompiler.Pointer

/-- One character of a key in a segment. -/
def escapeChar : Char → List Char
  | '~' => ['~', '0']
  | '/' => ['~', '1']
  | c => [c]

/-- A key as a segment. -/
def escape (key : List Char) : List Char :=
  key.flatMap escapeChar

/-- The text with every occurrence of the two characters replaced by one. -/
def replacePair (a b one : Char) : List Char → List Char
  | x :: y :: rest =>
    if x = a && y = b then one :: replacePair a b one rest else x :: replacePair a b one (y :: rest)
  | cs => cs

/-- The key that a segment stands for. -/
def unescape (segment : List Char) : List Char :=
  replacePair '~' '0' '~' (replacePair '~' '1' '/' segment)

/-- The keys that lead to the place that a reference names; only references into the same document
have any. -/
def segments? (ref : String) : Option (List String) :=
  match ref.toList with
  | '#' :: '/' :: rest => some ((Text.splitAt '/' rest).map fun s => String.ofList (unescape s))
  | _ => none

/-- The reference to the place at the end of some keys. -/
def toKeys (keys : List String) : String :=
  "#/" ++ "/".intercalate (keys.map fun k => String.ofList (escape k.toList))

/-- What stands at a place. -/
inductive Target where
  | value (v : Value)
  /-- There is no such key or index. -/
  | missing (segment : String)
  /-- The index consists of characters called digits, but is no number. -/
  | noIndex
  deriving Repr

/-- What a value holds under a key or an index. -/
def child (v : Value) (segment : String) : Target :=
  match v with
  | .map entries =>
    match Entries.get? entries segment with
    | some w => .value w
    | none => .missing segment
  | .list items =>
    let cs := segment.toList
    if cs.isEmpty || !cs.all Text.isDigitLike then .missing segment
    else
      match Number.integerOfNumeral? cs with
      | none => .noIndex
      | some i =>
        match items[i.toNat]? with
        | some w => .value w
        | none => .missing segment
  | _ => .missing segment

/-- What stands at the end of some keys. -/
def find (v : Value) : List String → Target
  | [] => .value v
  | segment :: rest =>
    match child v segment with
    | .value w => find w rest
    | other => other

end IntegrationCompiler.Pointer
