import IntegrationCompiler.Text.Case
import IntegrationCompiler.Value.Basic
import IntegrationCompiler.Yaml.Base64
import IntegrationCompiler.Yaml.Node

/-!
# Documents

The value of a YAML text.

Main definitions:

* `scalarValue` — the value of a scalar of a given kind;
* `Node.value` — the value of a node;
* `Yaml.parse` — the value of a text.
-/

namespace IntegrationCompiler.Yaml

/-! ## Scalars -/

/-- The value of a digit in any base up to sixteen. -/
def digitOf? (c : Char) : Option Nat :=
  match hexValue? c with
  | some v => some v
  | none => Text.digitValue? c

/-- An integer in a base that is a power of two: blanks, a sign and the mark of the base may stand
before the digits. -/
def integerInBase? (base : Nat) (mark : Char) (cs : List Char) : Option Int := do
  let (negative, body) := Number.splitSign (Text.trim cs)
  let digits := match body with
    | '0' :: m :: rest => if m == mark || m == mark.toUpper then rest else body
    | _ => body
  if digits.isEmpty then none
  else
    let n ← digits.foldlM (fun acc c => do
      let v ← digitOf? c
      if v < base then some (acc * base + v) else none) 0
    some (if negative then -(n : Int) else n)

/-- A decimal integer with blanks around it. -/
def decimalInteger? (cs : List Char) : Option Int :=
  Number.integerOfNumeral? (Text.trim cs)

/-- A double with blanks around it. -/
def decimalFloat? (cs : List Char) : Option Binary64 :=
  Number.floatOfNumeral? (Text.trim cs)

/-- The integer of a spelling, underscores left out. -/
def intValue? (text : String) : Option Int := do
  let cs := text.toList.filter (· != '_')
  let (negative, body) := Number.splitSign cs
  let n ← match body with
    | [] => none
    | ['0'] => some 0
    | '0' :: 'b' :: digits => integerInBase? 2 'b' digits
    | '0' :: 'x' :: digits => integerInBase? 16 'x' digits
    | '0' :: _ => integerInBase? 8 'o' body
    | _ =>
      if body.contains ':' then do
        let groups ← (Text.splitAt ':' body).mapM decimalInteger?
        some (groups.foldl (fun acc group => acc * 60 + group) 0)
      else decimalInteger? body
  some (if negative then -n else n)

/-- The weight of a group of sixty, if it is not too large for a double. -/
def sixtyTo? (n : Nat) : Option Binary64 :=
  match Binary64.ofInt ((Nat.pow 60 n : Nat) : Int) with
  | .infinite _ => none
  | x => some x

/-- The double of groups of sixty, the least one first, added in that order. -/
def sexagesimal? : Nat → Binary64 → List Binary64 → Option Binary64
  | _, sum, [] => some sum
  | n, sum, group :: rest => do
    let weight ← sixtyTo? n
    sexagesimal? (n + 1) (sum.add (group.mul weight)) rest

/-- The double of a spelling, underscores left out. -/
def floatValue? (text : String) : Option Binary64 := do
  let cs := Text.lower (text.toList.filter (· != '_'))
  let (negative, body) := Number.splitSign cs
  let x ← if body.isEmpty then none
    else if body == ['.', 'i', 'n', 'f'] then some (Binary64.infinite false)
    else if body == ['.', 'n', 'a', 'n'] then some .nan
    else if body.contains ':' then do
      let groups ← (Text.splitAt ':' body).mapM decimalFloat?
      sexagesimal? 0 (.finite false 0 0) groups.reverse
    else decimalFloat? body
  some (if negative then x.neg else x)

/-- The truth value of a word. -/
def boolValue? (text : String) : Option Bool :=
  let word := String.ofList (Text.lower text.toList)
  if ["yes", "true", "on"].contains word then some true
  else if ["no", "false", "off"].contains word then some false
  else none

/-- Microseconds from the digits after the point, of which six count. -/
def microseconds (digits : List Char) : Nat :=
  let six := (digits ++ List.replicate 6 '0').take 6
  Text.ofDigits (six.map Number.asciiValue)

/-- The day or moment of a spelling. -/
def timestampValue? (text : String) : Option Scalar := do
  let w ← Written.ofText? (withoutFinalBreak text.toList)
  let day : Day := ⟨w.year, w.month, w.day⟩
  if !day.isValid then none
  else
    match w.time with
    | none => some (.date day)
    | some (hour, minute, second) =>
      if 23 < hour || 59 < minute || 59 < second then none
      else
        let moment (offset : Option Int) : Scalar :=
          .moment ⟨day, hour, minute, second, microseconds w.fraction, offset⟩
        match w.offset with
        | none => some (moment none)
        | some (ahead, hours, minutes) =>
          let seconds : Int := (hours * 60 + minutes) * 60
          if 86400 ≤ seconds then none else some (moment (some (if ahead then seconds else -seconds)))

/-- A value that has to exist. -/
def existing {α : Type} : Option α → Read α
  | some a => .ok a
  | none => .error .noSuchValue

/-- The value of a scalar of the given kind. -/
def scalarValue (tag : Tag) (text : String) : Read Scalar :=
  match tag with
  | .null => .ok .null
  | .bool => (existing (boolValue? text)).map .bool
  | .int => (existing (intValue? text)).map .int
  | .float => (existing (floatValue? text)).map .float
  | .binary =>
    match base64? text.toList with
    | some octets => .ok (.bytes octets)
    | none => .error .invalid
  | .timestamp => existing (timestampValue? text)
  | .str => .ok (.str text)
  | _ => .error .invalid

/-! ## Nodes -/

/-- The text of a node. -/
inductive NodeText where
  | found (text : String) (halved : Bool)
  | missing
  /-- The search for it comes back to where it was. -/
  | endless

mutual

/-- The text of a node: that of a scalar, or of the main value of a mapping. The search has come
through the given number of mappings. -/
def Node.text (passed : Nat) : Node → NodeText
  | .scalar _ text halved => .found text halved
  | .list .. => .missing
  | .map _ entries => mainText (passed + 1) entries
  | .endless out => if out < passed then .endless else .missing

/-- The text of the main value among entries. -/
def mainText (passed : Nat) : List (Node × Node) → NodeText
  | [] => .missing
  | (k, v) :: rest => if k.tag = .mainValue then v.text passed else mainText passed rest

end

/-- What is wrong with a node, and how deep it lies. That no tree stands for a node shows only when
everything else is read, and has no depth. -/
structure Fault where
  depth : Option Nat
  stop : Stop

/-- The fault of a node for whose value no tree stands. -/
def Fault.treeless : Fault :=
  ⟨none, .treeless .unknown⟩

/-- The fault that is met first: the less deep one, and of two equally deep ones the first. -/
def Fault.first (a b : Fault) : Fault :=
  match a.depth, b.depth with
  | some m, some n => if n < m then b else a
  | none, some _ => b
  | _, none => a

/-- The values of nodes, or the first fault among them. -/
abbrev Built (α : Type) := Except Fault α

/-- Two parts, both of which are looked at. -/
def Built.both {α β : Type} (a : Built α) (b : Built β) : Built (α × β) :=
  match a, b with
  | .ok a, .ok b => .ok (a, b)
  | .error f, .ok _ => .error f
  | .ok _, .error g => .error g
  | .error f, .error g => .error (f.first g)

/-- A fault at a depth. -/
def faultAt {α : Type} (depth : Nat) (stop : Stop) : Built α :=
  .error ⟨some depth, stop⟩

/-- The value of a node of a scalar kind. -/
def builtScalar (depth : Nat) (n : Node) : Built Value :=
  match n.text 0 with
  | .missing => faultAt depth .invalid
  | .endless => faultAt depth .noSuchValue
  | .found text halved =>
    match n, n.tag with
    | .map .., .timestamp => faultAt depth .noSuchValue
    | _, tag =>
      match scalarValue tag text with
      | .ok s => if halved && tag = .str then .error .treeless else .ok (.scalar s)
      | .error stop => faultAt depth stop

/-- Whether nodes of this kind are collections. -/
def Tag.isCollection : Tag → Bool
  | .list | .map | .set | .pairs => true
  | _ => false

/-- Entries stored one after the other. -/
def entriesOf (fields : List (Scalar × Value)) : Entries :=
  Entries.update [] fields

/-- The value of a collection from its items or entries. -/
def collection (tag : Tag) (fields : List (Scalar × Value)) : Value :=
  match tag with
  | .set => .set ((entriesOf fields).map (·.1))
  | _ => .map (entriesOf fields)

mutual

/-- The value of a node. What a collection holds lies one step deeper. -/
def Node.build (depth : Nat) : Node → Built Value
  | .endless _ => .error .treeless
  | .scalar tag text halved =>
    if tag.isCollection then faultAt (depth + 1) .invalid
    else builtScalar depth (.scalar tag text halved)
  | .list tag items =>
    match tag with
    | .list => (buildItems (depth + 1) items).map .list
    | .pairs => (buildPairs (depth + 1) items).map .list
    | .map | .set => faultAt (depth + 1) .invalid
    | _ => faultAt depth .invalid
  | .map tag entries =>
    match tag with
    | .map | .set =>
      (buildEntries (depth + 1) entries).map fun (brought, own) => collection tag (brought ++ own)
    | .list | .pairs => faultAt (depth + 1) .invalid
    | _ => builtScalar depth (.map tag entries)

/-- The values of the items of a list. -/
def buildItems (depth : Nat) : List Node → Built (List Value)
  | [] => .ok []
  | n :: rest => (Built.both (n.build depth) (buildItems depth rest)).map fun (v, vs) => v :: vs

/-- The pairs of a list of mappings with one entry each. -/
def buildPairs (depth : Nat) : List Node → Built (List Value)
  | [] => .ok []
  | .map _ [(k, v)] :: rest =>
    let pair := Built.both (k.build depth) (v.build depth)
    (Built.both pair (buildPairs depth rest)).map fun ((k, v), vs) => .list [k, v] :: vs
  | _ :: _ => faultAt depth .invalid

/-- The key of an entry, which has to be a scalar. -/
def buildKey (depth : Nat) : Node → Built Scalar
  | .endless _ => faultAt depth .invalid
  | .scalar tag text halved =>
    match builtScalar depth (.scalar (if tag = .mainValue then .str else tag) text halved) with
    | .ok (.scalar s) => .ok s
    | .ok _ => faultAt depth .invalid
    | .error fault => .error fault
  | .list .. => faultAt depth .invalid
  | .map tag entries =>
    if tag.isCollection then faultAt depth .invalid
    else
      match builtScalar depth (.map tag entries) with
      | .ok (.scalar s) => .ok s
      | .ok _ => faultAt depth .invalid
      | .error fault => .error fault

/-- The entries of a mapping: those brought in from other mappings, and its own. -/
def buildEntries (depth : Nat) :
    List (Node × Node) → Built (List (Scalar × Value) × List (Scalar × Value))
  | [] => .ok ([], [])
  | (k, v) :: rest =>
    let others := buildEntries depth rest
    if k.tag = .merge then
      (Built.both (bring depth v) others).map fun (more, brought, own) => (more ++ brought, own)
    else
      let entry := Built.both (buildKey depth k) (v.build depth)
      (Built.both entry others).map fun (entry, brought, own) => (brought, entry :: own)

/-- The entries that a mapping, or a list of mappings, brings in; of a list the last come first. A
mapping that brings in itself gets nothing new, and one that brings in what encloses it is inside
itself. -/
def bring (depth : Nat) : Node → Built (List (Scalar × Value))
  | .map _ entries => (buildEntries depth entries).map fun (brought, own) => brought ++ own
  | .list _ items => bringAll depth items
  | .endless 0 => .ok []
  | .endless _ => .error .treeless
  | .scalar .. => faultAt depth .invalid

/-- The entries that the mappings of a list bring in, the last mapping first. The list itself is
none, and around it is the mapping into which they are brought. -/
def bringAll (depth : Nat) : List Node → Built (List (Scalar × Value))
  | [] => .ok []
  | .map _ entries :: rest =>
    (Built.both (buildEntries depth entries) (bringAll depth rest)).map
      fun ((brought, own), others) => others ++ brought ++ own
  | .endless 1 :: rest => bringAll depth rest
  | .endless (_ + 2) :: rest =>
    (Built.both (.error .treeless : Built Unit) (bringAll depth rest)).map (·.2)
  | _ :: _ => faultAt depth .invalid

end

/-- The value of a node. -/
def Node.value (n : Node) : Read Value :=
  match n.build 0 with
  | .ok v => .ok v
  | .error fault => .error (if fault.depth.isSome then fault.stop else .treeless n.tag)

/-- The value of the only document of a text; a text without document is null. -/
def parse (text : String) : Read Value := do
  match ← Node.ofTokens? (Token.scan text) with
  | none => .ok .null
  | some n => n.value

end IntegrationCompiler.Yaml
