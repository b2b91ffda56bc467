import IntegrationCompiler.Text.Utf8
import IntegrationCompiler.Value.Basic

/-!
# Reading JSON

A reader that says where and why a text is not JSON. Numbers with a point or an exponent are
doubles, others integers of any size up to a fixed number of digits; `NaN`, `Infinity` and
`-Infinity` are numbers; a repeated name keeps its first place and its last value.

Main definitions:

* `Json.Fault`, `Json.ReadError` — why, and at which character;
* `Json.parse` — the value of a text;
* `Json.holdsHalf` — whether half of a surrogate pair stands alone in it.
-/

namespace IntegrationCompiler.Json

/-- Why a text is not JSON. -/
inductive Fault where
  | byteOrderMark
  | extraData
  | expectingValue
  | expectingName
  | expectingColon
  | expectingComma
  | unterminatedString
  | invalidControl
  | invalidEscape
  | invalidUnicodeEscape
  deriving DecidableEq, Repr

/-- A fault at a character, or an integer with too many digits. -/
inductive ReadError where
  | at (fault : Fault) (position line column : Nat)
  | integerTooLong (digits : Nat)
  deriving DecidableEq, Repr

/-- The name of a fault. -/
def Fault.text : Fault → String
  | .byteOrderMark => "Unexpected UTF-8 BOM (decode using utf-8-sig)"
  | .extraData => "Extra data"
  | .expectingValue => "Expecting value"
  | .expectingName => "Expecting property name enclosed in double quotes"
  | .expectingColon => "Expecting ':' delimiter"
  | .expectingComma => "Expecting ',' delimiter"
  | .unterminatedString => "Unterminated string starting at"
  | .invalidControl => "Invalid control character at"
  | .invalidEscape => "Invalid \\escape"
  | .invalidUnicodeEscape => "Invalid \\uXXXX escape"

/-- The message of an error: the fault with line, column and position, lines counting from one. -/
def ReadError.message : ReadError → String
  | .at fault position line column =>
    fault.text ++ ": line " ++ toString line ++ " column " ++ toString column ++
      " (char " ++ toString position ++ ")"
  | .integerTooLong digits =>
    "Exceeds the limit (4300 digits) for integer string conversion: value has " ++
      toString digits ++ " digits; use sys.set_int_max_str_digits() to increase the limit"

/-- What stops the reader: a fault at a position, or an integer with too many digits. -/
inductive Stop where
  | fault (kind : Fault) (position : Nat)
  | integerTooLong (digits : Nat)
  deriving Repr

/-- A place in the text: how many characters precede it, and those that follow. -/
structure Cursor where
  position : Nat
  rest : List Char
  deriving Repr

namespace Cursor

/-- The place `n` characters further on. -/
def advance (c : Cursor) (n : Nat) : Cursor :=
  ⟨c.position + n, c.rest.drop n⟩

/-- The place after any white space. -/
def skipBlanks (c : Cursor) : Cursor :=
  let isSpace (ch : Char) : Bool := ch == ' ' || ch == '\t' || ch == '\n' || ch == '\r'
  ⟨c.position + (c.rest.takeWhile isSpace).length, c.rest.dropWhile isSpace⟩

end Cursor

/-- A reader step. -/
abbrev Read (α : Type) := Except Stop α

/-! ## Strings -/

/-- The number written by four hexadecimal digits at the front of a text. -/
def hex4? : List Char → Option Nat
  | a :: b :: c :: d :: _ => do
    let value (ch : Char) : Option Nat :=
      if '0' ≤ ch && ch ≤ '9' then some (ch.toNat - 0x30)
      else if 'a' ≤ ch && ch ≤ 'f' then some (ch.toNat - 0x61 + 10)
      else if 'A' ≤ ch && ch ≤ 'F' then some (ch.toNat - 0x41 + 10)
      else none
    some ((((← value a) * 16 + (← value b)) * 16 + (← value c)) * 16 + (← value d))
  | _ => none

/-- The character an escape letter stands for. -/
def simpleEscape? : Char → Option Char
  | '"' => some '"'
  | '\\' => some '\\'
  | '/' => some '/'
  | 'b' => some '\x08'
  | 'f' => some '\x0c'
  | 'n' => some '\n'
  | 'r' => some '\r'
  | 't' => some '\t'
  | _ => none

/-- A character code read from an escape: the code, how many characters it took, and the text after
it. A high surrogate joins a low one written right after it. The position is that of the letter
`u`; some character has to follow the digits. -/
def unicodeEscape (position : Nat) (rest : List Char) : Read (Nat × Nat × List Char) :=
  let fail (place : Nat) : Read (Nat × Nat × List Char) :=
    .error (.fault .invalidUnicodeEscape place)
  if (rest.drop 4).isEmpty then fail position
  else
    match hex4? rest with
    | none => fail position
    | some high =>
      let after := rest.drop 4
      -- Some character has to follow the digits of the second half too.
      if 0xD800 ≤ high && high < 0xDC00 && !(after.drop 6).isEmpty && after.take 2 == ['\\', 'u'] then
        match hex4? (after.drop 2) with
        | none => fail (position + 6)
        | some low =>
          if 0xDC00 ≤ low && low < 0xE000 then
            .ok (0x10000 + (high - 0xD800) * 0x400 + (low - 0xDC00), 10, after.drop 6)
          else .ok (high, 4, after)
      else .ok (high, 4, after)

/-- The characters of a string up to its closing mark. `start` is the position of the opening mark,
`acc` the characters read so far, reversed. -/
def stringBody (start : Nat) : Nat → List Char → Cursor → Read (String × Cursor)
  | 0, _, _ => .error (.fault .unterminatedString start)
  | fuel + 1, acc, c =>
    match c.rest with
    | [] => .error (.fault .unterminatedString start)
    | '"' :: rest => .ok (String.ofList acc.reverse, ⟨c.position + 1, rest⟩)
    | '\\' :: [] => .error (.fault .unterminatedString start)
    | '\\' :: 'u' :: rest =>
      match unicodeEscape (c.position + 1) rest with
      | .error stop => .error stop
      | .ok (code, used, after) =>
        stringBody start fuel (Text.charOfCode code :: acc) ⟨c.position + 2 + used, after⟩
    | '\\' :: letter :: rest =>
      match simpleEscape? letter with
      | some ch => stringBody start fuel (ch :: acc) ⟨c.position + 2, rest⟩
      | none => .error (.fault .invalidEscape c.position)
    | ch :: rest =>
      if ch.toNat < 0x20 then .error (.fault .invalidControl c.position)
      else stringBody start fuel (ch :: acc) ⟨c.position + 1, rest⟩

/-- A string whose opening mark is at the cursor. -/
def string (c : Cursor) : Read (String × Cursor) :=
  stringBody c.position (c.rest.length + 1) [] (c.advance 1)

/-! ## Numbers -/

/-- The digits of the integer part: a single zero, or digits that start with another. -/
def wholePart : List Char → List Char
  | '0' :: _ => ['0']
  | cs => cs.takeWhile Number.isAsciiDigit

/-- The fraction at the front of a text: a point and at least one digit. -/
def fractionPart : List Char → List Char
  | '.' :: rest =>
    let digits := rest.takeWhile Number.isAsciiDigit
    if digits.isEmpty then [] else '.' :: digits
  | _ => []

/-- The exponent at the front of a text: a mark, a sign if any, and at least one digit. -/
def exponentPart : List Char → List Char
  | mark :: rest =>
    if mark = 'e' || mark = 'E' then
      let (sign, body) := match rest with
        | '+' :: tail => (['+'], tail)
        | '-' :: tail => (['-'], tail)
        | _ => ([], rest)
      let digits := body.takeWhile Number.isAsciiDigit
      if digits.isEmpty then [] else mark :: sign ++ digits
    else []
  | [] => []

/-- A number at the cursor. -/
def number (c : Cursor) : Read (Value × Cursor) :=
  let (sign, body) := match c.rest with
    | '-' :: rest => (['-'], rest)
    | rest => ([], rest)
  let whole := wholePart body
  if whole.isEmpty then .error (.fault .expectingValue c.position)
  else
    let fraction := fractionPart (body.drop whole.length)
    let exponent := exponentPart (body.drop (whole.length + fraction.length))
    let after := c.advance (sign.length + whole.length + fraction.length + exponent.length)
    let negative := !sign.isEmpty
    if fraction.isEmpty && exponent.isEmpty then
      if Number.maxIntegerDigits < whole.length then .error (.integerTooLong whole.length)
      else
        let n := Text.ofDigits (whole.map Number.asciiValue)
        .ok (.int (if negative then -(n : Int) else n), after)
    else
      match Number.decimalOfDigits? negative (whole ++ fraction ++ exponent) with
      | some x => .ok (.float x, after)
      | none => .error (.fault .expectingValue c.position)

/-! ## Values -/

/-- The words that are values, with what they mean. -/
def keywords : List (List Char × Value) := [
  (['n', 'u', 'l', 'l'], .null),
  (['t', 'r', 'u', 'e'], .bool true),
  (['f', 'a', 'l', 's', 'e'], .bool false),
  (['N', 'a', 'N'], .float .nan),
  (['I', 'n', 'f', 'i', 'n', 'i', 't', 'y'], .float (.infinite false)),
  (['-', 'I', 'n', 'f', 'i', 'n', 'i', 't', 'y'], .float (.infinite true))]

/-- A word or a number at the cursor. -/
def atom (c : Cursor) : Read (Value × Cursor) :=
  match keywords.find? fun (word, _) => word.isPrefixOf c.rest with
  | some (word, v) => .ok (v, c.advance word.length)
  | none => number c

mutual

/-- A value at the cursor. -/
def value : Nat → Cursor → Read (Value × Cursor)
  | 0, c => .error (.fault .expectingValue c.position)
  | fuel + 1, c =>
    match c.rest with
    | [] => .error (.fault .expectingValue c.position)
    | '"' :: _ => do
      let (s, after) ← string c
      .ok (.str s, after)
    | '[' :: _ =>
      let inner := (c.advance 1).skipBlanks
      match inner.rest with
      | ']' :: _ => .ok (.list [], inner.advance 1)
      | _ => do
        let (items, after) ← items fuel inner
        .ok (.list items, after)
    | '{' :: _ =>
      let inner := (c.advance 1).skipBlanks
      match inner.rest with
      | '}' :: _ => .ok (.map [], inner.advance 1)
      | _ => do
        let (entries, after) ← entries fuel [] inner
        .ok (.map entries, after)
    | _ => atom c

/-- The items of a list from the cursor to its closing bracket. -/
def items : Nat → Cursor → Read (List Value × Cursor)
  | 0, c => .error (.fault .expectingValue c.position)
  | fuel + 1, c => do
    let (v, after) ← value fuel c
    let next := after.skipBlanks
    match next.rest with
    | ']' :: _ => .ok ([v], next.advance 1)
    | ',' :: _ => do
      let (vs, last) ← items fuel (next.advance 1).skipBlanks
      .ok (v :: vs, last)
    | _ => .error (.fault .expectingComma next.position)

/-- The entries of an object from the cursor to its closing brace, added to `acc`. -/
def entries : Nat → Entries → Cursor → Read (Entries × Cursor)
  | 0, _, c => .error (.fault .expectingValue c.position)
  | fuel + 1, acc, c =>
    match c.rest with
    | '"' :: _ => do
      let (name, after) ← string c
      let colon := after.skipBlanks
      match colon.rest with
      | ':' :: _ => do
        let (v, after) ← value fuel (colon.advance 1).skipBlanks
        let acc := Entries.set acc name v
        let next := after.skipBlanks
        match next.rest with
        | '}' :: _ => .ok (acc, next.advance 1)
        | ',' :: _ => entries fuel acc (next.advance 1).skipBlanks
        | _ => .error (.fault .expectingComma next.position)
      | _ => .error (.fault .expectingColon colon.position)
    | _ => .error (.fault .expectingName c.position)

end

/-! ## Documents -/

/-- The error for a stop: a position becomes line and column, both counting from one. -/
def Stop.toError (text : List Char) : Stop → ReadError
  | .fault kind position =>
    let before := text.take position
    let column := (before.reverse.takeWhile (· != '\n')).length + 1
    .at kind position (before.count '\n' + 1) column
  | .integerTooLong digits => .integerTooLong digits

/-- The one value that a text holds, blanks around it aside. -/
def document (text : List Char) : Read Value :=
  match text with
  | '\ufeff' :: _ => .error (.fault .byteOrderMark 0)
  | _ => do
    let start := (⟨0, text⟩ : Cursor).skipBlanks
    let (v, after) ← value (2 * text.length + 1) start
    let last := after.skipBlanks
    if last.rest.isEmpty then .ok v else .error (.fault .extraData last.position)

/-- The value of a JSON text. -/
def parse (text : String) : Except ReadError Value :=
  (document text.toList).mapError (Stop.toError text.toList)

/-! ## Halves of surrogate pairs

An escape can be for half of a surrogate pair, and when the other half is not next to it, no
character stands for it. -/

/-- Whether a half is left alone in the strings of a text; `high` tells that the first half of a pair
stands right before. -/
def leavesHalf (high : Bool) : List Char → Bool
  | '\\' :: 'u' :: a :: b :: c :: d :: rest =>
    match hex4? [a, b, c, d] with
    | some code =>
      if 0xD800 ≤ code && code < 0xDC00 then high || leavesHalf true rest
      else if 0xDC00 ≤ code && code < 0xE000 then !high || leavesHalf false rest
      else high || leavesHalf false rest
    | none => high || leavesHalf false (a :: b :: c :: d :: rest)
  | '\\' :: _ :: rest => high || leavesHalf false rest
  | _ :: rest => high || leavesHalf false rest
  | [] => high

/-- Whether half of a surrogate pair stands alone in a string of a text. Lines end only between the
strings, so their ends tell nothing. -/
def holdsHalf (text : List Char) : Bool :=
  leavesHalf false (text.filter fun c => c != '\n' && c != '\r')

end IntegrationCompiler.Json
