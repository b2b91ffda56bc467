import IntegrationCompiler.Number.Shortest
import IntegrationCompiler.Text.Quoted
import IntegrationCompiler.Value.Basic

/-!
# The text of a value

What a value looks like where a text is wanted: in messages, in addresses, in labels.

Main definitions:

* `Value.text` — a text is itself, everything else its literal form;
* `Value.text?` — the same, unless an integer in it has too many digits to be written;
* `Value.literal` — the form that shows what kind of value it is, with texts in quotation marks.
-/

namespace IntegrationCompiler

/-- Doubles without digits are called by these names. -/
def plainSpelling : Binary64.Spelling := ⟨"nan", "inf"⟩

/-- An integer in decimal. -/
def intText (n : Int) : String :=
  String.ofList (if n < 0 then '-' :: Nat.toDigits 10 n.natAbs else Nat.toDigits 10 n.natAbs)

/-- An integer in decimal; numerals have a largest number of digits. -/
def intText? (n : Int) : Option String :=
  if Number.maxIntegerDigits < (Nat.toDigits 10 n.natAbs).length then none else some (intText n)

/-- A day as year, month and day. -/
def Day.text (d : Day) : String :=
  String.ofList
    (Text.decimal 4 d.year ++ ['-'] ++ Text.decimal 2 d.month ++ ['-'] ++ Text.decimal 2 d.day)

/-- An offset from universal time, with seconds only where it has some. -/
def offsetText (seconds : Int) : List Char :=
  let n := seconds.natAbs
  let sign := if seconds < 0 then '-' else '+'
  let rest := if n % 60 = 0 then [] else ':' :: Text.decimal 2 (n % 60)
  sign :: Text.decimal 2 (n / 3600) ++ [':'] ++ Text.decimal 2 (n / 60 % 60) ++ rest

/-- A time of day, with microseconds only where it has some. -/
def Moment.timeText (m : Moment) : List Char :=
  let fraction := if m.microsecond = 0 then [] else '.' :: Text.decimal 6 m.microsecond
  Text.decimal 2 m.hour ++ [':'] ++ Text.decimal 2 m.minute ++ [':'] ++ Text.decimal 2 m.second ++
    fraction

/-- Day, separator, time and offset. -/
def Moment.textWith (separator : Char) (m : Moment) : String :=
  m.date.text ++ String.ofList
    (separator :: m.timeText ++ match m.offset with
      | none => []
      | some seconds => offsetText seconds)

/-- Texts between commas. -/
def commaSeparated (pieces : List String) : String :=
  ", ".intercalate pieces

/-- The literal form of an offset. -/
def offsetLiteral (seconds : Int) : String :=
  if seconds = 0 then "datetime.timezone.utc"
  else
    let days := seconds.fdiv 86400
    let rest := seconds.fmod 86400
    let parts := (if days = 0 then [] else ["days=" ++ intText days]) ++
      (if rest = 0 then [] else ["seconds=" ++ intText rest])
    "datetime.timezone(datetime.timedelta(" ++ commaSeparated parts ++ "))"

/-- The literal form of a moment: seconds and microseconds only where they are needed. -/
def Moment.literal (m : Moment) : String :=
  let clock := [m.date.year, m.date.month, m.date.day, m.hour, m.minute] ++
    (if m.microsecond = 0 then (if m.second = 0 then [] else [m.second])
      else [m.second, m.microsecond])
  let offset := match m.offset with
    | none => []
    | some seconds => ["tzinfo=" ++ offsetLiteral seconds]
  "datetime.datetime(" ++ commaSeparated (clock.map (fun (n : Nat) => intText n) ++ offset) ++ ")"

/-- One octet in the literal form of bytes between marks `mark`. -/
def octetLiteral (mark : Char) (b : UInt8) : List Char :=
  let c := Char.ofNat b.toNat
  if c = mark || c = '\\' then ['\\', c]
  else if c = '\n' then ['\\', 'n']
  else if c = '\r' then ['\\', 'r']
  else if c = '\t' then ['\\', 't']
  else if 0x20 ≤ b.toNat && b.toNat < 0x7F then [c]
  else '\\' :: 'x' :: Text.hex 2 b.toNat

/-- The literal form of bytes. -/
def bytesLiteral (octets : List UInt8) : String :=
  let cs := octets.map fun b => Char.ofNat b.toNat
  let mark := if cs.contains '\'' && !cs.contains '"' then '"' else '\''
  String.ofList ('b' :: mark :: octets.flatMap (octetLiteral mark) ++ [mark])

/-- The literal form of a scalar. -/
def Scalar.literal : Scalar → String
  | .null => "None"
  | .bool b => if b then "True" else "False"
  | .int n => intText n
  | .float x => x.render plainSpelling
  | .str s => String.ofList (Text.quote s.toList)
  | .date d =>
    "datetime.date(" ++ commaSeparated ([d.year, d.month, d.day].map fun (n : Nat) => intText n) ++ ")"
  | .moment m => m.literal
  | .bytes octets => bytesLiteral octets

mutual

/-- The literal form of a value. -/
def Value.literal : Value → String
  | .scalar s => s.literal
  | .list items => "[" ++ commaSeparated (Value.literals items) ++ "]"
  | .map entries => "\x7b" ++ commaSeparated (Value.entryLiterals entries) ++ "\x7d"
  | .set [] => "set()"
  | .set members => "\x7b" ++ commaSeparated (members.map Scalar.literal) ++ "\x7d"

/-- The literal forms of the items of a list. -/
def Value.literals : List Value → List String
  | [] => []
  | v :: rest => v.literal :: Value.literals rest

/-- The literal forms of the entries of a mapping. -/
def Value.entryLiterals : List (Scalar × Value) → List String
  | [] => []
  | (k, v) :: rest => (k.literal ++ ": " ++ v.literal) :: Value.entryLiterals rest

end

/-- The text of a scalar: texts and calendar values as they are read, others in literal form. -/
def Scalar.text : Scalar → String
  | .str s => s
  | .date d => d.text
  | .moment m => m.textWith ' '
  | other => other.literal

/-- The text of a value, in full whatever integers are in it. Inputs and answers are JSON, which has
no integers that could not be written; other values may have no text, as `Value.text?` says. -/
def Value.text : Value → String
  | .scalar s => s.text
  | other => other.literal

/-! ## Values that can be written -/

/-- Whether a scalar can be written: an integer may have too many digits. -/
def Scalar.hasText : Scalar → Bool
  | .int n => (intText? n).isSome
  | _ => true

mutual

/-- Whether a value can be written: no integer in it has too many digits. -/
def Value.hasText : Value → Bool
  | .scalar s => s.hasText
  | .list items => Value.haveTexts items
  | .map entries => Value.entriesHaveTexts entries
  | .set members => members.all Scalar.hasText

/-- Whether the items of a list can be written. -/
def Value.haveTexts : List Value → Bool
  | [] => true
  | v :: rest => v.hasText && Value.haveTexts rest

/-- Whether the entries of a mapping can be written. -/
def Value.entriesHaveTexts : List (Scalar × Value) → Bool
  | [] => true
  | (k, v) :: rest => k.hasText && v.hasText && Value.entriesHaveTexts rest

end

/-- The text of a scalar that can be written. -/
def Scalar.text? (s : Scalar) : Option String :=
  if s.hasText then some s.text else none

/-- The text of a value that can be written. -/
def Value.text? (v : Value) : Option String :=
  if v.hasText then some v.text else none

end IntegrationCompiler
