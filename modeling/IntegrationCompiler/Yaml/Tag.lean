import IntegrationCompiler.Number.Basic

/-!
# Kinds of nodes

What a node stands for: named by a tag, or read off the spelling of a plain scalar.

Main definitions:

* `Tag` — the kinds;
* `Tag.ofName` — the kind that a tag names;
* `Tag.ofSpelling` — the kind of a plain scalar.
-/

namespace IntegrationCompiler.Yaml

/-- The kind of a node. -/
inductive Tag where
  | null
  | bool
  | int
  | float
  | binary
  | timestamp
  | str
  | list
  | map
  | set
  | pairs
  /-- The key `<<`, which brings in the entries of other mappings. -/
  | merge
  /-- The key `=`, which holds the main value of a mapping. -/
  | mainValue
  | unknown
  deriving DecidableEq, Repr

/-- What the names of the standard kinds begin with. -/
def standardTags : String := "tag:yaml.org,2002:"

/-- The standard kinds. -/
def Tag.names : List (String × Tag) := [
  ("null", .null), ("bool", .bool), ("int", .int), ("float", .float), ("binary", .binary),
  ("timestamp", .timestamp), ("str", .str), ("seq", .list), ("map", .map), ("set", .set),
  ("omap", .pairs), ("pairs", .pairs), ("merge", .merge), ("value", .mainValue)]

/-- The kind that a tag names. -/
def Tag.ofName (name : String) : Tag :=
  match Tag.names.find? fun (short, _) => name == standardTags ++ short with
  | some (_, t) => t
  | none => .unknown

/-! ## Spellings -/

/-- Whether a character may stand in a number after its first digit. -/
def isDigitOrLine (c : Char) : Bool :=
  Number.isAsciiDigit c || c == '_'

/-- The text after a sign, if there is one. -/
def dropSign (cs : List Char) : List Char :=
  (Number.splitSign cs).2

/-- Whether a text is an exponent with its sign, or empty. -/
def isExponent : List Char → Bool
  | [] => true
  | mark :: sign :: digits =>
    (mark == 'e' || mark == 'E') && (sign == '+' || sign == '-') && !digits.isEmpty &&
      digits.all Number.isAsciiDigit
  | _ => false

/-- Whether a text is one or two digits below sixty. -/
def isSixtieth : List Char → Bool
  | [a] => Number.isAsciiDigit a
  | [a, b] => '0' ≤ a && a ≤ '5' && Number.isAsciiDigit b
  | _ => false

/-- Whether a text is a number in groups of sixty: a first group, and at least one more after a
colon. -/
def isSexagesimal (cs : List Char) : Bool :=
  match Text.splitAt ':' cs with
  | (d :: digits) :: rest@(_ :: _) =>
    Number.isAsciiDigit d && digits.all isDigitOrLine && rest.all isSixtieth
  | _ => false

/-- Whether a text is spelled like a double. -/
def isFloatSpelling (cs : List Char) : Bool :=
  let body := dropSign cs
  let whole := body.takeWhile (· != '.')
  match body.drop whole.length with
  | [] => false
  | _ :: rest =>
    let fraction := rest.takeWhile isDigitOrLine
    let tail := rest.drop fraction.length
    let word := String.ofList rest
    match whole with
    | [] =>
      (body == cs && !(fraction.takeWhile Number.isAsciiDigit).isEmpty && isExponent tail) ||
        ["inf", "Inf", "INF"].contains word ||
        (body == cs && ["nan", "NaN", "NAN"].contains word)
    | d :: digits =>
      (Number.isAsciiDigit d && digits.all isDigitOrLine && isExponent tail) ||
        (isSexagesimal whole && tail.isEmpty)

/-- Whether a text is spelled like an integer, in base two, eight, ten, sixteen or sixty. -/
def isIntSpelling (cs : List Char) : Bool :=
  match dropSign cs with
  | ['0'] => true
  | '0' :: 'b' :: digits => !digits.isEmpty && digits.all fun c => c == '0' || c == '1' || c == '_'
  | '0' :: 'x' :: digits =>
    !digits.isEmpty && digits.all fun c =>
      isDigitOrLine c || ('a' ≤ c && c ≤ 'f') || ('A' ≤ c && c ≤ 'F')
  | '0' :: digits => digits.all fun c => ('0' ≤ c && c ≤ '7') || c == '_'
  | d :: digits =>
    Number.isAsciiDigit d && (digits.all isDigitOrLine || isSexagesimal (d :: digits))
  | [] => false

/-- Digits at the front, at least `least` and at most `most`, and the rest. -/
def digitsBetween? (least most : Nat) (cs : List Char) : Option (Nat × List Char) :=
  let digits := (cs.take most).takeWhile Number.isAsciiDigit
  if digits.length < least then none
  else some (Text.ofDigits (digits.map Number.asciiValue), cs.drop digits.length)

/-- The text after the character `c`. -/
def after? (c : Char) : List Char → Option (List Char)
  | d :: rest => if c == d then some rest else none
  | [] => none

/-- The parts of a written day or moment. -/
structure Written where
  year : Nat
  month : Nat
  day : Nat
  /-- Hour, minute and second. -/
  time : Option (Nat × Nat × Nat)
  fraction : List Char
  /-- Whether the offset is ahead, its hours and its minutes. -/
  offset : Option (Bool × Nat × Nat)
  deriving Repr

/-- Reads the offset that ends a moment. -/
def writtenOffset? (cs : List Char) : Option (Option (Bool × Nat × Nat)) :=
  match cs.dropWhile fun c => c == ' ' || c == '\t' with
  | [] => if cs.isEmpty then some none else none
  | ['Z'] => some (some (true, 0, 0))
  | sign :: rest => do
    if sign != '+' && sign != '-' then none
    else
      let (hours, rest) ← digitsBetween? 1 2 rest
      match rest with
      | [] => some (some (sign == '+', hours, 0))
      | _ =>
        let (minutes, rest) ← digitsBetween? 2 2 (← after? ':' rest)
        if rest.isEmpty then some (some (sign == '+', hours, minutes)) else none

/-- Reads a day, or a day and a time. -/
def Written.ofText? (cs : List Char) : Option Written := do
  let (year, rest) ← digitsBetween? 4 4 cs
  let (month, rest) ← digitsBetween? 1 2 (← after? '-' rest)
  let (day, rest) ← digitsBetween? 1 2 (← after? '-' rest)
  match rest with
  | [] => some ⟨year, month, day, none, [], none⟩
  | c :: tail =>
    let isBlank (c : Char) : Bool := c == ' ' || c == '\t'
    if !(c == 'T' || c == 't' || isBlank c) then none
    else
      let start := if isBlank c then tail.dropWhile isBlank else tail
      let (hour, rest) ← digitsBetween? 1 2 start
      let (minute, rest) ← digitsBetween? 2 2 (← after? ':' rest)
      let (second, rest) ← digitsBetween? 2 2 (← after? ':' rest)
      let (fraction, rest) := match rest with
        | '.' :: tail => tail.span Number.isAsciiDigit
        | _ => ([], rest)
      let offset ← writtenOffset? rest
      some ⟨year, month, day, some (hour, minute, second), fraction, offset⟩

/-- Whether a text is spelled like a day or a moment; a day alone needs all its digits. -/
def isTimestampSpelling (cs : List Char) : Bool :=
  match Written.ofText? cs with
  | some w => w.time.isSome || cs.length == 10
  | none => false

/-- The words for truth values and for nothing. -/
def wordSpellings : List (String × Tag) := [
  ("yes", .bool), ("Yes", .bool), ("YES", .bool), ("no", .bool), ("No", .bool), ("NO", .bool),
  ("true", .bool), ("True", .bool), ("TRUE", .bool), ("false", .bool), ("False", .bool),
  ("FALSE", .bool), ("on", .bool), ("On", .bool), ("ON", .bool), ("off", .bool), ("Off", .bool),
  ("OFF", .bool), ("<<", .merge), ("~", .null), ("null", .null), ("Null", .null),
  ("NULL", .null), ("", .null), ("=", .mainValue), ("!", .unknown), ("&", .unknown),
  ("*", .unknown)]

/-- The text without the line break that ends it; a line break alone stays. -/
def withoutFinalBreak (cs : List Char) : List Char :=
  if 1 < cs.length && cs.getLast? == some '\n' then cs.dropLast else cs

/-- The kind that the spelling of a plain scalar shows. -/
def Tag.ofSpelling (text : String) : Tag :=
  let cs := withoutFinalBreak text.toList
  match wordSpellings.lookup (String.ofList cs) with
  | some t => t
  | none =>
    if isFloatSpelling cs then .float
    else if isIntSpelling cs then .int
    else if isTimestampSpelling cs then .timestamp
    else .str

end IntegrationCompiler.Yaml
