import IntegrationCompiler.Number.Binary64
import IntegrationCompiler.Text.Blank
import IntegrationCompiler.Text.Digit

/-!
# Numbers and numerals

Integers of any size beside doubles, compared exactly, and the two ways of reading a numeral from
a text.

Main definitions:

* `Number` — an integer or a double, kept apart even where their values agree;
* `Number.same`, `Number.atMostZero` — comparisons by value;
* `Number.ofNumeral?` — an integer where the text is one, a double otherwise.
-/

namespace IntegrationCompiler

/-- An integer or a double. -/
inductive Number where
  | int (n : Int)
  | float (x : Binary64)
  deriving DecidableEq, Repr

namespace Number

/-- The order by exact value; a NaN has none. -/
def cmp : Number → Number → Option Ordering
  | .int m, .int n => some (compare m n)
  | .int m, .float y => (y.cmpInt m).map Ordering.swap
  | .float x, .int n => x.cmpInt n
  | .float x, .float y => x.cmp y

/-- Whether two numbers have the same value: `1` is `1.0`, and a NaN is not even itself. -/
def same (a b : Number) : Bool :=
  a.cmp b == some .eq

/-- Whether the number is zero, negative zero included. -/
def isZero : Number → Bool
  | .int n => n == 0
  | .float x => x.isZero

/-- Whether the number is not above zero. -/
def atMostZero (a : Number) : Bool :=
  match a.cmp (.int 0) with
  | some .gt => false
  | some _ => true
  | none => false

/-! ## Reading numerals -/

/-- The characters with every decimal digit replaced by its ASCII form. -/
def plainDigits (cs : List Char) : List Char :=
  cs.map fun c => match Text.digitValue? c with
    | some d => Char.ofNat (0x30 + d)
    | none => c

/-- Whether `c` is one of the ten ASCII digits. -/
def isAsciiDigit (c : Char) : Bool :=
  '0' ≤ c && c ≤ '9'

/-- The value of an ASCII digit. -/
def asciiValue (c : Char) : Nat :=
  c.toNat - 0x30

/-- Removes underscores, each of which has to stand between two digits. -/
def dropUnderscores : List Char → Option (List Char)
  | [] => some []
  | '_' :: _ => none
  | c :: '_' :: d :: rest =>
    if isAsciiDigit c && isAsciiDigit d then (dropUnderscores (d :: rest)).map (c :: ·) else none
  | [_, '_'] => none
  | c :: rest => (dropUnderscores rest).map (c :: ·)

/-- A leading sign, if any, and what follows it. -/
def splitSign : List Char → Bool × List Char
  | '-' :: rest => (true, rest)
  | '+' :: rest => (false, rest)
  | cs => (false, cs)

/-- The largest number of digits of an integer numeral. -/
def maxIntegerDigits : Nat := 4300

/-- An integer numeral without blanks: a sign, then digits of any script, which single underscores
may separate. Longer numerals than `maxIntegerDigits` are refused. -/
def integerOfNumeral? (cs : List Char) : Option Int := do
  let (negative, body) := splitSign cs
  let digits ← dropUnderscores (plainDigits body)
  if digits.isEmpty || !digits.all isAsciiDigit || maxIntegerDigits < digits.length then none
  else
    let n := Text.ofDigits (digits.map asciiValue)
    some (if negative then -(n : Int) else n)

/-- The digits at the front and the rest. -/
def spanDigits (cs : List Char) : List Char × List Char :=
  (cs.takeWhile isAsciiDigit, cs.dropWhile isAsciiDigit)

/-- An exponent part: empty, or a mark, a sign and at least one digit up to the end. -/
def exponentPart? : List Char → Option Int
  | [] => some 0
  | c :: rest =>
    if c = 'e' || c = 'E' then
      let (negative, body) := splitSign rest
      if body.isEmpty || !body.all isAsciiDigit then none
      else
        let n := Text.ofDigits (body.map asciiValue)
        some (if negative then -(n : Int) else n)
    else none

/-- A decimal numeral of ASCII digits with optional point and exponent. -/
def decimalOfDigits? (negative : Bool) (cs : List Char) : Option Binary64 := do
  let (whole, rest) := spanDigits cs
  let (fraction, rest) := match rest with
    | '.' :: tail => spanDigits tail
    | _ => ([], rest)
  if whole.isEmpty && fraction.isEmpty then none
  else
    let exponent ← exponentPart? rest
    let digits := Text.ofDigits ((whole ++ fraction).map asciiValue)
    some (.ofDecimal negative digits (exponent - fraction.length))

/-- The ASCII letters of a text in lower case. -/
def asciiLower (cs : List Char) : List Char :=
  cs.map fun c => if 'A' ≤ c && c ≤ 'Z' then Char.ofNat (c.toNat + 32) else c

/-- A floating-point numeral without blanks: decimal notation with optional point and exponent, or
a name of infinity or NaN in any case. -/
def floatOfNumeral? (cs : List Char) : Option Binary64 := do
  let (negative, body) := splitSign cs
  let name := asciiLower body
  if name = ['i', 'n', 'f'] || name = ['i', 'n', 'f', 'i', 'n', 'i', 't', 'y'] then
    some (.infinite negative)
  else if name = ['n', 'a', 'n'] then some .nan
  else
    let plain ← dropUnderscores (plainDigits body)
    decimalOfDigits? negative plain

/-- The number a text without outer blanks stands for: an integer where it is an integer numeral, a
double where it is a floating-point numeral. -/
def ofNumeral? (cs : List Char) : Option Number :=
  match integerOfNumeral? cs with
  | some n => some (.int n)
  | none => (floatOfNumeral? cs).map .float

end Number

end IntegrationCompiler
