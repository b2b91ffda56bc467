import IntegrationCompiler.Yaml.Tag

/-!
# A place in a YAML text

YAML gives meaning to lines and columns, so a place carries them. All carriage returns of a text
have become line feeds before. Main definitions: `Cursor` and its moves, and the character classes
of the format.
-/

namespace IntegrationCompiler.Yaml

/-- Why no value comes of a text. -/
inductive Stop where
  /-- The text is not YAML, or not a single document of known tags. -/
  | invalid
  /-- A scalar is spelled like a value that does not exist, such as a thirteenth month. -/
  | noSuchValue
  /-- The text is a node of the given kind, but no tree of values stands for it: a node is inside
  itself, or half of a surrogate pair stands in a text. -/
  | treeless (root : Tag)
  deriving DecidableEq, Repr

/-- A reader step. -/
abbrev Read (α : Type) := Except Stop α

/-- Whether `c` ends a line. -/
def isBreak (c : Char) : Bool :=
  c == '\n' || c == '\x85' || c == '\u2028' || c == '\u2029'

/-- Whether nothing, a blank or a line break stands here. -/
def isGap : Option Char → Bool
  | none => true
  | some c => c == ' ' || c == '\t' || isBreak c

/-- Whether nothing, a space or a line break stands here. -/
def isGapWithoutTab : Option Char → Bool
  | none => true
  | some c => c == ' ' || isBreak c

/-- Whether nothing or a line break stands here. -/
def isLineEnd : Option Char → Bool
  | none => true
  | some c => isBreak c

/-- Whether `c` may stand in the name of an anchor, a handle or a directive. -/
def isNameChar (c : Char) : Bool :=
  ('0' ≤ c && c ≤ '9') || ('A' ≤ c && c ≤ 'Z') || ('a' ≤ c && c ≤ 'z') || c == '-' || c == '_'

/-- Whether `c` may stand in a text at all. -/
def isAllowed (c : Char) : Bool :=
  let n := c.toNat
  n == 0x9 || n == 0xA || n == 0xD || (0x20 ≤ n && n ≤ 0x7E) || n == 0x85 ||
    (0xA0 ≤ n && n ≤ 0xFFFD) || 0x10000 ≤ n

/-- A place: the characters that follow, how many precede, and line and column from zero. -/
structure Cursor where
  rest : List Char
  index : Nat
  line : Nat
  column : Nat

namespace Cursor

/-- The beginning of a text. -/
def start (text : List Char) : Cursor :=
  ⟨text, 0, 0, 0⟩

/-- The character here. -/
def peek (c : Cursor) : Option Char :=
  c.rest.head?

/-- The character `n` places further on. -/
def peekAt (c : Cursor) (n : Nat) : Option Char :=
  c.rest[n]?

/-- Whether the character here is `ch`. -/
def isAt (c : Cursor) (ch : Char) : Bool :=
  c.peek == some ch

/-- One character further. A byte order mark takes no column. -/
def next (c : Cursor) : Cursor :=
  match c.rest with
  | [] => c
  | ch :: rest =>
    if isBreak ch then ⟨rest, c.index + 1, c.line + 1, 0⟩
    else ⟨rest, c.index + 1, c.line, if ch == '\ufeff' then c.column else c.column + 1⟩

/-- Some characters further. -/
def advance (c : Cursor) : Nat → Cursor
  | 0 => c
  | n + 1 => c.next.advance n

/-- The characters here that satisfy `p`, and the place after them. -/
def span (c : Cursor) (p : Char → Bool) : List Char × Cursor :=
  let taken := c.rest.takeWhile p
  (taken, c.advance taken.length)

/-- The place after the characters that satisfy `p`. -/
def skip (c : Cursor) (p : Char → Bool) : Cursor :=
  (c.span p).2

/-- The place after the spaces here. -/
def skipSpaces (c : Cursor) : Cursor :=
  c.skip (· == ' ')

/-- The line break here, with the place after it. All breaks but the two separators are one. -/
def lineBreak? (c : Cursor) : Option (Char × Cursor) :=
  match c.rest with
  | ch :: _ =>
    if ch == '\u2028' || ch == '\u2029' then some (ch, c.next)
    else if isBreak ch then some ('\n', c.next)
    else none
  | [] => none

/-- The place after a line break, if there is one here. -/
def skipBreak (c : Cursor) : Cursor :=
  match c.lineBreak? with
  | some (_, after) => after
  | none => c

/-- The place after the rest of a line that holds nothing but spaces and perhaps a comment. -/
def ignoreLine (c : Cursor) : Read Cursor :=
  let c := c.skipSpaces
  let c := if c.isAt '#' then c.skip fun ch => !isBreak ch else c
  if isLineEnd c.peek then .ok c.skipBreak else .error .invalid

/-- Whether a document marker of three equal characters stands here, apart from the column. -/
def hasMarker (c : Cursor) (ch : Char) : Bool :=
  c.rest.take 3 == [ch, ch, ch] && isGap (c.peekAt 3)

/-- Whether a document ends or begins here, apart from the column. -/
def hasSeparator (c : Cursor) : Bool :=
  c.hasMarker '-' || c.hasMarker '.'

end Cursor

end IntegrationCompiler.Yaml
