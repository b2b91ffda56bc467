import IntegrationCompiler.Text.Utf8
import IntegrationCompiler.Yaml.Cursor

/-!
# Written scalars

The texts of scalars in their five written forms: plain, in single and in double quotation marks,
literal and folded blocks. Each reader starts at the first character of the form and returns the
text with the place after it.

Main definitions: `quoted`, `block`, `plain`.
-/

namespace IntegrationCompiler.Yaml

/-! ## Quoted -/

/-- The characters that single letters stand for after a backslash. -/
def escapes : List (Char × Char) := [
  ('0', '\x00'), ('a', '\x07'), ('b', '\x08'), ('t', '\t'), ('\t', '\t'), ('n', '\n'),
  ('v', '\x0b'), ('f', '\x0c'), ('r', '\r'), ('e', '\x1b'), (' ', ' '), ('"', '"'),
  ('\\', '\\'), ('/', '/'), ('N', '\x85'), ('_', '\xa0'), ('L', '\u2028'), ('P', '\u2029')]

/-- How many hexadecimal digits follow a letter that announces a code point. -/
def codeWidth? : Char → Option Nat
  | 'x' => some 2
  | 'u' => some 4
  | 'U' => some 8
  | _ => none

/-- The value of a hexadecimal digit. -/
def hexValue? (c : Char) : Option Nat :=
  if '0' ≤ c && c ≤ '9' then some (c.toNat - 0x30)
  else if 'a' ≤ c && c ≤ 'f' then some (c.toNat - 0x61 + 10)
  else if 'A' ≤ c && c ≤ 'F' then some (c.toNat - 0x41 + 10)
  else none

/-- The number written by hexadecimal digits. -/
def hexNumber? (cs : List Char) : Option Nat :=
  cs.foldlM (fun acc c => (hexValue? c).map (acc * 16 + ·)) 0

/-- The empty lines here: their breaks, and the place of the first character that is not blank. A
document may not end inside a quoted text. -/
def quotedBreaks : Nat → Cursor → Read (List Char × Cursor)
  | 0, _ => .error .invalid
  | fuel + 1, c =>
    if c.hasSeparator then .error .invalid
    else
      let c := c.skip fun ch => ch == ' ' || ch == '\t'
      match c.lineBreak? with
      | none => .ok ([], c)
      | some (ch, after) => do
        let (more, last) ← quotedBreaks fuel after
        .ok (ch :: more, last)

/-- The blanks here: kept within a line; a line break becomes a space, or the breaks of the empty
lines after it. -/
def quotedBlanks (c : Cursor) : Read (List Char × Cursor) :=
  let (blanks, c) := c.span fun ch => ch == ' ' || ch == '\t'
  match c.peek with
  | none => .error .invalid
  | some _ =>
    match c.lineBreak? with
    | none => .ok (blanks, c)
    | some (ch, after) => do
      let (breaks, last) ← quotedBreaks (c.rest.length + 1) after
      let first := if ch != '\n' then [ch] else if breaks.isEmpty then [' '] else []
      .ok (first ++ breaks, last)

/-- What a backslash at the cursor stands for, with the place after the escape. -/
def escape (c : Cursor) : Read (List Char × Cursor) :=
  let c := c.next
  match c.peek with
  | none => .error .invalid
  | some letter =>
    match escapes.lookup letter with
    | some ch => .ok ([ch], c.next)
    | none =>
      match codeWidth? letter with
      | some width =>
        let digits := (c.rest.drop 1).take width
        match hexNumber? digits with
        | some code =>
          if digits.length < width then .error .invalid
          else if 0x10FFFF < code then .error .noSuchValue
          else .ok ([Text.charOfCode code], c.advance (width + 1))
        | none => .error .invalid
      | none =>
        match c.lineBreak? with
        | some (_, after) => quotedBreaks (c.rest.length + 1) after
        | none => .error .invalid

/-- The text up to the closing mark; `acc` holds, reversed, what is read so far. -/
def quotedBody (mark : Char) : Nat → List Char → Cursor → Read (String × Cursor)
  | 0, _, _ => .error .invalid
  | fuel + 1, acc, c =>
    match c.rest with
    | [] => .error .invalid
    | ch :: rest =>
      if mark == '\'' && ch == '\'' && rest.head? == some '\'' then
        quotedBody mark fuel ('\'' :: acc) (c.advance 2)
      else if ch == mark then .ok (String.ofList acc.reverse, c.next)
      else if mark == '"' && ch == '\\' then
        match escape c with
        | .error stop => .error stop
        | .ok (text, after) => quotedBody mark fuel (text.reverse ++ acc) after
      else if ch == ' ' || ch == '\t' || isBreak ch then
        match quotedBlanks c with
        | .error stop => .error stop
        | .ok (text, after) => quotedBody mark fuel (text.reverse ++ acc) after
      else quotedBody mark fuel (ch :: acc) c.next

/-- A text between quotation marks. -/
def quoted (c : Cursor) : Read (String × Cursor) :=
  match c.peek with
  | some mark => quotedBody mark (c.rest.length + 1) [] c.next
  | none => .error .invalid

/-- Whether one of the escapes in a text is for half of a surrogate pair. -/
def holdsHalf : List Char → Bool
  | '\\' :: letter :: rest =>
    let code? := (codeWidth? letter).bind fun width => hexNumber? (rest.take width)
    code?.any Text.isHalf || holdsHalf rest
  | _ :: rest => holdsHalf rest
  | [] => false

/-- How a scalar is written. -/
inductive Style where
  | plain
  | quoted
  /-- Quoted, with half of a surrogate pair in the text. -/
  | halved
  deriving DecidableEq, Repr

/-- How a text between quotation marks is written. Escapes mean something in double marks only. -/
def Style.ofQuoted (written : List Char) : Style :=
  if written.head? == some '"' && holdsHalf written then .halved else .quoted

/-! ## Blocks -/

/-- What becomes of the line breaks at the end of a block. -/
inductive Chomping where
  | strip
  | clip
  | keep
  deriving DecidableEq, Repr

/-- A sign of the header of a block. -/
def chomping? : Option Char → Option Chomping
  | some '+' => some .keep
  | some '-' => some .strip
  | _ => none

/-- An indentation digit of the header of a block. -/
def indentDigit? : Option Char → Option Nat
  | some c => if '0' ≤ c && c ≤ '9' then some (c.toNat - 0x30) else none
  | none => none

/-- The header of a block: a sign and an indentation digit in either order. Zero is no
indentation. -/
def blockHeader (c : Cursor) : Read (Chomping × Option Nat × Cursor) := do
  let (chomping, digit, c) := match chomping? c.peek with
    | some chomping =>
      match indentDigit? c.next.peek with
      | some d => (chomping, some d, c.advance 2)
      | none => (chomping, none, c.next)
    | none =>
      match indentDigit? c.peek with
      | some d =>
        match chomping? c.next.peek with
        | some chomping => (chomping, some d, c.advance 2)
        | none => (Chomping.clip, some d, c.next)
      | none => (Chomping.clip, none, c)
  if digit == some 0 || !isGapWithoutTab c.peek then .error .invalid
  else .ok (chomping, digit, c)

/-- The spaces here that do not reach beyond the column `indent`. -/
def skipIndent (indent : Nat) (c : Cursor) : Cursor :=
  c.advance (min (c.rest.takeWhile (· == ' ')).length (indent - c.column))

/-- The breaks of the empty lines here, given the indentation of the block. -/
def blockBreaks (indent : Nat) : Nat → Cursor → List Char × Cursor
  | 0, c => ([], c)
  | fuel + 1, c =>
    let c := skipIndent indent c
    match c.lineBreak? with
    | none => ([], c)
    | some (ch, after) =>
      let (more, last) := blockBreaks indent fuel after
      (ch :: more, last)

/-- The breaks of the empty lines before the first line with text, and the greatest column that
spaces reach in them. -/
def leadingBreaks : Nat → Nat → Cursor → List Char × Nat × Cursor
  | 0, widest, c => ([], widest, c)
  | fuel + 1, widest, c =>
    let c := c.skipSpaces
    let widest := if widest < c.column then c.column else widest
    match c.lineBreak? with
    | none => ([], widest, c)
    | some (ch, after) =>
      let (more, widest, last) := leadingBreaks fuel widest after
      (ch :: more, widest, last)

/-- The lines of a block from a line with text on. `breaks` are those of the empty lines before
it. In a folded block one break between two lines that start with text becomes a space. The answer
is the text so far, the break that ends the last line, the breaks of the empty lines after it, and
the place after them. -/
def blockLines (folded : Bool) (indent : Nat) :
    Nat → List Char → Cursor → List Char × List Char × List Char × Cursor
  | 0, breaks, c => ([], [], breaks, c)
  | fuel + 1, breaks, c =>
    if c.column != indent || c.peek.isNone then ([], [], breaks, c)
    else
      let startsWithText (c : Cursor) : Bool := !(c.isAt ' ' || c.isAt '\t')
      let (text, rest) := c.span fun ch => !isBreak ch
      let (ending, rest) := match rest.lineBreak? with
        | some (ch, after) => ([ch], after)
        | none => ([], rest)
      let (after, next) := blockBreaks indent (rest.rest.length + 1) rest
      if next.column == indent && next.peek.isSome then
        let joint :=
          if folded && ending == ['\n'] && startsWithText c && startsWithText next then
            if after.isEmpty then [' '] else []
          else ending
        let (more, last, tail, final) := blockLines folded indent fuel after next
        (breaks ++ text ++ joint ++ more, last, tail, final)
      else (breaks ++ text, ending, after, next)

/-- A block scalar in a collection of the given indentation. The text is indented by the stated
number of columns, or else as far as its first line. -/
def block (folded : Bool) (parent : Int) (c : Cursor) : Read (String × Cursor) := do
  let (chomping, digit, c) ← blockHeader c.next
  let c ← c.ignoreLine
  let least : Nat := if parent + 1 < 1 then 1 else (parent + 1).toNat
  let fuel := c.rest.length + 1
  let (breaks, indent, c) := match digit with
    | some d =>
      let (breaks, c) := blockBreaks (least + d - 1) fuel c
      (breaks, least + d - 1, c)
    | none =>
      let (breaks, widest, c) := leadingBreaks fuel 0 c
      (breaks, if widest < least then least else widest, c)
  let (text, ending, after, c) := blockLines folded indent fuel breaks c
  let unread := text.isEmpty && ending.isEmpty
  let body := match chomping with
    | .strip => text
    | .clip => text ++ ending
    | .keep => if unread then after else text ++ ending ++ after
  .ok (String.ofList body, c)

/-! ## Plain -/

/-- Whether a plain scalar stops at the front of this text. -/
def stopsPlain (inFlow : Bool) : List Char → Bool
  | [] => true
  | ch :: rest =>
    isGap (some ch) ||
      (ch == ':' && (isGap rest.head? || (inFlow && match rest.head? with
        | some d => [',', '[', ']', '\x7b', '\x7d'].contains d
        | none => false))) ||
      (inFlow && [',', '?', '[', ']', '\x7b', '\x7d'].contains ch)

/-- The characters of a plain scalar up to the next gap or indicator. -/
def plainRun (inFlow : Bool) : List Char → List Char
  | [] => []
  | ch :: rest => if stopsPlain inFlow (ch :: rest) then [] else ch :: plainRun inFlow rest

/-- What stands between two runs of a plain scalar. -/
structure PlainGap where
  /-- The text that the gap contributes if another run follows; none where the scalar must end. -/
  text : List Char
  /-- Whether a line break was passed. -/
  brokeLine : Bool
  after : Cursor

/-- The breaks of the empty lines here; none where a document separator follows a break. -/
def plainBreaks : Nat → Cursor → Option (List Char) × Cursor
  | 0, c => (none, c)
  | fuel + 1, c =>
    let c := c.skipSpaces
    match c.lineBreak? with
    | none => (some [], c)
    | some (ch, after) =>
      if after.hasSeparator then (none, after)
      else
        let (more, last) := plainBreaks fuel after
        (more.map (ch :: ·), last)

/-- The gap at the cursor. -/
def plainGap (c : Cursor) : PlainGap :=
  let (spaces, c) := c.span (· == ' ')
  match c.lineBreak? with
  | none => ⟨spaces, false, c⟩
  | some (ch, after) =>
    if after.hasSeparator then ⟨[], true, after⟩
    else
      match plainBreaks (after.rest.length + 1) after with
      | (none, last) => ⟨[], true, last⟩
      | (some breaks, last) =>
        let first := if ch != '\n' then [ch] else if breaks.isEmpty then [' '] else []
        ⟨first ++ breaks, true, last⟩

/-- The runs of a plain scalar; `gap` is the text before the next run. The answer is the text, and
whether a line break was passed after its last character. -/
def plainRuns (inFlow : Bool) (indent : Int) :
    Nat → List Char → Bool → Cursor → List Char × Bool × Cursor
  | 0, _, broke, c => ([], broke, c)
  | fuel + 1, gap, broke, c =>
    if c.isAt '#' then ([], broke, c)
    else
      let run := plainRun inFlow c.rest
      if run.isEmpty then ([], broke, c)
      else
        let next := plainGap (c.advance run.length)
        let ends := next.text.isEmpty || next.after.isAt '#' ||
          (!inFlow && (next.after.column : Int) < indent)
        if ends then (gap ++ run, next.brokeLine, next.after)
        else
          let (more, broke, last) :=
            plainRuns inFlow indent fuel next.text next.brokeLine next.after
          (gap ++ run ++ more, broke, last)

/-- A plain scalar in a collection of the given indentation. -/
def plain (inFlow : Bool) (parent : Int) (c : Cursor) : String × Bool × Cursor :=
  let (text, broke, last) := plainRuns inFlow (parent + 1) (c.rest.length + 1) [] false c
  (String.ofList text, broke, last)

end IntegrationCompiler.Yaml
