import IntegrationCompiler.Number.Basic
import IntegrationCompiler.Yaml.Literal

/-!
# Tokens of a YAML text

Cutting a text into tokens. Indentation opens and closes block collections, and whether a token is
the key of an entry is known only when the colon after it is met: each place where a key could
begin is remembered, one for every open flow collection, and the key token is inserted there later.

Main definitions:

* `Token` — the tokens;
* `Lexer` — where the reader stands, and what it has to remember;
* `Token.scan` — all tokens of a text, the last one saying how it ended.
-/

namespace IntegrationCompiler.Yaml

/-- A line that starts with a percent sign. -/
inductive Directive where
  | version (major : Nat)
  | handle (name expansion : String)
  | unknown
  deriving DecidableEq, Repr

/-- A token. -/
inductive Token where
  | directive (d : Directive)
  | documentStart
  | documentEnd
  | blockListStart
  | blockMapStart
  | blockEnd
  | flowListStart
  | flowListEnd
  | flowMapStart
  | flowMapEnd
  | blockEntry
  | flowEntry
  | key
  | value
  | alias (name : String)
  | anchor (name : String)
  | tag (handle : Option String) (suffix : String)
  | scalar (text : String) (style : Style)
  /-- The end of the text. -/
  | finish
  /-- The place where the text ceases to make sense. -/
  | broken (stop : Stop)
  deriving DecidableEq, Repr

/-! ## Names and tags -/

/-- A non-empty name of an anchor, an alias or a directive. -/
def name (c : Cursor) : Read (String × Cursor) :=
  let (cs, after) := c.span isNameChar
  if cs.isEmpty then .error .invalid else .ok (String.ofList cs, after)

/-- The name after `&` or `*`, which is followed by a gap or an indicator. -/
def anchorName (c : Cursor) : Read (String × Cursor) := do
  let (text, c) ← name c.next
  let ends := match c.peek with
    | some ch => isGap (some ch) || "?:,]\x7d%@\x60".toList.contains ch
    | none => true
  if ends then .ok (text, c) else .error .invalid

/-- A handle: `!`, `!!`, or a name between exclamation marks. -/
def tagHandle (c : Cursor) : Read (String × Cursor) :=
  if !c.isAt '!' then .error .invalid
  else if c.peekAt 1 == some ' ' then .ok ("!", c.next)
  else
    let (cs, after) := c.next.span isNameChar
    if after.isAt '!' then .ok (String.ofList ('!' :: cs ++ ['!']), after.next)
    else .error .invalid

/-- Whether `ch` may stand in a tag as it is. -/
def isTagChar (ch : Char) : Bool :=
  isNameChar ch || ";/?:@&=+$,.!~*'()[]".toList.contains ch

/-- Octets written as percent signs with two hexadecimal digits each. -/
def percentOctets : Nat → List Char → Option (List UInt8 × List Char)
  | 0, cs => some ([], cs)
  | fuel + 1, '%' :: a :: b :: rest => do
    let high ← hexValue? a
    let low ← hexValue? b
    let (more, last) ← percentOctets fuel rest
    some (UInt8.ofNat (high * 16 + low) :: more, last)
  | _, '%' :: _ => none
  | _, cs => some ([], cs)

/-- The characters of a tag; runs of escaped octets encode text. -/
def tagChars : Nat → Cursor → Read (List Char × Cursor)
  | 0, c => .ok ([], c)
  | fuel + 1, c =>
    match c.rest with
    | '%' :: _ =>
      match percentOctets c.rest.length c.rest with
      | none => .error .invalid
      | some (octets, last) =>
        match String.fromUTF8? ⟨octets.toArray⟩ with
        | none => .error .invalid
        | some text => do
          let (more, final) ← tagChars fuel (c.advance (c.rest.length - last.length))
          .ok (text.toList ++ more, final)
    | ch :: _ =>
      if isTagChar ch then do
        let (more, last) ← tagChars fuel c.next
        .ok (ch :: more, last)
      else .ok ([], c)
    | [] => .ok ([], c)

/-- A non-empty run of the characters of a tag. -/
def tagText (c : Cursor) : Read (String × Cursor) := do
  let (cs, after) ← tagChars (c.rest.length + 1) c
  if after.index == c.index then .error .invalid else .ok (String.ofList cs, after)

/-- A tag: verbatim between angle brackets, a lone exclamation mark, or a handle and a suffix. -/
def tag (c : Cursor) : Read (Token × Cursor) := do
  let (token, c) ← match c.peekAt 1 with
    | some '<' => do
      let (suffix, after) ← tagText (c.advance 2)
      if after.isAt '>' then .ok (Token.tag none suffix, after.next) else .error .invalid
    | following =>
      if isGap following then .ok (Token.tag none "!", c.next)
      else
        let body := c.next.rest.takeWhile fun ch => !isGapWithoutTab (some ch)
        let (handle, after) ← if body.contains '!' then tagHandle c else .ok ("!", c.next)
        let (suffix, after) ← tagText after
        .ok (Token.tag (some handle) suffix, after)
  if isGapWithoutTab c.peek then .ok (token, c) else .error .invalid

/-! ## Directives -/

/-- A decimal number of the version directive. -/
def versionNumber (c : Cursor) : Read (Nat × Cursor) :=
  let (digits, after) := c.span Number.isAsciiDigit
  if digits.isEmpty then .error .invalid
  else if Number.maxIntegerDigits < digits.length then .error .noSuchValue
  else .ok (Text.ofDigits (digits.map Number.asciiValue), after)

/-- A step that has to end at a space or a line end. -/
def atGap {α : Type} (step : Read (α × Cursor)) : Read (α × Cursor) := do
  let (a, c) ← step
  if isGapWithoutTab c.peek then .ok (a, c) else .error .invalid

/-- The version directive after its name. -/
def versionDirective (c : Cursor) : Read (Directive × Cursor) := atGap do
  let (major, c) ← versionNumber c.skipSpaces
  if !c.isAt '.' then .error .invalid
  else
    let (_, c) ← versionNumber c.next
    .ok (.version major, c)

/-- The handle directive after its name. -/
def handleDirective (c : Cursor) : Read (Directive × Cursor) := do
  let (handle, c) ← tagHandle c.skipSpaces
  if !c.isAt ' ' then .error .invalid
  else
    let (expansion, c) ← atGap (tagText c.skipSpaces)
    .ok (.handle handle expansion, c)

/-- A directive, up to the end of its line. -/
def directive (c : Cursor) : Read (Token × Cursor) := do
  let (word, c) ← atGap (name c.next)
  let (d, c) ←
    if word == "YAML" then versionDirective c
    else if word == "TAG" then handleDirective c
    else .ok (Directive.unknown, c.skip fun ch => !isBreak ch)
  let c ← c.ignoreLine
  .ok (.directive d, c)

/-! ## The lexer -/

/-- A place where a key could begin: how many tokens precede it, whether nothing but a key can
stand there, and where it is. -/
structure Candidate where
  tokens : Nat
  required : Bool
  place : Cursor

/-- Where the reader stands. -/
structure Lexer where
  cursor : Cursor
  /-- The tokens so far, the last one first, and how many they are. -/
  emitted : List Token
  count : Nat
  /-- The columns of the open block collections, the innermost first. -/
  indents : List Nat
  /-- Whether a key may begin at this place. -/
  keyAllowed : Bool
  /-- The possible key of the block level and of each open flow collection, the innermost first. -/
  candidate : Option Candidate
  outer : List (Option Candidate)

namespace Lexer

/-- The beginning of a text; a byte order mark there is skipped. -/
def start (text : List Char) : Lexer :=
  let c := Cursor.start text
  ⟨if c.isAt '\ufeff' then c.next else c, [], 0, [], true, none, []⟩

/-- Whether the reader is inside a flow collection. -/
def inFlow (l : Lexer) : Bool :=
  !l.outer.isEmpty

/-- The column of the innermost block collection, -1 outside any. -/
def indent (l : Lexer) : Int :=
  match l.indents with
  | [] => -1
  | column :: _ => column

/-- Adds a token. -/
def emit (l : Lexer) (t : Token) : Lexer :=
  { l with emitted := t :: l.emitted, count := l.count + 1 }

/-- Adds tokens before the last `back` ones. -/
def insert (l : Lexer) (back : Nat) (ts : List Token) : Lexer :=
  { l with
    emitted := l.emitted.take back ++ ts.reverse ++ l.emitted.drop back
    count := l.count + ts.length }

/-- Adds a token that takes some characters. -/
def take (l : Lexer) (t : Token) (width : Nat) : Lexer :=
  { l.emit t with cursor := l.cursor.advance width }

/-- Closes the block collections that begin beyond a column. Inside a flow collection indentation
means nothing. -/
def unwind (l : Lexer) (column : Int) : Lexer :=
  if l.inFlow then l else
  let closed := l.indents.takeWhile fun (i : Nat) => column < (i : Int)
  { l with
    emitted := closed.map (fun _ => .blockEnd) ++ l.emitted
    count := l.count + closed.length
    indents := l.indents.drop closed.length }

/-- Opens a block collection at a column beyond the innermost one; says whether it did. -/
def deepen (l : Lexer) (column : Nat) : Bool × Lexer :=
  if l.indent < (column : Int) then (true, { l with indents := column :: l.indents }) else (false, l)

/-- Whether a possible key is out of reach: on another line, or too far back. -/
def outOfReach (l : Lexer) (c : Candidate) : Bool :=
  c.place.line != l.cursor.line || 1024 < l.cursor.index - c.place.index

/-- Forgets the possible keys that are out of reach; a required one may not be. -/
def forgetStale (l : Lexer) : Read Lexer :=
  let stale (c : Option Candidate) : Bool := c.any l.outOfReach
  let lost (c : Option Candidate) : Bool := stale c && c.any (·.required)
  if (l.candidate :: l.outer).any lost then .error .invalid
  else
    let keep (c : Option Candidate) : Option Candidate := if stale c then none else c
    .ok { l with candidate := keep l.candidate, outer := l.outer.map keep }

/-- Gives up the possible key of this level; a required one may not be. -/
def dropCandidate (l : Lexer) : Read Lexer :=
  if l.candidate.any (·.required) then .error .invalid else .ok { l with candidate := none }

/-- Remembers this place as a possible key, where a key may begin. -/
def noteCandidate (l : Lexer) : Read Lexer :=
  if !l.keyAllowed then .ok l
  else do
    let required := !l.inFlow && l.indent == (l.cursor.column : Int)
    let l ← l.dropCandidate
    .ok { l with candidate := some ⟨l.count, required, l.cursor⟩ }

/-- Passes spaces, comments and line breaks; outside flow collections a new line may begin with a
key. -/
def skipToToken : Nat → Lexer → Lexer
  | 0, l => l
  | fuel + 1, l =>
    let c := l.cursor.skipSpaces
    let c := if c.isAt '#' then c.skip fun ch => !isBreak ch else c
    match c.lineBreak? with
    | some (_, after) =>
      skipToToken fuel { l with cursor := after, keyAllowed := l.keyAllowed || !l.inFlow }
    | none => { l with cursor := c }

/-! ### Tokens -/

/-- Leaves all block collections, as the end of a document does. -/
def closeAll (l : Lexer) : Read Lexer := do
  let l ← (l.unwind (-1)).dropCandidate
  .ok { l with keyAllowed := false }

/-- A document marker. -/
def documentMarker (l : Lexer) (t : Token) : Read Lexer := do
  let l ← l.closeAll
  .ok (l.take t 3)

/-- The opening bracket of a flow collection. -/
def openFlow (l : Lexer) (t : Token) : Read Lexer := do
  let l ← l.noteCandidate
  .ok ({ l with outer := l.candidate :: l.outer, candidate := none, keyAllowed := true }.take t 1)

/-- The closing bracket of a flow collection. -/
def closeFlow (l : Lexer) (t : Token) : Read Lexer := do
  let l ← l.dropCandidate
  match l.outer with
  | [] => .error .invalid
  | candidate :: outer =>
    .ok ({ l with outer := outer, candidate := candidate, keyAllowed := false }.take t 1)

/-- The comma between items of a flow collection. -/
def flowComma (l : Lexer) : Read Lexer := do
  let l ← l.dropCandidate
  .ok ({ l with keyAllowed := true }.take .flowEntry 1)

/-- Opens a block collection here, if this place is beyond the innermost one. Only where a key
could begin may a block entry begin. -/
def openBlock (l : Lexer) (t : Token) : Read Lexer :=
  if l.inFlow then .ok l
  else if !l.keyAllowed then .error .invalid
  else
    let (opened, l) := l.deepen l.cursor.column
    .ok (if opened then l.emit t else l)

/-- The dash of a block list. -/
def dash (l : Lexer) : Read Lexer := do
  let l ← l.openBlock .blockListStart
  let l ← l.dropCandidate
  .ok ({ l with keyAllowed := true }.take .blockEntry 1)

/-- The question mark before a key. -/
def questionMark (l : Lexer) : Read Lexer := do
  let l ← l.openBlock .blockMapStart
  let l ← l.dropCandidate
  .ok ({ l with keyAllowed := !l.inFlow }.take .key 1)

/-- The colon before a value. The possible key, if there is one, turns out to be a key. -/
def colon (l : Lexer) : Read Lexer :=
  match l.candidate with
  | some c =>
    -- The key token stands where the key began, behind all that was read since.
    let back := l.count - c.tokens
    let (opened, m) := if l.inFlow then (false, l) else l.deepen c.place.column
    let m := m.insert back (if opened then [.blockMapStart, .key] else [.key])
    .ok ({ m with candidate := none, keyAllowed := false }.take .value 1)
  | none => do
    let l ← l.openBlock .blockMapStart
    .ok ({ l with keyAllowed := !l.inFlow }.take .value 1)

/-- A token that may begin a key and after which no key begins. -/
def content (l : Lexer) (read : Cursor → Read (Token × Cursor)) : Read Lexer := do
  let l ← l.noteCandidate
  let (t, after) ← read l.cursor
  .ok { l.emit t with cursor := after, keyAllowed := false }

/-- A literal or folded block. -/
def blockScalar (l : Lexer) (folded : Bool) : Read Lexer := do
  let l ← l.dropCandidate
  let (text, after) ← block folded l.indent l.cursor
  .ok { l.emit (.scalar text .quoted) with cursor := after, keyAllowed := true }

/-- A plain scalar. -/
def plainScalar (l : Lexer) : Read Lexer := do
  let l ← l.noteCandidate
  let (text, broke, after) := plain l.inFlow l.indent l.cursor
  .ok { l.emit (.scalar text .plain) with cursor := after, keyAllowed := broke }

/-- Whether a plain scalar can begin with `ch`, given what follows. -/
def startsPlain (l : Lexer) (ch : Char) : Bool :=
  !(isGap (some ch) || "-?:,[]\x7b\x7d#&*!|>'\"%@\x60".toList.contains ch) ||
    (!isGap (l.cursor.peekAt 1) && (ch == '-' || (!l.inFlow && (ch == '?' || ch == ':'))))

/-- The token that begins with `ch`. -/
def token (l : Lexer) (ch : Char) : Read Lexer :=
  let atLineStart := l.cursor.column == 0
  let beforeGap := isGap (l.cursor.peekAt 1)
  if ch == '%' && atLineStart then do
    let l ← l.closeAll
    let (t, after) ← directive l.cursor
    .ok { l.emit t with cursor := after }
  else if atLineStart && l.cursor.hasMarker '-' then l.documentMarker .documentStart
  else if atLineStart && l.cursor.hasMarker '.' then l.documentMarker .documentEnd
  else if ch == '[' then l.openFlow .flowListStart
  else if ch == '\x7b' then l.openFlow .flowMapStart
  else if ch == ']' then l.closeFlow .flowListEnd
  else if ch == '\x7d' then l.closeFlow .flowMapEnd
  else if ch == ',' then l.flowComma
  else if ch == '-' && beforeGap then l.dash
  else if ch == '?' && (l.inFlow || beforeGap) then l.questionMark
  else if ch == ':' && (l.inFlow || beforeGap) then l.colon
  else if ch == '*' then
    l.content fun c => (anchorName c).map fun (s, after) => (.alias s, after)
  else if ch == '&' then
    l.content fun c => (anchorName c).map fun (s, after) => (.anchor s, after)
  else if ch == '!' then l.content tag
  else if ch == '|' && !l.inFlow then l.blockScalar false
  else if ch == '>' && !l.inFlow then l.blockScalar true
  else if ch == '\'' || ch == '"' then
    l.content fun c => (quoted c).map fun (s, after) =>
      (.scalar s (.ofQuoted (c.rest.take (after.index - c.index))), after)
  else if l.startsPlain ch then l.plainScalar
  else .error .invalid

/-- The next token, and whether it was the last. -/
def step (l : Lexer) : Read (Bool × Lexer) := do
  let l := l.skipToToken (l.cursor.rest.length + 1)
  let l ← l.forgetStale
  let l := l.unwind l.cursor.column
  match l.cursor.peek with
  | none => do
    let l ← l.closeAll
    .ok (true, l.emit .finish)
  | some ch => do
    let l ← l.token ch
    .ok (false, l)

/-- How many tokens precede the first possible key, if one is left. -/
def firstCandidate? (l : Lexer) : Option Nat :=
  let open? := (l.candidate :: l.outer).filterMap id
  ((open?.filter fun c => !l.outOfReach c).map (·.tokens)).min?

/-- The tokens so far if no other follows. Where a key could begin, nothing is handed on before it
is known whether it does, so what breaks the text meanwhile breaks it at that place. -/
def broken (l : Lexer) (stop : Stop) : List Token :=
  let settled := match l.firstCandidate? with
    | some n => l.emitted.reverse.take n
    | none => l.emitted.reverse
  settled ++ [.broken stop]

/-- The tokens from a state on. -/
def run : Nat → Lexer → List Token
  | 0, l => l.broken .invalid
  | fuel + 1, l =>
    match l.step with
    | .error stop => l.broken stop
    | .ok (true, l) => l.emitted.reverse
    | .ok (false, l) => run fuel l

end Lexer

/-- The tokens of a text, in which a line ends in one way only. Every step but the last takes at
least one character. -/
def Token.scan (text : String) : List Token :=
  let cs := Text.unifyNewlines text.toList
  if cs.all isAllowed then (Lexer.start cs).run (cs.length + 1) else [.broken .invalid]

end IntegrationCompiler.Yaml
