import IntegrationCompiler.Value.Text

/-!
# Writing JSON

Main definitions:

* `Json.Style` — one line or indented, and whether text stays ASCII;
* `Json.render?` — the JSON text of a value, when every part of it has one.
-/

namespace IntegrationCompiler.Json

/-- How JSON is laid out. -/
structure Style where
  /-- Spaces added for each level; on one line when absent. -/
  indent : Option Nat
  /-- Whether characters outside ASCII are escaped. -/
  ascii : Bool

/-- One line, ASCII only. -/
def Style.compact : Style := ⟨none, true⟩

/-- Two spaces a level, every script as it is. -/
def Style.pretty : Style := ⟨some 2, false⟩

/-- Doubles without digits are called by these names. -/
def spelling : Binary64.Spelling := ⟨"NaN", "Infinity"⟩

/-- The escape of one 16-bit unit. -/
def unitEscape (n : Nat) : List Char :=
  '\\' :: 'u' :: Text.hex 4 n

/-- One character of a JSON string. -/
def escapeChar (ascii : Bool) (c : Char) : List Char :=
  if c = '"' || c = '\\' then ['\\', c]
  else if c = '\n' then ['\\', 'n']
  else if c = '\r' then ['\\', 'r']
  else if c = '\t' then ['\\', 't']
  else if c = '\x08' then ['\\', 'b']
  else if c = '\x0c' then ['\\', 'f']
  else if c.toNat < 0x20 || (ascii && 0x7F ≤ c.toNat) then
    if c.toNat < 0x10000 then unitEscape c.toNat
    else
      let n := c.toNat - 0x10000
      unitEscape (0xD800 + n / 0x400) ++ unitEscape (0xDC00 + n % 0x400)
  else [c]

/-- A JSON string. -/
def quote (ascii : Bool) (s : String) : String :=
  String.ofList ('"' :: s.toList.flatMap (escapeChar ascii) ++ ['"'])

/-- The JSON text of a scalar; calendar values, bytes and integers that are too long have none. -/
def scalar? (ascii : Bool) : Scalar → Option String
  | .null => some "null"
  | .bool b => some (if b then "true" else "false")
  | .int n => intText? n
  | .float x => some (x.render spelling)
  | .str s => some (quote ascii s)
  | _ => none

/-- The text of a key, which is the key itself or the JSON text of a scalar that is no text. -/
def keyText? (ascii : Bool) : Scalar → Option String
  | .str s => some s
  | other => scalar? ascii other

/-- A line break with the indentation of `depth` levels; nothing on one line. -/
def Style.newline (style : Style) (depth : Nat) : String :=
  match style.indent with
  | none => ""
  | some width => String.ofList ('\n' :: List.replicate (width * depth) ' ')

/-- The separator between two items. -/
def Style.comma (style : Style) (depth : Nat) : String :=
  match style.indent with
  | none => ", "
  | some _ => "," ++ style.newline depth

/-- Items between brackets; nothing stands between the brackets of an empty collection. -/
def Style.enclose (style : Style) (depth : Nat) (opening closing : String)
    (pieces : List String) : String :=
  if pieces.isEmpty then opening ++ closing
  else
    opening ++ style.newline (depth + 1) ++ (style.comma (depth + 1)).intercalate pieces ++
      style.newline depth ++ closing

mutual

/-- The JSON text of a value `depth` levels down. -/
def renderAt? (style : Style) (depth : Nat) : Value → Option String
  | .scalar s => scalar? style.ascii s
  | .list items => (renderItems? style (depth + 1) items).map (style.enclose depth "[" "]")
  | .map entries =>
    (renderEntries? style (depth + 1) entries).map (style.enclose depth "\x7b" "\x7d")
  | .set _ => none

/-- The JSON texts of the items of a list. -/
def renderItems? (style : Style) (depth : Nat) : List Value → Option (List String)
  | [] => some []
  | v :: rest => do
    let head ← renderAt? style depth v
    let tail ← renderItems? style depth rest
    some (head :: tail)

/-- The JSON texts of the entries of a mapping. -/
def renderEntries? (style : Style) (depth : Nat) : List (Scalar × Value) → Option (List String)
  | [] => some []
  | (k, v) :: rest => do
    let key ← keyText? style.ascii k
    let head ← renderAt? style depth v
    let tail ← renderEntries? style depth rest
    some ((quote style.ascii key ++ ": " ++ head) :: tail)

end

/-- The JSON text of a value, when it holds nothing that JSON cannot write. -/
def render? (style : Style) (v : Value) : Option String :=
  renderAt? style 0 v

end IntegrationCompiler.Json
