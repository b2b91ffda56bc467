import IntegrationCompiler.Output.Markup
import IntegrationCompiler.Output.Wrap

/-!
# Tables

A table is drawn with lines around its cells, heavy ones around the headers. Columns are as wide as
their widest cell; when the screen is too narrow for that, the widest columns are narrowed.

Main definitions:

* `Table` — headers, rows and a title;
* `fitColumns` — the widths of columns;
* `Table.draw?` — the table as text.
-/

namespace IntegrationCompiler.Output

/-- A table. -/
structure Table where
  headers : List String
  rows : List (List String)
  title : Option String := none
  deriving Repr

/-! ## Widths -/

/-- The width of columns side by side. -/
def totalWidth (widths : List Nat) : Nat :=
  widths.foldr (· + ·) 0

/-- The quotient rounded to the nearest integer, and from the middle to the even one. -/
def roundedQuotient (n d : Nat) : Nat :=
  let q := n / d
  let r := n % d
  if 2 * r < d then q
  else if d < 2 * r then q + 1
  else if q % 2 = 0 then q else q + 1

/-- Takes `excess` off `count` columns as evenly as possible, from each at most its limit. A column
with limit zero is not among them. -/
def reduceColumns (excess count : Nat) : List (Nat × Nat) → List Nat
  | [] => []
  | (limit, width) :: rest =>
    if limit = 0 then width :: reduceColumns excess count rest
    else
      let taken := min limit (roundedQuotient excess count)
      (width - taken) :: reduceColumns (excess - taken) (count - 1) rest

/-- Narrows the widest columns to the next narrower ones until all fit into `room`. Each round takes
at least one off, so that `fuel` need not be more than the sum of the widths. -/
def narrowWidest (room : Nat) : Nat → List Nat → List Nat
  | 0, widths => widths
  | fuel + 1, widths =>
    let excess := totalWidth widths - room
    let widest := widths.foldl max 0
    let second := (widths.filter (· != widest)).foldl max 0
    if excess = 0 || widest = 0 then widths
    else
      let limit := min excess (widest - second)
      let limits := widths.map fun w => (if w = widest then limit else 0, w)
      narrowWidest room fuel (reduceColumns excess (widths.count widest) limits)

/-- The widths that columns get when their widest cells need the given ones. -/
def fitColumns (room : Nat) (needed : List Nat) : List Nat :=
  if totalWidth needed ≤ room then needed
  else
    let narrowed := narrowWidest room (totalWidth needed) needed
    let excess := totalWidth narrowed - room
    if excess = 0 then narrowed
    else reduceColumns excess narrowed.length (narrowed.map fun w => (w, w))

/-! ## Drawing -/

/-- The columns of a screen. -/
def screenWidth : Nat := 80

/-- A cell as it is shown: its lines. -/
abbrev Cell := List (List Char)

/-- The space on either side of a cell. -/
def cellPadding : Nat := 2

/-- The width that a text needs as a cell. -/
def neededWidth (text : List Char) : Nat :=
  ((Text.splitAt '\n' text).map Text.textWidth).foldl max 0 + cellPadding

/-- The lines of a cell in a column of the given width. -/
def cellLines (width : Nat) (text : List Char) : Cell :=
  let inner := width - cellPadding
  let lines := if inner = 0 then [[]] else wrap inner false text
  lines.map fun line => ' ' :: alignLeft inner (cutWithEllipsis inner line) ++ [' ']

/-- Whether short cells of a row stand at its top or at its bottom. -/
inductive Alignment where
  | top
  | bottom
  deriving DecidableEq, Repr

/-- The cell with blank lines up to a height. -/
def stretch (alignment : Alignment) (height width : Nat) (cell : Cell) : Cell :=
  let blank := List.replicate (height - cell.length) (List.replicate width ' ')
  match alignment with
  | .top => cell ++ blank
  | .bottom => blank ++ cell

/-- The lines of a row, with the given lines between its cells. -/
def rowLines (alignment : Alignment) (wall : Char) (widths : List Nat) (texts : List (List Char)) :
    List (List Char) :=
  let cells := widths.zipWith cellLines texts
  let height := (cells.map List.length).foldl max 1
  let stretched := (widths.zip cells).map fun (width, cell) => stretch alignment height width cell
  (List.range height).map fun n =>
    wall :: Text.joinWith [wall] (stretched.map fun cell => (cell[n]?).getD []) ++ [wall]

/-- A horizontal line, made of its left end, its stroke, its crossings and its right end. -/
def rule (left stroke crossing right : Char) (widths : List Nat) : List Char :=
  left :: Text.joinWith [crossing] (widths.map fun width => List.replicate width stroke) ++ [right]

/-- The lines of a title over a table. -/
def titleLines (width : Nat) (title : List Char) : List (List Char) :=
  (wrap width true title).map (alignCentre width)

/-- Lines as a text. -/
def textOfLines (lines : List (List Char)) : String :=
  String.ofList (lines.flatMap (· ++ ['\n']))

namespace Table

/-- How many columns a table has. -/
def columnCount (t : Table) : Nat :=
  (t.rows.map List.length).foldl max t.headers.length

/-- The cells of a row, with an empty one for each column that the row says nothing about. -/
def completed (count : Nat) (row : List (List Char)) : List (List Char) :=
  row ++ List.replicate (count - row.length) []

/-- The lines of a table whose cells are shown as they are. -/
def lines (headers : List (List Char)) (rows : List (List (List Char)))
    (title : Option (List Char)) : List (List Char) :=
  let columns := headers.mapIdx fun n header =>
    (header :: rows.map fun row => (row[n]?).getD []).map neededWidth
  let room := screenWidth - (headers.length + 1)
  let widths := fitColumns room (columns.map fun needed => needed.foldl max 0)
  let width := totalWidth widths + widths.length + 1
  let above := match title with
    | none => []
    | some text => titleLines width text
  above ++
    [rule '\u250f' '\u2501' '\u2533' '\u2513' widths] ++
    rowLines .bottom '\u2503' widths headers ++
    [rule '\u2521' '\u2501' '\u2547' '\u2529' widths] ++
    rows.flatMap (rowLines .top '\u2502' widths) ++
    [rule '\u2514' '\u2500' '\u2534' '\u2518' widths]

/-- The table as text, if the markup of all its parts is well formed. A table without columns is an
empty line. -/
def draw? (t : Table) : Option String := do
  let count := t.columnCount
  let shown (s : String) : Option (List Char) := plainText? s.toList
  if count = 0 then return "\n"
  let headers ← t.headers.mapM shown
  let rows ← t.rows.mapM (·.mapM shown)
  let title ← match t.title.filter fun s => !s.isEmpty with
    | none => pure none
    | some s => some <$> shown s
  return textOfLines (lines (completed count headers) (rows.map (completed count)) title)

end Table

/-! ## Panels -/

/-- A text in a box over the whole screen, with a heading in its upper edge. -/
def panel (heading text : String) : String :=
  let inner := screenWidth - 4
  let start := '\u256d' :: '\u2500' :: ' ' :: heading.toList ++ [' ']
  let top := start ++ List.replicate (screenWidth - 1 - start.length) '\u2500' ++ ['\u256e']
  let middle := (wrap inner true text.toList).map fun line =>
    ['\u2502', ' '] ++ alignLeft inner (crop inner line) ++ [' ', '\u2502']
  textOfLines ([top] ++ middle ++
    [rule '\u2570' '\u2500' '\u2500' '\u256f' [screenWidth - 2]])

end IntegrationCompiler.Output
