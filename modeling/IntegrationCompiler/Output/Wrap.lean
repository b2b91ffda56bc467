import IntegrationCompiler.Text.Blank
import IntegrationCompiler.Text.Width

/-!
# Breaking lines

Fitting text into columns: lines are broken between words, and words that are too long for a whole
line are either broken as well or left to be cut.

Main definitions:

* `spacedWords` — the words of a line, each with the blanks after it;
* `breakLine` — a line as several lines;
* `wrap` — a text as lines of a width;
* `crop`, `alignLeft`, `alignCentre` — lines of at most, at least and exactly a width.
-/

namespace IntegrationCompiler.Output

open Text

/-- The words of a line; `word` holds, reversed, the one that is being read, and `named` tells
whether it has a character that is not blank. -/
def spacedWordsFrom (word : List Char) (named : Bool) : List Char → List (List Char)
  | [] => if named then [word.reverse] else []
  | c :: rest =>
    let afterBlank := match word with
      | b :: _ => isBlank b
      | [] => false
    if named && afterBlank && !isBlank c then word.reverse :: spacedWordsFrom [c] true rest
    else spacedWordsFrom (c :: word) (named || !isBlank c) rest

/-- The words of a line, each with the blanks after it. The first word also has the blanks before
it. -/
def spacedWords (line : List Char) : List (List Char) :=
  spacedWordsFrom [] false line

/-- The pieces of a word, each as long as a width allows; `piece` holds, reversed, the one that is
being read, and `used` is its width. -/
def chopFrom (width : Nat) (piece : List Char) (used : Nat) : List Char → List (List Char)
  | [] => [piece.reverse]
  | c :: rest =>
    if width < used + charWidth c then piece.reverse :: chopFrom width [c] (charWidth c) rest
    else chopFrom width (c :: piece) (used + charWidth c) rest

/-- Lines that are being filled with words. -/
structure Filling where
  /-- The lines that are done, the last one first. -/
  done : List (List Char) := []
  /-- The line that is being filled, and its width. -/
  line : List Char := []
  used : Nat := 0

namespace Filling

/-- Adds a piece to the line. -/
def extend (f : Filling) (piece : List Char) : Filling :=
  { f with line := f.line ++ piece, used := f.used + textWidth piece }

/-- Starts the next line with a piece; there is no next line as long as nothing has been placed. -/
def next (f : Filling) (piece : List Char) : Filling :=
  if f.done.isEmpty && f.line.isEmpty then { f with line := piece, used := textWidth piece }
  else { done := f.line :: f.done, line := piece, used := textWidth piece }

/-- Places a word: on the line if it fits, else on the next one. -/
def place (width : Nat) (fold : Bool) (f : Filling) (word : List Char) : Filling :=
  let size := textWidth (trimRight word)
  if f.used + size ≤ width then f.extend word
  else if size ≤ width || !fold then f.next word
  else (chopFrom width [] 0 word).foldl next f

/-- All lines, in order. -/
def lines (f : Filling) : List (List Char) :=
  (f.line :: f.done).reverse

end Filling

/-- A line as several lines. A word that is longer than the width is broken if `fold` says so. -/
def breakLine (width : Nat) (fold : Bool) (line : List Char) : List (List Char) :=
  match spacedWords line with
  | [] => [line]
  | words => (words.foldl (Filling.place width fold) {}).lines

/-- The distance between the columns at which tabs end. -/
def tabStop : Nat := 8

/-- The line with spaces in the place of tabs; `column` is where the line stands. -/
def expandTabs (column : Nat) : List Char → List Char
  | [] => []
  | c :: rest =>
    if c = '\t' then
      let next := (column / tabStop + 1) * tabStop
      List.replicate (next - column) ' ' ++ expandTabs next rest
    else c :: expandTabs (column + charWidth c) rest

/-- The line without those of its trailing blanks that stand beyond the width. -/
def trimBeyond (width : Nat) (line : List Char) : List Char :=
  let blanks := line.length - (trimRight line).length
  line.take (line.length - min blanks (line.length - width))

/-- A text as lines of a width. -/
def wrap (width : Nat) (fold : Bool) (text : List Char) : List (List Char) :=
  (splitAt '\n' text).flatMap fun line =>
    (breakLine width fold (expandTabs 0 line)).map (trimBeyond width)

/-- The characters at the start of a line that fit into a width. -/
def fitting (width : Nat) : List Char → List Char
  | [] => []
  | c :: rest => if width < charWidth c then [] else c :: fitting (width - charWidth c) rest

/-- The line with spaces after it, up to a width. -/
def alignLeft (width : Nat) (line : List Char) : List Char :=
  line ++ List.replicate (width - textWidth line) ' '

/-- The start of a line, in exactly the given width. -/
def cut (width : Nat) (line : List Char) : List Char :=
  alignLeft width (fitting width line)

/-- The line, or the start of it that fits into a width. -/
def crop (width : Nat) (line : List Char) : List Char :=
  if textWidth line ≤ width then line else cut width line

/-- The line, and in the place of what is beyond the width an ellipsis. -/
def cutWithEllipsis (width : Nat) (line : List Char) : List Char :=
  if textWidth line ≤ width then line else cut (width - 1) line ++ ['\u2026']

/-- The line in the middle of a width, without blanks at its end; of two middles the left one. -/
def alignCentre (width : Nat) (line : List Char) : List Char :=
  let bare := crop width (trimRight line)
  alignLeft width (List.replicate ((width - textWidth bare) / 2) ' ' ++ bare)

end IntegrationCompiler.Output
