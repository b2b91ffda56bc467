import IntegrationCompiler.Text.Blank

/-!
# Paths

The names that lead to a file, from the root or from the working directory.

Main definitions:

* `Path.ofText`, `Path.text` — a path as it is written; empty names and single points do not count;
* `Path.join`, `Path.child` — a path seen from another one;
* `Path.suffix` — what follows the last point of the last name.
-/

namespace IntegrationCompiler

/-- A path. -/
structure Path where
  /-- What stands in front of a path from the root. -/
  root : String := ""
  parts : List String
  deriving DecidableEq, Repr

namespace Path

/-- What stands in front of the names of a text: nothing, a slash, or two of them. -/
def rootOf (cs : List Char) : String :=
  match (cs.takeWhile (· == '/')).length with
  | 0 => ""
  | 2 => "//"
  | _ => "/"

/-- The path that a text writes. -/
def ofText (s : String) : Path where
  root := rootOf s.toList
  parts := ((Text.splitAt '/' s.toList).map String.ofList).filter fun name => name != "" && name != "."

/-- A path as it is written. -/
def text (p : Path) : String :=
  if p.root.isEmpty && p.parts.isEmpty then "." else p.root ++ "/".intercalate p.parts

/-- Whether a path starts at the root. -/
def isAbsolute (p : Path) : Bool :=
  !p.root.isEmpty

/-- A path seen from another one. -/
def join (p q : Path) : Path :=
  if q.isAbsolute then q else { p with parts := p.parts ++ q.parts }

/-- The path that a text writes, seen from another path. -/
def child (p : Path) (s : String) : Path :=
  p.join (ofText s)

/-- The last name. -/
def name (p : Path) : String :=
  (p.parts.getLast?).getD ""

/-- What follows the last point of the last name, with the point: nothing if the point comes first
or last. -/
def suffix (p : Path) : String :=
  let cs := p.name.toList
  let after := cs.reverse.takeWhile (· != '.')
  let before := cs.length - after.length
  if after.isEmpty || before ≤ 1 then "" else String.ofList ('.' :: after.reverse)

/-- The path from a directory to a place under it. -/
def from? (p directory : Path) : Option Path :=
  if p.root == directory.root && directory.parts.isPrefixOf p.parts then
    some { parts := p.parts.drop directory.parts.length }
  else none

end Path

end IntegrationCompiler
