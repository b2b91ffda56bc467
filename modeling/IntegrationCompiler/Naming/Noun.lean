import IntegrationCompiler.Text.Blank
import IntegrationCompiler.Text.Case

/-!
# Nouns and keys

What the resource behind an operation is called, and the keys made from names and paths.

Main definitions:

* `nounOf` — the singular noun of an operation, from its id or else from its path;
* `pluralize` — a simple English plural;
* `slugify`, `pathToKey` — keys.
-/

namespace IntegrationCompiler

open Text

/-- Verbs that may open an operation id. -/
def leadingVerbs : List (List Char) := [
  ['g', 'e', 't'], ['c', 'r', 'e', 'a', 't', 'e'], ['u', 'p', 'd', 'a', 't', 'e'],
  ['d', 'e', 'l', 'e', 't', 'e'], ['l', 'i', 's', 't'], ['f', 'i', 'n', 'd']]

/-- Whether `c` is the small letter `letter` up to case. -/
def sameLetter (letter c : Char) : Bool :=
  (lowerChar c).head? == some letter || upperChar c == upperChar letter

/-- What follows `word` at the front of a text, letter case aside. -/
def dropWord? : List Char → List Char → Option (List Char)
  | [], rest => some rest
  | _ :: _, [] => none
  | letter :: word, c :: rest => if sameLetter letter c then dropWord? word rest else none

/-- The text without a leading verb. -/
def dropVerb (cs : List Char) : List Char :=
  (leadingVerbs.findSome? fun verb => dropWord? verb cs).getD cs

/-- The text without `suffix` at its end; a final line break may follow the suffix and stays. -/
def dropSuffix (suffix cs : List Char) : List Char :=
  if suffix.isSuffixOf cs then cs.take (cs.length - suffix.length)
  else if (suffix ++ ['\n']).isSuffixOf cs then cs.take (cs.length - suffix.length - 1) ++ ['\n']
  else cs

/-- The singular of a regular English plural. -/
def singularize (word : List Char) : List Char :=
  if ['i', 'e', 's'].isSuffixOf word then word.take (word.length - 3) ++ ['y']
  else if ['s'].isSuffixOf word && 1 < word.length then word.dropLast
  else word

/-- The text with its first character in upper case. -/
def upperFirst : List Char → List Char
  | [] => []
  | c :: rest => upperChar c ++ rest

/-- The noun of a path: its last segment that is no placeholder, in the singular. -/
def nounOfPath (path : List Char) : List Char :=
  let literal (segment : List Char) : Bool := !segment.isEmpty && segment.head? != some '\x7b'
  match ((splitAt '/' path).filter literal).getLast? with
  | none => ['I', 't', 'e', 'm']
  | some segment =>
    if segment = ['m', 'e'] then ['U', 's', 'e', 'r'] else upperFirst (singularize segment)

/-- The noun in an operation id: the id without a leading verb and without `All` and `ById`, in the
singular; nothing when no letter is left. -/
def nounOfId? (operationId : List Char) : Option (List Char) :=
  let body := dropSuffix ['B', 'y', 'I', 'd'] (dropSuffix ['A', 'l', 'l'] (dropVerb operationId))
  if lower body = ['m', 'e'] then some ['U', 's', 'e', 'r']
  else
    let single := singularize body
    let noun :=
      if ['A', 'l', 'l'].isPrefixOf single && 3 < single.length then single.drop 3 else single
    if noun.isEmpty then none else some (upperFirst noun)

/-- The singular noun of an operation. -/
def nounOf (operationId : Option String) (path : String) : String :=
  let fromId := match operationId with
    | some s => if s.isEmpty then none else nounOfId? s.toList
    | none => none
  String.ofList (fromId.getD (nounOfPath path.toList))

/-- A simple English plural. -/
def pluralize (noun : String) : String :=
  let cs := noun.toList
  let small := lower cs
  let ends (suffix : List Char) : Bool := suffix.isSuffixOf small
  let beforeLast := (small.dropLast.getLast?).getD ' '
  if cs.isEmpty then noun
  else if ends ['y'] && 1 < cs.length && !(['a', 'e', 'i', 'o', 'u'].contains beforeLast) then
    String.ofList (cs.dropLast ++ ['i', 'e', 's'])
  else if ends ['s'] || ends ['x'] || ends ['z'] || ends ['c', 'h'] || ends ['s', 'h'] then
    noun ++ "es"
  else noun ++ "s"

/-- A name as a key: lower case, with one underscore for each run of blanks. -/
def slugify (name : String) : String :=
  String.ofList (joinWith ['_'] (words (lower (trim name.toList))))

/-- A path as a key: underscores for slashes, none in front. -/
def pathToKey (path : String) : String :=
  let cs := path.toList.map fun c => if c = '/' then '_' else c
  String.ofList (cs.dropWhile (· == '_'))

end IntegrationCompiler
