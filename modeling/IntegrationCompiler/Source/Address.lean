import IntegrationCompiler.Text.Blank

/-!
# Web addresses

Where a reference found at an address leads. Main definition: `Address.follow`.
-/

namespace IntegrationCompiler.Address

/-- Whether a text begins with another one. -/
def startsWith (word : String) (s : String) : Bool :=
  word.toList.isPrefixOf s.toList

/-- Whether a source is fetched from the web. -/
def isWeb (source : String) : Bool :=
  startsWith "http://" source || startsWith "https://" source

/-- An address in parts: scheme and authority, path, and what follows it. -/
structure Parts where
  origin : List Char
  path : List Char
  /-- The query with its question mark, if there is one. -/
  query : List Char
  /-- The fragment with its number sign, if there is one. -/
  fragment : List Char

/-- Path, query and fragment of a reference. -/
def splitReference (cs : List Char) : Parts where
  origin := []
  path := cs.takeWhile fun c => c != '?' && c != '#'
  query := (cs.dropWhile fun c => c != '?' && c != '#').takeWhile (· != '#')
  fragment := cs.dropWhile (· != '#')

/-- The number of characters of scheme and authority. -/
def originLength (cs : List Char) : Nat :=
  let scheme := cs.takeWhile (· != ':')
  let rest := cs.drop (scheme.length + 3)
  scheme.length + 3 + (rest.takeWhile fun c => c != '/' && c != '?' && c != '#').length

/-- The parts of an address. -/
def split (cs : List Char) : Parts :=
  let n := originLength cs
  { splitReference (cs.drop n) with origin := cs.take n }

/-- Whether a reference is an address of its own, with scheme and authority. -/
def isWhole (cs : List Char) : Bool :=
  let scheme := cs.takeWhile (· != ':')
  !scheme.isEmpty && scheme.all Char.isAlphanum && (cs.drop scheme.length).take 3 == [':', '/', '/']

/-- One segment of a path after those before it, nearest first: a point stays where it is, two
points go back. -/
def step (before : List (List Char)) (segment : List Char) : List (List Char) :=
  if segment == ['.', '.'] then before.drop 1
  else if segment == ['.'] then before
  else segment :: before

/-- A path without points for here and for back. -/
def normalize (segments : List (List Char)) : List Char :=
  let resolved := (segments.foldl step []).reverse
  let last := segments.getLast?
  let ended := if last == some ['.'] || last == some ['.', '.'] then resolved ++ [[]] else resolved
  let path := Text.joinWith ['/'] ended
  if path.isEmpty then ['/'] else path

/-- Empty segments between the first and the last one left out. -/
def dropInnerEmpty : List (List Char) → List (List Char)
  | [] => []
  | first :: rest =>
    match rest.getLast? with
    | none => [first]
    | some last => first :: rest.dropLast.filter (fun s => !s.isEmpty) ++ [last]

/-- The path that a reference with a path names from a place. -/
def followPath (place path : List Char) : List Char :=
  if path.head? == some '/' then normalize (Text.splitAt '/' path)
  else
    let directory := (Text.splitAt '/' place).dropLast
    let directory := if directory.isEmpty then [[]] else directory
    normalize (dropInnerEmpty (directory ++ Text.splitAt '/' path))

/-- The address that a reference names, seen from another address. The fragment of that one stays
unless the reference has its own. -/
def follow (base reference : String) : String :=
  let b := split base.toList
  let cs := reference.toList
  let whole :=
    if isWhole cs then cs
    else if ['/', '/'].isPrefixOf cs then b.origin.takeWhile (· != ':') ++ ':' :: cs
    else
      let r := splitReference cs
      if r.path.isEmpty then
        b.origin ++ b.path ++ (if r.query.isEmpty then b.query else r.query) ++ r.fragment
      else b.origin ++ followPath b.path r.path ++ r.query ++ r.fragment
  String.ofList (if whole.contains '#' then whole else whole ++ b.fragment)

end IntegrationCompiler.Address
