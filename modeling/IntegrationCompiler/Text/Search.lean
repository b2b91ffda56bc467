/-!
# Searching in a text

Main definitions: `hasInfix`, `splitOnce?`, `replaceAll`.
-/

namespace IntegrationCompiler.Text

/-- Whether `needle` occurs in a text. -/
def hasInfix (needle : List Char) : List Char → Bool
  | [] => needle.isEmpty
  | c :: rest => needle.isPrefixOf (c :: rest) || hasInfix needle rest

/-- The text before and after the first `sep`. -/
def splitOnce? (sep : Char) (cs : List Char) : Option (List Char × List Char) :=
  match cs.dropWhile (· != sep) with
  | [] => none
  | _ :: rest => some (cs.takeWhile (· != sep), rest)

/-- The text with every occurrence of `needle` replaced, from left to right; `skip` characters of
the text belong to an occurrence that is replaced already. -/
def replaceFrom (needle new : List Char) : Nat → List Char → List Char
  | _, [] => []
  | skip + 1, _ :: rest => replaceFrom needle new skip rest
  | 0, c :: rest =>
    if needle.isPrefixOf (c :: rest) then new ++ replaceFrom needle new (needle.length - 1) rest
    else c :: replaceFrom needle new 0 rest

/-- The text with every occurrence of `needle`, which is not empty, replaced. -/
def replaceAll (needle new cs : List Char) : List Char :=
  replaceFrom needle new 0 cs

end IntegrationCompiler.Text
