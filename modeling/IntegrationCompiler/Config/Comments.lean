/-!
# Comments in JSON

Configuration may hold comments outside strings: from two slashes to the end of the line, and from
a slash and a star to a star and a slash. Main definition: `stripComments`.
-/

namespace IntegrationCompiler

/-- Where in a commented text a character stands. -/
inductive CommentMode where
  /-- Outside strings and comments. -/
  | plain
  /-- In a string. -/
  | inText
  /-- In a comment that ends with the line. -/
  | inLine
  /-- In a comment that ends with a star and a slash. -/
  | inBlock
  deriving DecidableEq, Repr

/-- What is left of a text whose first character stands in the given mode. A line break that ends a
comment stays. -/
def stripFrom : CommentMode → List Char → List Char
  | _, [] => []
  | .plain, '"' :: rest => '"' :: stripFrom .inText rest
  | .plain, '/' :: '*' :: rest => stripFrom .inBlock rest
  | .plain, '/' :: '/' :: rest => stripFrom .inLine rest
  | .plain, c :: rest => c :: stripFrom .plain rest
  | .inText, '"' :: rest => '"' :: stripFrom .plain rest
  | .inText, '\\' :: c :: rest => '\\' :: c :: stripFrom .inText rest
  | .inText, c :: rest => c :: stripFrom .inText rest
  | .inLine, '\n' :: rest => '\n' :: stripFrom .plain rest
  | .inLine, _ :: rest => stripFrom .inLine rest
  | .inBlock, '*' :: '/' :: rest => stripFrom .plain rest
  | .inBlock, _ :: rest => stripFrom .inBlock rest

/-- A text without its comments. -/
def stripComments (text : String) : String :=
  String.ofList (stripFrom .plain text.toList)

end IntegrationCompiler
