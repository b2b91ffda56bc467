import IntegrationCompiler.Text.Blank
import IntegrationCompiler.Text.Case

/-!
# Labels

Texts for people, made from field keys and summaries.

Main definitions:

* `formatLabel` — a key as words: `payee_name` and `payeeName` are both "Payee Name";
* `titleCase` — a label with capitals where a title has them.
-/

namespace IntegrationCompiler

open Text

/-- Underscores become spaces, and a space goes before every capital of the Latin alphabet. -/
def spaceOut (cs : List Char) : List Char :=
  cs.flatMap fun c =>
    if c = '_' then [' '] else if 'A' ≤ c && c ≤ 'Z' then [' ', c] else [c]

/-- The words of a key, each with a capital first letter. -/
def formatLabel (name : String) : String :=
  String.ofList (joinWith [' '] ((words (spaceOut name.toList)).map capitalize))

/-- Words that stay lower case inside a title. -/
def minorWords : List String := [
  "a", "an", "and", "as", "at", "but", "by", "for", "in", "nor", "of", "on", "or", "the", "to",
  "via", "per", "vs", "vs."]

/-- Abbreviations with their fixed spelling. -/
def acronyms : List (String × String) := [
  ("id", "ID"), ("url", "URL"), ("urls", "URLs"), ("api", "API"), ("http", "HTTP"),
  ("https", "HTTPS"), ("json", "JSON"), ("xml", "XML"), ("csv", "CSV"), ("pdf", "PDF"),
  ("html", "HTML"), ("css", "CSS"), ("js", "JS"), ("ui", "UI"), ("ux", "UX"), ("ip", "IP"),
  ("dns", "DNS"), ("ssl", "SSL"), ("tls", "TLS"), ("oauth", "OAuth"), ("oauth2", "OAuth2"),
  ("jwt", "JWT"), ("rest", "REST"), ("soap", "SOAP"), ("gdp", "GDP"), ("gdpr", "GDPR"),
  ("crm", "CRM"), ("erp", "ERP"), ("sdk", "SDK"), ("sso", "SSO")]

/-- Whether `c` is punctuation that may end a word. -/
def isTrailingMark (c : Char) : Bool :=
  ['.', ',', '!', '?', ';', ':'].contains c

/-- The punctuation at the end of a word. -/
def trailingMarks (word : List Char) : List Char :=
  (word.reverse.takeWhile isTrailingMark).reverse

/-- The word before its trailing punctuation. -/
def withoutMarks (word : List Char) : List Char :=
  (word.reverse.dropWhile isTrailingMark).reverse

/-- One word of a title: abbreviations have their own spelling, minor words stay small unless they
come first, other words get a capital. Punctuation at the end is kept. -/
def titleWord (first : Bool) (word : List Char) : List Char :=
  let body := withoutMarks word
  if body.isEmpty then word
  else
    let small := lower body
    match acronyms.lookup (String.ofList small) with
    | some spelling => spelling.toList ++ trailingMarks word
    | none =>
      if !first && minorWords.contains (String.ofList small) then small ++ trailingMarks word
      else capitalize body ++ trailingMarks word

/-- The words of a title, the first one apart from the others. -/
def titleWords : List (List Char) → List (List Char)
  | [] => []
  | word :: rest => titleWord true word :: rest.map (titleWord false)

/-- A label in title case; its words end up one space apart. -/
def titleCase (text : String) : String :=
  String.ofList (joinWith [' '] (titleWords (words text.toList)))

end IntegrationCompiler
