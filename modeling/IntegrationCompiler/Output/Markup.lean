import IntegrationCompiler.Text.Blank
import IntegrationCompiler.Text.Case
import IntegrationCompiler.Text.Search

/-!
# Markup

Text may be marked up with tags in brackets: a tag opens a style, and a tag with a slash closes it.
A backslash in front of a tag makes it plain text. Styles are not shown here, so all that is left of
the tags is that they have to match.

Main definitions:

* `markupParts` — a text as plain parts and tags;
* `plainText?` — what is shown of a text, if every closing tag has an opening one.
-/

namespace IntegrationCompiler.Output

/-- A part of a text with markup. -/
inductive MarkupPart where
  | text (cs : List Char)
  | tag (name : List Char)
  deriving DecidableEq, Repr

/-- Whether a character can be the first one of a tag. -/
def startsTag (c : Char) : Bool :=
  ('a' ≤ c && c ≤ 'z') || c == '#' || c == '/' || c == '@'

/-- What stands between the brackets of the tag at the start of a text, and the text after it. -/
def tag? : List Char → Option (List Char × List Char)
  | '[' :: c :: rest =>
    let inside (d : Char) : Bool := d != '[' && d != ']'
    match rest.dropWhile inside with
    | ']' :: after => if startsTag c then some (c :: rest.takeWhile inside, after) else none
    | _ => none
  | _ => none

/-- A part of plain text, in which a backslash in front of a bracket is not shown. -/
def plainPart (cs : List Char) : MarkupPart :=
  .text (Text.replaceAll ['\\', '['] ['['] cs)

/-- The name of a tag, without what is given after an equals sign. -/
def tagName (inner : List Char) : List Char :=
  inner.takeWhile (· != '=')

/-- The parts of a text of at most `fuel` characters; `plain` holds, reversed, the plain part that
is being read, and `slashes` counts the backslashes after it. -/
def partsFrom (plain : List Char) (slashes : Nat) : Nat → List Char → List MarkupPart
  | 0, _ => []
  | _ + 1, [] => [plainPart (plain.reverse ++ List.replicate slashes '\\')]
  | fuel + 1, c :: rest =>
    if c = '\\' then partsFrom plain (slashes + 1) fuel rest
    else
      match tag? (c :: rest) with
      | none => partsFrom (c :: List.replicate slashes '\\' ++ plain) 0 fuel rest
      | some (inner, after) =>
        let before := [plainPart plain.reverse, plainPart (List.replicate (slashes / 2) '\\')]
        let part := if slashes % 2 = 1 then plainPart ('[' :: inner ++ [']']) else .tag (tagName inner)
        before ++ part :: partsFrom [] 0 fuel after

/-- A text as plain parts and tags. -/
def markupParts (cs : List Char) : List MarkupPart :=
  partsFrom [] 0 (cs.length + 1) cs

/-- The short names of styles, with the long ones. -/
def styleAliases : List (String × String) := [
  ("b", "bold"), ("i", "italic"), ("u", "underline"), ("uu", "underline2"), ("d", "dim"),
  ("r", "reverse"), ("s", "strike"), ("o", "overline"), ("c", "conceal")]

/-- The long name of a style, without regard to letter case and blanks around it. -/
def styleName (cs : List Char) : List Char :=
  let name := Text.lower (Text.trim cs)
  match styleAliases.lookup (String.ofList name) with
  | some long => long.toList
  | none => name

/-- The styles that are still open after a tag, the last one first. A slash alone closes the last
style, a slash with a name the last one of that name. -/
def openAfter? (styles : List (List Char)) (name : List Char) : Option (List (List Char)) :=
  match name with
  | '/' :: closed =>
    match Text.trim closed, styles with
    | [], [] => none
    | [], _ :: rest => some rest
    | named, styles =>
      if styles.contains (styleName named) then some (styles.erase (styleName named)) else none
  | _ => some (styleName name :: styles)

/-- What is shown of some parts, where some styles are open. -/
def shownParts? (styles : List (List Char)) : List MarkupPart → Option (List Char)
  | [] => some []
  | .text cs :: rest => (shownParts? styles rest).map (cs ++ ·)
  | .tag name :: rest => (openAfter? styles name).bind fun styles => shownParts? styles rest

/-- Whether a character is a control that screens act on; it is never shown. -/
def isScreenControl (c : Char) : Bool :=
  ['\x07', '\x08', '\x0b', '\x0c', '\r'].contains c

/-- What is shown of a text with markup, if every closing tag has an opening one. -/
def plainText? (cs : List Char) : Option (List Char) :=
  let shown := if cs.contains '[' then shownParts? [] (markupParts cs) else some cs
  shown.map fun cs => cs.filter fun c => !isScreenControl c

end IntegrationCompiler.Output
