import IntegrationCompiler.Diagnostics.Failure
import IntegrationCompiler.Json.Reader
import IntegrationCompiler.Text.Case
import IntegrationCompiler.Text.Search
import IntegrationCompiler.Yaml.Document

/-!
# The content of a source

From the text of a document to its entries, and the check of its version.

Main definitions:

* `Format`, `Format.ofMarker?` — the two formats, as a suffix or a media type announces them;
* `RawDocument` — what is read: entries, or a mapping for which no tree stands;
* `parseContent` — the document of a text in a known or unknown format;
* `supportedVersion` — the version of a document, if it can be compiled.
-/

namespace IntegrationCompiler

/-- The format of a text. -/
inductive Format where
  | json
  | yaml
  deriving DecidableEq, Repr

/-- The name of a format. -/
def Format.name : Format → String
  | .json => "json"
  | .yaml => "yaml"

/-- The format with the given name. -/
def Format.ofName? (name : String) : Option Format :=
  [Format.json, .yaml].find? (·.name == name)

/-- The format that a suffix or a media type announces. -/
def Format.ofMarker? (marker : String) : Option Format :=
  let cs := Text.lower marker.toList
  if Text.hasInfix "json".toList cs then some .json
  else if Text.hasInfix "yaml".toList cs || Text.hasInfix "yml".toList cs then some .yaml
  else none

/-- The name of the kind of a scalar. -/
def Scalar.kindName : Scalar → String
  | .null => "empty document"
  | .bool _ => "bool"
  | .int _ => "int"
  | .float _ => "float"
  | .str _ => "str"
  | .date _ => "date"
  | .moment _ => "datetime"
  | .bytes _ => "bytes"

/-- The name of the kind of a value, as the message about a document that is no mapping has it. -/
def Value.kindName : Value → String
  | .scalar s => s.kindName
  | .list _ => "list"
  | .map _ => "dict"
  | .set _ => "set"

/-! ## Documents -/

/-- A document as it is read. -/
inductive RawDocument where
  | entries (es : Entries)
  /-- A mapping for which no tree of values stands: a mapping or a list in it is inside itself, or
  half of a surrogate pair stands in a text. What is in it is not told. -/
  | treeless
  deriving Repr

namespace RawDocument

/-- The document that is a value, which has to be a mapping. -/
def ofValue (v : Value) : Except Failure RawDocument :=
  match v with
  | .map es => .ok (.entries es)
  | other => .error (.source (.notObject other.kindName))

/-- The document that JSON reads as a value. -/
def ofJson (content : String) (v : Value) : Except Failure RawDocument := do
  let document ← ofValue v
  .ok (if Json.holdsHalf content.toList then .treeless else document)

/-- The document of a kind for which no tree stands. -/
def ofTreeless (root : Yaml.Tag) : Except Failure RawDocument :=
  match root with
  | .map => .ok .treeless
  | .set => ofValue (.set [])
  | .str => ofValue (.str "")
  | _ => ofValue (.list [])

/-- What is told of a document, as its entries. -/
instance : Coe RawDocument Entries where
  coe
    | .entries es => es
    | .treeless => []

/-- The entries of a document. One without a tree cannot be searched. -/
def found : RawDocument → Except Failure Entries
  | .entries es => .ok es
  | .treeless => .error .malformed

end RawDocument

/-- Reads YAML, after JSON was tried and failed for the given reason. -/
def parseYamlContent (content : String) (tried : Option Json.ReadError) :
    Except Failure RawDocument :=
  match Yaml.parse content with
  | .ok v => RawDocument.ofValue v
  | .error .invalid => .error (.source (.notJsonNorYaml tried))
  | .error .noSuchValue => .error .malformed
  | .error (.treeless root) => RawDocument.ofTreeless root

/-- The document of a text. In an unknown format JSON is tried before YAML. -/
def parseContent (content : String) (format : Option Format) : Except Failure RawDocument :=
  if format = some .yaml then parseYamlContent content none
  else
    match Json.parse content with
    | .ok v => RawDocument.ofJson content v
    | .error (.integerTooLong _) => .error .malformed
    | .error error =>
      if format = some .json then .error (.source (.notJson error))
      else parseYamlContent content (some error)

/-! ## Versions -/

/-- Whether a version is 3.0 or 3.1, with any third number. -/
def isSupportedVersion (cs : List Char) : Bool :=
  match cs with
  | '3' :: '.' :: minor :: patch =>
    (minor == '0' || minor == '1') && match patch with
      | [] => true
      | '.' :: digits => !digits.isEmpty && digits.all fun c => (Text.digitValue? c).isSome
      | _ => false
  | _ => false

/-- The version that a document declares, if it is one that can be compiled. -/
def supportedVersion (document : Entries) : Except Failure String :=
  match document.get? "swagger" with
  | some version => do
    let text ← orMalformed version.text?
    .error (.source (.oldFormat text))
  | none =>
    match document.get? "openapi" with
    | none => .error (.source .versionMissing)
    | some version => do
      let text ← orMalformed version.text?
      let cs := Text.trim text.toList
      let text := String.ofList cs
      if isSupportedVersion cs then .ok text else .error (.source (.versionUnsupported text))

end IntegrationCompiler
