import IntegrationCompiler.Source.Address
import IntegrationCompiler.Text.Case
import IntegrationCompiler.Text.Utf8

/-!
# Fetching

Asking a server for a document, and following its redirections.

Main definitions:

* `Server` — what is answered at each address;
* `fetch` — the final answer to a request;
* `Reply.text` — the text of an answer.
-/

namespace IntegrationCompiler

/-- What a server sends back. -/
structure Reply where
  status : Int := 200
  headers : List (String × String) := []
  body : String := ""
  deriving DecidableEq, Repr

/-- What comes of a request. -/
inductive Answer where
  | reply (r : Reply)
  | unreachable (reason : String)
  deriving DecidableEq, Repr

/-- What is answered at each address. -/
abbrev Server := List (String × Answer)

namespace Reply

/-- The values of a header, whose name is not case sensitive. -/
def headerValues (r : Reply) (name : String) : List String :=
  (r.headers.filter fun (key, _) => Text.lower key.toList == Text.lower name.toList).map (·.2)

/-- The value of a header; several values of one name stand between commas. -/
def header? (r : Reply) (name : String) : Option String :=
  match r.headerValues name with
  | [] => none
  | values => some (", ".intercalate values)

/-- The media type that an answer announces. -/
def contentType (r : Reply) : String :=
  (r.header? "content-type").getD ""

/-- The statuses that send to another address. -/
def redirectStatuses : List Int := [301, 302, 303, 307, 308]

/-- The address to which an answer sends. -/
def redirection? (r : Reply) : Option String :=
  if redirectStatuses.contains r.status then r.header? "location" else none

/-- Whether an answer reports success. -/
def isSuccess (r : Reply) : Bool :=
  200 ≤ r.status && r.status ≤ 299

/-- The name of the encoding that a media type announces, without case and separators. -/
def charsetName (mediaType : String) : List Char :=
  let parts := (Text.splitAt ';' (Text.lower mediaType.toList)).map Text.trim
  let marker := "charset=".toList
  match parts.find? (marker.isPrefixOf ·) with
  | none => []
  | some part => (part.drop marker.length).filter fun c => c != '-' && c != '_' && c != '"'

/-- Octets read one by one. -/
def singleOctets (highest : Nat) (octets : List UInt8) : List Char :=
  octets.map fun b => if b.toNat ≤ highest then Char.ofNat b.toNat else '\ufffd'

/-- The text of an answer, which is sent as UTF-8 and read as it is announced. -/
def text (r : Reply) : String :=
  let octets := Text.Utf8.encode r.body
  let name := charsetName r.contentType
  if ["latin1".toList, "iso88591".toList, "l1".toList].contains name then
    String.ofList (singleOctets 0xFF octets)
  else if ["ascii".toList, "usascii".toList].contains name then
    String.ofList (singleOctets 0x7F octets)
  else r.body

end Reply

/-- What is answered at an address; where nothing is, it cannot be reached. -/
def Server.answer (s : Server) (url : String) : Answer :=
  (s.lookup url).getD (.unreachable "unreachable")

/-- How many redirections are followed. -/
def maxRedirects : Nat := 20

/-- The final answer to a request, where at most `left` redirections are followed. -/
def fetchWithin (s : Server) : Nat → String → Answer
  | left, url =>
    match s.answer url with
    | .unreachable reason => .unreachable reason
    | .reply r =>
      match r.redirection? with
      | none => .reply r
      | some location =>
        match left with
        | 0 => .unreachable "Exceeded maximum allowed redirects."
        | left + 1 => fetchWithin s left (Address.follow url location)

/-- The final answer to a request. -/
def fetch (s : Server) (url : String) : Answer :=
  fetchWithin s maxRedirects url

end IntegrationCompiler
