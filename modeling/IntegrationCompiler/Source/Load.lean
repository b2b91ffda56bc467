import IntegrationCompiler.Files.Basic
import IntegrationCompiler.Source.Cache
import IntegrationCompiler.Source.Content
import IntegrationCompiler.Source.Fetch

/-!
# Loading a document

A document comes from the web, from a file or from the standard input. Documents from the web are
kept in a cache, from which they are taken the next time.

Main definitions:

* `Origins` — what can be loaded from;
* `Loaded` — what comes of loading: the document or a failure, and the cache afterwards;
* `load` — the document of a source.
-/

namespace IntegrationCompiler

/-- What documents can be loaded from. -/
structure Origins where
  files : FileTree
  standardInput : String := ""
  server : Server := []

/-- How the cache is used. -/
inductive CacheUse where
  /-- Neither asked nor filled. -/
  | off
  /-- Only filled. -/
  | refresh
  /-- Asked first, and filled. -/
  | on
  deriving DecidableEq, Repr

/-- What comes of loading. -/
structure Loaded (D : TextStore) where
  document : Except Failure RawDocument
  cache : TextCache D
  /-- The addresses that were asked. -/
  fetched : List String := []
  log : Log := []

/-- Whether a text holds nothing but blanks. -/
def isBlankText (cs : List Char) : Bool :=
  (Text.trim cs).isEmpty

/-- The document that a text from the standard input holds. -/
def documentOfInput (text : String) : Except Failure RawDocument :=
  if isBlankText text.toList then .error (.source .noInput) else parseContent text none

/-- The document that a file holds, in the format that its name announces. -/
def documentOfFile (files : FileTree) (source : String) : Except Failure RawDocument := do
  let path := Path.ofText source
  match ← files.read? path with
  | none => .error (.source (.fileNotFound source))
  | some octets =>
    match textOf octets with
    | .error _ => .error .malformed
    | .ok cs =>
      if isBlankText cs then .error (.source (.fileEmpty source))
      else parseContent (String.ofList cs) (Format.ofMarker? path.suffix)

/-- The document that an answer holds, in the format that it announces. -/
def documentOfAnswer (url : String) : Answer → Except Failure (RawDocument × String)
  | .unreachable reason => .error (.connection url reason)
  | .reply r =>
    if r.isSuccess then do
      let document ← parseContent r.text (Format.ofMarker? r.contentType)
      .ok (document, r.text)
    else .error (.source (.status r.status url))

section

variable {D : TextStore}

/-- Fetches a document. The cache gets the text only when it is a document. -/
def loadFetched (server : Server) (url : String) (cache : TextCache D) (use : CacheUse) :
    Loaded D :=
  let log : Log := [⟨.info, "Fetching schema from " ++ url⟩]
  match documentOfAnswer url (fetch server url) with
  | .error f => { document := .error f, cache := cache, fetched := [url], log := log }
  | .ok (document, text) => {
    document := .ok document
    cache := if use = .off then cache else cache.set url text
    fetched := [url]
    log := log }

/-- Loads a document from the web or from the cache. -/
def loadWeb (server : Server) (url : String) (cache : TextCache D) (use : CacheUse) :
    Loaded D :=
  match if use = .on then cache.get? url else none with
  | some text => {
    document := parseContent text none
    cache := cache
    log := [⟨.debug, "Using cached schema for " ++ url⟩] }
  | none => loadFetched server url cache use

/-- Loads the document of a source: a hyphen stands for the standard input. -/
def load (origins : Origins) (source : String) (cache : TextCache D) (use : CacheUse) :
    Loaded D :=
  if source == "-" then { document := documentOfInput origins.standardInput, cache := cache }
  else if Address.isWeb source then loadWeb origins.server source cache use
  else { document := documentOfFile origins.files source, cache := cache }

end

end IntegrationCompiler
