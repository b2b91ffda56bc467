import IntegrationCompiler.Files.Path
import IntegrationCompiler.Source.Digest
import IntegrationCompiler.Text.Utf8

/-!
# The cache of fetched documents

The texts of fetched documents, kept under the digests of their addresses. A store on the disk keeps
them; which store that is, is a parameter, and what is relied on are its laws.

Main definitions:

* `TextStore`, `TextStore.Lawful` — a store of texts under keys, and its laws;
* `TextStore.onDisk` — the store that programs use;
* `TextCache.key`, `TextCache.get?`, `TextCache.set`, `TextCache.invalidate`, `TextCache.clear` —
  a cache over a store;
* `SchemaCache` — the cache that programs use.
-/

namespace IntegrationCompiler

/-! ## Stores -/

/-- A store of texts under keys. -/
structure TextStore where
  /-- What the store holds at some time. -/
  State : Type
  /-- The state of a store in a new directory. -/
  fresh : State
  get? : State → (key : String) → Option String
  set : State → (key text : String) → State
  delete : State → (key : String) → State
  clear : State → State
  /-- What is read back of a text. -/
  reread : String → String

namespace TextStore

/-- How many characters a text has at least that is kept in a file of its own. -/
def fileSize : Nat := 32768

/-- A text whose lines all end in a line feed. -/
def withNewlines (text : String) : String :=
  String.ofList (Text.unifyNewlines text.toList)

/-- The laws of a store that is not full: each key has the text that was set last, if it was not
deleted since. A text that is kept in a file may come back with the ends of its lines changed. -/
structure Lawful (D : TextStore) : Prop where
  get?_fresh (key : String) : D.get? D.fresh key = none
  get?_set (s : D.State) (key text other : String) : D.get? (D.set s key text) other =
    if other = key then some (D.reread text) else D.get? s other
  get?_delete (s : D.State) (key other : String) : D.get? (D.delete s key) other =
    if other = key then none else D.get? s other
  get?_clear (s : D.State) (key : String) : D.get? (D.clear s) key = none
  reread_eq (text : String) : D.reread text = text ∨
    fileSize ≤ text.length ∧ D.reread text = withNewlines text

/-- What is read back of a text where files are read as text, whose lines end in one way. -/
def readBack (text : String) : String :=
  if text.length < fileSize then text else withNewlines text

/-- A store of entries, the ones that were set last in front. -/
def onDisk : TextStore where
  State := List (String × String)
  fresh := []
  get? entries key := (entries.lookup key).map readBack
  set entries key text := (key, text) :: entries
  delete entries key := entries.filter fun (other, _) => other != key
  clear _ := []
  reread := readBack

end TextStore

/-! ## The cache -/

/-- Texts under the keys of the addresses that they were fetched from. -/
structure TextCache (D : TextStore) where
  entries : D.State

namespace TextCache

variable {D : TextStore}

/-- The key of an address: its digest. -/
def key (url : String) : String :=
  Sha256.hexDigest url

/-- A cache in a new directory. -/
def empty : TextCache D :=
  ⟨D.fresh⟩

/-- The text kept for an address. -/
def get? (c : TextCache D) (url : String) : Option String :=
  D.get? c.entries (key url)

/-- The cache with a text for an address, in the place of an older one. -/
def set (c : TextCache D) (url text : String) : TextCache D :=
  ⟨D.set c.entries (key url) text⟩

/-- The cache without a text for an address. -/
def invalidate (c : TextCache D) (url : String) : TextCache D :=
  ⟨D.delete c.entries (key url)⟩

/-- The cache without any text. -/
def clear (c : TextCache D) : TextCache D :=
  ⟨D.clear c.entries⟩

end TextCache

/-- The cache that programs use. -/
abbrev SchemaCache := TextCache .onDisk

/-- Where a cache keeps its documents in a directory. -/
def SchemaCache.directory (parent : Path) : Path :=
  parent.child "schemas"

end IntegrationCompiler
