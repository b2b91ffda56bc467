import IntegrationCompiler.Diagnostics.Failure
import IntegrationCompiler.Files.Path
import IntegrationCompiler.Text.Utf8

/-!
# Files

A tree of files, with the directory from which paths are followed.

Main definitions:

* `FileTree`, `FileTree.node?` — files and directories by their places;
* `FileTree.find` — what stands at a path;
* `FileTree.makeDirectories`, `FileTree.write`, `FileTree.remove` — changes; each says whether it
  could be made;
* `FileTree.read?`, `textOf` — the octets of a file, and octets as text.
-/

namespace IntegrationCompiler

/-- What stands at a place. -/
inductive FileNode where
  | file (octets : List UInt8)
  | directory
  deriving DecidableEq, Repr

/-- A place: the names that lead to it from the root. -/
abbrev Place := List String

/-- Files and directories. -/
structure FileTree where
  /-- The directory from which relative paths are followed. -/
  here : Place
  /-- Everything but the root. -/
  entries : List (Place × FileNode)
  deriving Repr

/-- Where a path leads. -/
inductive Destination where
  /-- A place in an existing directory, or the root. -/
  | place (p : Place)
  /-- The way leads through a place where there is no directory. -/
  | missing
  /-- A name on the way is longer than names can be. -/
  | tooLong
  /-- A name on the way holds a character that names cannot hold. -/
  | unnamable
  deriving DecidableEq, Repr

namespace FileTree

/-- What stands at a place. -/
def node? (t : FileTree) (p : Place) : Option FileNode :=
  if p.isEmpty then some .directory else t.entries.lookup p

/-- Whether there is a directory at a place. -/
def isDirectory (t : FileTree) (p : Place) : Bool :=
  t.node? p == some .directory

/-- How many octets a name may have. -/
def maxNameLength : Nat := 255

/-- The place to which names lead from a place. -/
def follow (t : FileTree) : Place → List String → Destination
  | p, [] => .place p
  | p, name :: rest =>
    if !t.isDirectory p then .missing
    else if name == ".." then follow t p.dropLast rest
    else if maxNameLength < name.utf8ByteSize then .tooLong
    else follow t (p ++ [name]) rest

/-- The place at which a path starts. -/
def start (t : FileTree) (path : Path) : Place :=
  if path.isAbsolute then [] else t.here

/-- Whether a path holds a character that names cannot hold. -/
def isUnnamable (path : Path) : Bool :=
  path.parts.any fun name => name.toList.contains '\x00'

/-- Where a path leads. -/
def destination (t : FileTree) (path : Path) : Destination :=
  if isUnnamable path then .unnamable else t.follow (t.start path) path.parts

/-- What stands at a path, if anything does. -/
def find (t : FileTree) (path : Path) : Option FileNode :=
  match t.destination path with
  | .place p => t.node? p
  | _ => none

/-- Puts something at a place, in the place of what stood there. -/
def put (t : FileTree) (p : Place) (node : FileNode) : FileTree :=
  { t with entries :=
      if (t.entries.lookup p).isSome then
        t.entries.map fun (q, old) => if q == p then (q, node) else (q, old)
      else t.entries ++ [(p, node)] }

/-- Makes the directories on the way along some names from a place, where there are none yet. -/
def makeAlong (t : FileTree) (p : Place) : List String → Option FileTree
  | [] => some t
  | name :: rest =>
    if name == ".." then makeAlong t p.dropLast rest
    else if maxNameLength < name.utf8ByteSize then none
    else
      match t.node? (p ++ [name]) with
      | some .directory => makeAlong t (p ++ [name]) rest
      | some (.file _) => none
      | none => makeAlong (t.put (p ++ [name]) .directory) (p ++ [name]) rest

/-- The tree with a directory at a path and on the way to it. -/
def makeDirectories (t : FileTree) (path : Path) : Option FileTree :=
  if isUnnamable path then none else t.makeAlong (t.start path) path.parts

/-- The tree with a file at a path, whose directory has to be there. -/
def write (t : FileTree) (path : Path) (octets : List UInt8) : Option FileTree :=
  match t.destination path with
  | .place p =>
    if t.isDirectory p || !t.isDirectory p.dropLast then none else some (t.put p (.file octets))
  | _ => none

/-- The tree without what stands at a place and under it. -/
def remove (t : FileTree) (p : Place) : FileTree :=
  { t with entries := t.entries.filter fun (q, _) => !p.isPrefixOf q }

/-- The tree without what stands under a place. -/
def clear (t : FileTree) (p : Place) : FileTree :=
  { t with entries := t.entries.filter fun (q, _) => !p.isPrefixOf q || q == p }

/-- Whether a path leads to its place by the name of that place: it ends neither in a step up nor
without any name. -/
def endsInName (path : Path) : Bool :=
  match path.parts.getLast? with
  | none => false
  | some name => name != ".."

/-- Whether anything stands at a path. A name that is too long cannot even be looked up. -/
def present? (t : FileTree) (path : Path) : Option Bool :=
  match t.destination path with
  | .tooLong => none
  | .place p => some (t.node? p).isSome
  | _ => some false

/-- Removes a directory with all that it holds, and says whether this could be done. A directory
that the path does not name is emptied, but stays. -/
def removeDirectory (t : FileTree) (path : Path) : Bool × FileTree :=
  match t.destination path with
  | .place p =>
    if !t.isDirectory p then (false, t)
    else if endsInName path then (true, t.remove p)
    else (false, t.clear p)
  | _ => (false, t)

/-- The octets of the file at a path, if there is a file. A name that is too long cannot even be
looked up. -/
def read? (t : FileTree) (path : Path) : Except Failure (Option (List UInt8)) :=
  match t.destination path with
  | .tooLong => .error .malformed
  | .place p =>
    match t.node? p with
    | some (.file octets) => .ok (some octets)
    | _ => .ok none
  | _ => .ok none

/-- All files, with their places. -/
def files (t : FileTree) : List (Place × List UInt8) :=
  t.entries.filterMap fun (p, node) => match node with
    | .file octets => some (p, octets)
    | .directory => none

/-- What stands under a place. -/
def under (t : FileTree) (p : Place) : List (Place × FileNode) :=
  t.entries.filter fun (q, _) => p.isPrefixOf q

/-- The tree with one more file, and with the directories on the way to it. -/
def withFile (t : FileTree) (path : Path) (octets : List UInt8) : FileTree :=
  let directory : Path := { path with parts := path.parts.dropLast }
  (((t.makeDirectories directory).bind (·.write path octets))).getD t

/-- The tree that holds only a working directory. -/
def withHere (path : Path) : FileTree :=
  let bare : FileTree := ⟨[], []⟩
  { (bare.makeAlong [] path.parts).getD bare with here := path.parts }

end FileTree

/-- Octets as text whose lines all end in a line feed. -/
def textOf (octets : List UInt8) : Except Text.Utf8.Fault (List Char) :=
  (Text.Utf8.decode octets).map Text.unifyNewlines

end IntegrationCompiler
