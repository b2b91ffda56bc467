import IntegrationCompiler.Yaml.Tag
import IntegrationCompiler.Yaml.Token

/-!
# Nodes of a YAML document

The tree that tokens describe. A name for a node stands for a copy of it.

Main definitions:

* `Node` — scalars by their text, lists and mappings, each with its kind;
* `Node.ofTokens?` — the only document of a text.
-/

namespace IntegrationCompiler.Yaml

/-- A node. -/
inductive Node where
  /-- A scalar; `halved` says whether half of a surrogate pair stands in its text. -/
  | scalar (tag : Tag) (text : String) (halved : Bool)
  | list (tag : Tag) (items : List Node)
  | map (tag : Tag) (entries : List (Node × Node))
  /-- A collection inside itself: the one that encloses this place, or the one so many steps further
  out. -/
  | endless (out : Nat)
  deriving Repr, Inhabited

/-- The kind of a node. -/
def Node.tag : Node → Tag
  | .scalar t _ _ => t
  | .list t _ => t
  | .map t _ => t
  | .endless _ => .unknown

/-- The empty scalar. -/
def Node.empty : Node := .scalar .null "" false

/-- What a name stands for. -/
inductive Named where
  | node (n : Node)
  /-- A node that is not at its end, with the number of collections around it. -/
  | opened (around : Nat)

/-- What is left to read, how many collections are open, what the names of nodes stand for, and what
the handles of tags stand for. -/
structure Pending where
  tokens : List Token
  depth : Nat
  anchors : List (String × Named)
  handles : List (String × String)

/-- A step that takes tokens. -/
abbrev Parse := StateT Pending (Except Stop)

namespace Parse

/-- The next token. -/
def peek : Parse Token := do
  match (← get).tokens with
  | .broken stop :: _ => throw stop
  | t :: _ => pure t
  | [] => pure .finish

/-- Takes a token. -/
def skip : Parse Unit :=
  modify fun p => { p with tokens := p.tokens.drop 1 }

/-- Takes the next token if it is `t`, and says whether it was. -/
def accept (t : Token) : Parse Bool := do
  if (← peek) == t then
    skip
    pure true
  else pure false

/-- Takes the token `t`, which has to be next. -/
def expect (t : Token) : Parse Unit := do
  if !(← accept t) then throw .invalid

/-- An anchor, if one is next. -/
def anchor? : Parse (Option String) := do
  match ← peek with
  | .anchor name =>
    skip
    pure (some name)
  | _ => pure none

/-- A tag, if one is next, with its handle expanded. -/
def tag? : Parse (Option String) := do
  match ← peek with
  | .tag handle suffix =>
    skip
    match handle with
    | none => pure (some suffix)
    | some handle =>
      match (← get).handles.lookup handle with
      | some expansion => pure (some (expansion ++ suffix))
      | none => throw .invalid
  | _ => pure none

/-- The kind of a collection: as its tag says, or the usual one. -/
def collectionTag (usual : Tag) : Option String → Tag
  | none => usual
  | some "!" => usual
  | some name => Tag.ofName name

/-- A scalar: its tag decides, or its spelling if it is plain. -/
def scalarNode (tag : Option String) (text : String) (style : Style) : Node :=
  let kind := match tag with
    | none => if style = .plain then Tag.ofSpelling text else .str
    | some "!" => Tag.ofSpelling text
    | some name => Tag.ofName name
  .scalar kind text (style = .halved)

/-- The empty scalar where an anchor or a tag announces a node. -/
def orEmpty (anchor tag : Option String) : Parse Node :=
  if anchor.isSome || tag.isSome then pure (scalarNode tag "" .plain) else throw .invalid

/-- Opens the node with the given anchor, which has to be new. -/
def openAnchor (anchor : Option String) : Parse Unit := do
  match anchor with
  | none => pure ()
  | some name =>
    if ((← get).anchors.lookup name).isSome then throw .invalid
    else modify fun p => { p with anchors := (name, .opened p.depth) :: p.anchors }

/-- Ends the node with the given anchor. -/
def closeAnchor (anchor : Option String) (n : Node) : Parse Node := do
  match anchor with
  | none => pure ()
  | some name => modify fun p => { p with anchors := (name, .node n) :: p.anchors }
  pure n

/-- The node that was given a name. -/
def named (name : String) : Parse Node := do
  let p ← get
  match p.anchors.lookup name with
  | none => throw .invalid
  | some (.opened around) => pure (.endless (p.depth - around - 1))
  | some (.node n) => pure n

/-- Reads what a collection holds. -/
def inside {α : Type} (x : Parse α) : Parse α := do
  modify fun p => { p with depth := p.depth + 1 }
  let a ← x
  modify fun p => { p with depth := p.depth - 1 }
  pure a

/-- Where a node stands, which decides what it may be. -/
inductive Place where
  | flow
  | block
  /-- A key or value of a block mapping, where a list need not be indented. -/
  | entry
  deriving DecidableEq

mutual

/-- A node. -/
def node (place : Place) : Nat → Parse Node
  | 0 => throw .invalid
  | fuel + 1 => do
    match ← peek with
    | .alias name =>
      skip
      named name
    | _ =>
      let early ← anchor?
      let tag ← tag?
      let anchor ← if early.isSome then pure early else (if tag.isSome then anchor? else pure none)
      -- what follows the anchor is looked at before its name is
      let first ← peek
      openAnchor anchor
      let n ← match first with
        | .blockEntry =>
          if place = .entry then do
            let items ← inside (looseItems fuel)
            pure (Node.list (collectionTag .list tag) items)
          else orEmpty anchor tag
        | .scalar text style => do
          skip
          pure (scalarNode tag text style)
        | .flowListStart => do
          skip
          let items ← inside (flowItems true fuel)
          pure (Node.list (collectionTag .list tag) items)
        | .flowMapStart => do
          skip
          let entries ← inside (flowEntries true fuel)
          pure (Node.map (collectionTag .map tag) entries)
        | .blockListStart =>
          if place = .flow then orEmpty anchor tag
          else do
            skip
            let items ← inside (blockItems fuel)
            pure (Node.list (collectionTag .list tag) items)
        | .blockMapStart =>
          if place = .flow then orEmpty anchor tag
          else do
            skip
            let entries ← inside (blockEntries fuel)
            pure (Node.map (collectionTag .map tag) entries)
        | _ => orEmpty anchor tag
      closeAnchor anchor n

/-- The items of an indented list. -/
def blockItems : Nat → Parse (List Node)
  | 0 => throw .invalid
  | fuel + 1 => do
    if ← accept .blockEntry then
      let item ← match ← peek with
        | .blockEntry | .blockEnd => pure Node.empty
        | _ => node .block fuel
      let rest ← blockItems fuel
      pure (item :: rest)
    else
      expect .blockEnd
      pure []

/-- The items of a list that stands at the column of the key before it. -/
def looseItems : Nat → Parse (List Node)
  | 0 => throw .invalid
  | fuel + 1 => do
    if ← accept .blockEntry then
      let item ← match ← peek with
        | .blockEntry | .key | .value | .blockEnd => pure Node.empty
        | _ => node .block fuel
      let rest ← looseItems fuel
      pure (item :: rest)
    else pure []

/-- The entries of a block mapping. -/
def blockEntries : Nat → Parse (List (Node × Node))
  | 0 => throw .invalid
  | fuel + 1 => do
    if ← accept .key then
      let key ← blockPart fuel
      let value ← if ← accept .value then blockPart fuel else pure Node.empty
      let rest ← blockEntries fuel
      pure ((key, value) :: rest)
    else
      expect .blockEnd
      pure []

/-- A key or a value of a block mapping, which may be left out. -/
def blockPart : Nat → Parse Node
  | 0 => throw .invalid
  | fuel + 1 => do
    match ← peek with
    | .key | .value | .blockEnd => pure Node.empty
    | _ => node .entry fuel

/-- The items of a flow list. An item may be an entry, which makes a mapping of its own. -/
def flowItems (first : Bool) : Nat → Parse (List Node)
  | 0 => throw .invalid
  | fuel + 1 => do
    if ← accept .flowListEnd then pure []
    else
      if !first then expect .flowEntry
      match ← peek with
      | .flowListEnd =>
        skip
        pure []
      | .key => do
        skip
        let entry ← inside (singleEntry fuel)
        let rest ← flowItems false fuel
        pure (Node.map .map [entry] :: rest)
      | _ => do
        let item ← node .flow fuel
        let rest ← flowItems false fuel
        pure (item :: rest)

/-- The one entry of a mapping that is an item of a flow list. -/
def singleEntry : Nat → Parse (Node × Node)
  | 0 => throw .invalid
  | fuel + 1 => do
    let key ← flowPart .flowListEnd true fuel
    let value ← if ← accept .value then flowPart .flowListEnd false fuel else pure Node.empty
    pure (key, value)

/-- The entries of a flow mapping. A node alone is a key without a value. -/
def flowEntries (first : Bool) : Nat → Parse (List (Node × Node))
  | 0 => throw .invalid
  | fuel + 1 => do
    if ← accept .flowMapEnd then pure []
    else
      if !first then expect .flowEntry
      match ← peek with
      | .flowMapEnd =>
        skip
        pure []
      | .key => do
        skip
        let key ← flowPart .flowMapEnd true fuel
        let value ← if ← accept .value then flowPart .flowMapEnd false fuel else pure Node.empty
        let rest ← flowEntries false fuel
        pure ((key, value) :: rest)
      | _ => do
        let key ← node .flow fuel
        let rest ← flowEntries false fuel
        pure ((key, Node.empty) :: rest)

/-- A key or a value in a flow collection with the given closing bracket; it may be left out. -/
def flowPart (closing : Token) (isKey : Bool) : Nat → Parse Node
  | 0 => throw .invalid
  | fuel + 1 => do
    let next ← peek
    if next == closing || next == .flowEntry || (isKey && next == .value) then pure Node.empty
    else node .flow fuel

end

/-! ## Documents -/

/-- What handles stand for unless a directive says otherwise. -/
def usualHandles : List (String × String) := [("!", "!"), ("!!", standardTags)]

/-- Takes the directives before a document. A version may be given once and has to be 1.x, and each
handle may be declared once. -/
def directives (seenVersion : Bool) : Nat → Parse Unit
  | 0 => throw .invalid
  | fuel + 1 => do
    match ← peek with
    | .directive (.version major) =>
      skip
      if seenVersion || major != 1 then throw .invalid
      directives true fuel
    | .directive (.handle name expansion) =>
      skip
      if ((← get).handles.lookup name).isSome then throw .invalid
      modify fun p => { p with handles := (name, expansion) :: p.handles }
      directives seenVersion fuel
    | .directive .unknown =>
      skip
      directives seenVersion fuel
    | _ => pure ()

/-- The content of a document after its marker. -/
def content (fuel : Nat) : Parse Node := do
  match ← peek with
  | .directive _ | .documentStart | .documentEnd | .finish => pure Node.empty
  | _ => node .block fuel

/-- Takes markers that end a document. -/
def skipEnds : Nat → Parse Unit
  | 0 => pure ()
  | fuel + 1 => do
    if ← accept .documentEnd then skipEnds fuel

/-- The end of a text that holds one document. Another one is read up to its marker before it turns
out to be one too many. -/
def atEnd (fuel : Nat) : Parse Unit := do
  skipEnds fuel
  match ← peek with
  | .finish => skip
  | _ =>
    modify fun p => { p with handles := [] }
    directives false fuel
    let _ ← peek
    throw .invalid

/-- The one document of a text; none if the text holds nothing. -/
def document (fuel : Nat) : Parse (Option Node) := do
  let first ← match ← peek with
    | .finish => pure none
    | .directive _ | .documentStart => do
      directives false fuel
      modify fun p => { p with handles := p.handles ++ usualHandles }
      expect .documentStart
      some <$> content fuel
    | _ => do
      modify fun p => { p with handles := usualHandles }
      some <$> node .block fuel
  atEnd fuel
  pure first

end Parse

/-- The only document that the tokens of a text describe; none if there is none. -/
def Node.ofTokens? (tokens : List Token) : Read (Option Node) :=
  (Parse.document (3 * tokens.length + 8)).run' ⟨tokens, 0, [], []⟩

end IntegrationCompiler.Yaml
