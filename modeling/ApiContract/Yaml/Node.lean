import ApiContract.Yaml.Tag
import ApiContract.Yaml.Token

/-!
# The tree of a YAML document

`Node.ofTokens` builds the tree of the one document that a text may hold. Anchored nodes are put in
where an alias names them, so the tree has no sharing; an alias inside its own anchor is refused. A
missing term, such as the value of `key:`, is an empty plain scalar.
-/

namespace ApiContract.Yaml

inductive Node where
  | scalar (tag : Tag) (text : String)
  | sequence (tag : Tag) (items : List Node)
  | mapping (tag : Tag) (members : List (Node × Node))
  deriving Repr

namespace Node

def tag : Node → Tag
  | .scalar t _ | .sequence t _ | .mapping t _ => t

/-- An absent term. -/
def empty : Node := .scalar .null ""

/-- What is left of the tokens, and the names seen so far. -/
structure Progress where
  tokens : List Token
  /-- The fault that ended the tokens. -/
  fault : Option Fault
  handles : List (String × String)
  anchors : List (String × Node)

abbrev Build := StateT Progress (Except Fault)

def malformed {α : Type} : Build α := throw .malformed

/-- The next token. Behind the last one stands the fault of the scanner, if there was one. -/
def peek : Build (Option Token) := do
  let s ← get
  match s.tokens, s.fault with
  | t :: _, _ => return some t
  | [], some fault => throw fault
  | [], none => return none

def advance : Build Unit := modify fun s => { s with tokens := s.tokens.tail }

/-- Takes a token if it is the next one. -/
def skip (t : Token) : Build Bool := do
  if (← peek) == some t then
    advance
    return true
  else return false

def expect (t : Token) : Build Unit := do
  if !(← skip t) then malformed

/-- Whether the next token is one of these. -/
def isNext (ts : List Token) : Build Bool := do
  return (← peek).any ts.contains

def setAnchor (name : Option String) (node : Node) : Build Unit :=
  match name with
  | some name => modify fun s => { s with anchors := (name, node) :: s.anchors }
  | none => return ()

/-- The properties before a node: an anchor and a tag, in either order. -/
def properties : Build (Option String × Option String) := do
  let anchor : Build (Option String) := do
    match ← peek with
    | some (.anchor name) =>
      advance
      return some name
    | _ => return none
  let tag : Build (Option String) := do
    match ← peek with
    | some (.tag none suffix) =>
      advance
      return some suffix
    | some (.tag (some handle) suffix) =>
      match (← get).handles.lookup handle with
      | some expansion =>
        advance
        return some (expansion ++ suffix)
      | none => malformed
    | _ => return none
  match ← anchor with
  | some name => return (some name, ← tag)
  | none =>
    match ← tag with
    | some t => return (← anchor, some t)
    | none => return (none, none)

/-- The tag of a collection: the one written, or `default` for none and for `!`. -/
def collectionTag (default : Tag) : Option String → Tag
  | none | some "!" => default
  | some uri => Tag.ofUri uri

/-- The tag of a scalar: without one a plain text is recognised by its form and a quoted text is a
text; under `!` every text is recognised by its form. -/
def scalarTag (text : String) (plain : Bool) : Option String → Tag
  | none => if plain then Tag.ofPlain text else .str
  | some "!" => Tag.ofPlain text
  | some uri => Tag.ofUri uri

mutual

/-- A node. Blocks may open only where `block` allows it, and a list that is not indented further
than its key only where `unindented` does. -/
def node (block unindented : Bool) : (fuel : Nat) → Build Node
  | 0 => malformed
  | fuel + 1 => do
    match ← peek with
    | some (.alias name) =>
      advance
      match (← get).anchors.lookup name with
      | some n => return n
      | none => malformed
    | _ =>
      let (anchor, tag) ← properties
      let known := (← get).anchors
      if anchor.any fun name => (known.lookup name).isSome then malformed
      let found ←
        match ← peek with
        | some .blockEntry =>
          if unindented then
            .sequence (collectionTag .seq tag) <$> unindentedEntries fuel
          else emptyNode anchor tag
        | some (.scalar text plain) => do
          advance
          pure (.scalar (scalarTag text plain tag) text)
        | some .flowSequenceStart => do
          advance
          .sequence (collectionTag .seq tag) <$> flowItems true fuel
        | some .flowMappingStart => do
          advance
          .mapping (collectionTag .map tag) <$> flowMembers true fuel
        | some .blockSequenceStart =>
          if block then do
            advance
            .sequence (collectionTag .seq tag) <$> blockEntries fuel
          else emptyNode anchor tag
        | some .blockMappingStart =>
          if block then do
            advance
            .mapping (collectionTag .map tag) <$> blockMembers fuel
          else emptyNode anchor tag
        | _ => emptyNode anchor tag
      setAnchor anchor found
      return found

/-- A node of which only the properties are written. -/
def emptyNode (anchor tag : Option String) : Build Node :=
  if anchor.isSome || tag.isSome then
    return .scalar (scalarTag "" (tag.isNone) tag) ""
  else malformed

/-- A node, unless one of `ends` shows that it is absent. -/
def nodeUnless (ends : List Token) (block unindented : Bool) : (fuel : Nat) → Build Node
  | 0 => malformed
  | fuel + 1 => do
    if ← isNext ends then return empty
    node block unindented fuel

def blockEntries : (fuel : Nat) → Build (List Node)
  | 0 => malformed
  | fuel + 1 => do
    if ← skip .blockEntry then
      let item ← nodeUnless [.blockEntry, .blockEnd] true false fuel
      return item :: (← blockEntries fuel)
    expect .blockEnd
    return []

def unindentedEntries : (fuel : Nat) → Build (List Node)
  | 0 => malformed
  | fuel + 1 => do
    if ← skip .blockEntry then
      let item ← nodeUnless [.blockEntry, .key, .value, .blockEnd] true false fuel
      return item :: (← unindentedEntries fuel)
    return []

def blockMembers : (fuel : Nat) → Build (List (Node × Node))
  | 0 => malformed
  | fuel + 1 => do
    let ends : List Token := [.key, .value, .blockEnd]
    if ← skip .key then
      let k ← nodeUnless ends true true fuel
      let v ← if ← skip .value then nodeUnless ends true true fuel else pure empty
      return (k, v) :: (← blockMembers fuel)
    expect .blockEnd
    return []

/-- The items of a list in brackets; a key among them makes a mapping of one member. -/
def flowItems (first : Bool) : (fuel : Nat) → Build (List Node)
  | 0 => malformed
  | fuel + 1 => do
    if ← skip .flowSequenceEnd then return []
    if !first then expect .flowEntry
    if ← skip .key then
      let k ← nodeUnless [.value, .flowEntry, .flowSequenceEnd] false false fuel
      let v ←
        if ← skip .value then nodeUnless [.flowEntry, .flowSequenceEnd] false false fuel
        else pure empty
      return .mapping .map [(k, v)] :: (← flowItems false fuel)
    if ← skip .flowSequenceEnd then return []
    let item ← node false false fuel
    return item :: (← flowItems false fuel)

/-- The members of a mapping in braces; a node without a key mark is a key without value. -/
def flowMembers (first : Bool) : (fuel : Nat) → Build (List (Node × Node))
  | 0 => malformed
  | fuel + 1 => do
    if ← skip .flowMappingEnd then return []
    if !first then expect .flowEntry
    if ← skip .key then
      let k ← nodeUnless [.value, .flowEntry, .flowMappingEnd] false false fuel
      let v ←
        if ← skip .value then nodeUnless [.flowEntry, .flowMappingEnd] false false fuel
        else pure empty
      return (k, v) :: (← flowMembers false fuel)
    if ← skip .flowMappingEnd then return []
    let k ← node false false fuel
    return (k, empty) :: (← flowMembers false fuel)

end

/-- The directives before a document: at most one version, of the first major one, and each tag
handle at most once. -/
def directives : (fuel : Nat) → (versioned : Bool) → List (String × String) →
    Build (List (String × String))
  | 0, _, _ => malformed
  | fuel + 1, versioned, handles => do
    match ← peek with
    | some (.directive d) =>
      advance
      match d with
      | .version major =>
        if versioned || major != 1 then malformed
        directives fuel true handles
      | .tag handle expansion =>
        if (handles.lookup handle).isSome then malformed
        directives fuel versioned ((handle, expansion) :: handles)
      | .other => directives fuel versioned handles
    | _ => return handles

/-- The handles that are defined without a directive. -/
def defaultHandles : List (String × String) := [("!", "!"), ("!!", Tag.schema)]

def skipDocumentEnds : (fuel : Nat) → Build Unit
  | 0 => return ()
  | fuel + 1 => do
    if ← skip .documentEnd then skipDocumentEnds fuel

/-- The one document of a stream, `none` for an empty stream. -/
def document (fuel : Nat) : Build (Option Node) := do
  let start ← peek
  if start.isNone then return none
  let explicit := match start with
    | some (.directive _) | some .documentStart => true
    | _ => false
  let root ←
    if explicit then do
      let handles ← directives fuel false []
      modify fun s => { s with handles := handles ++ defaultHandles }
      expect .documentStart
      match ← peek with
      | none | some (.directive _) | some .documentStart | some .documentEnd => pure empty
      | some _ => node true false fuel
    else node true false fuel
  skipDocumentEnds fuel
  if (← peek).isSome then malformed
  return some root

/-- The tree that tokens describe. Each step of two calls takes a token. -/
def ofTokens (tokens : List Token) (fault : Option Fault) : Except Fault (Option Node) :=
  (document (2 * tokens.length + 8)).run' ⟨tokens, fault, defaultHandles, []⟩

end Node

end ApiContract.Yaml
