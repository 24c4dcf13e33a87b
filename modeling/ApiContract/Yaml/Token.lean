import ApiContract.Yaml.Text

/-!
# The tokens of a YAML text

A text is cut into tokens from the left. Block structure shows only in the columns: the scanner
keeps the columns of the open blocks and writes a token where one opens or closes. A key without its
own mark is seen only at the `:` behind it, so for every depth of brackets the scanner remembers
where a key might have begun, and writes the key token there once the colon comes.

`Token.scan` gives the tokens of a whole text, and the fault that stopped it, if any: the tokens
before a fault count, because they may already be wrong.
-/

namespace ApiContract.Yaml

inductive Directive where
  | version (major : Nat)
  | tag (handle : String) (expansion : String)
  | other
  deriving DecidableEq, Repr

inductive Token where
  | directive (d : Directive)
  | documentStart
  | documentEnd
  | blockSequenceStart
  | blockMappingStart
  | blockEnd
  | flowSequenceStart
  | flowSequenceEnd
  | flowMappingStart
  | flowMappingEnd
  | blockEntry
  | flowEntry
  | key
  | value
  | alias (name : String)
  | anchor (name : String)
  | tag (handle : Option String) (suffix : String)
  | scalar (text : String) (plain : Bool)
  deriving DecidableEq, Repr

/-! ## Names, tags and directives -/

/-- The name of an anchor or alias, behind its mark. -/
def scanAnchor (c : Cursor) : Except Fault (String × Cursor) :=
  let (name, c) := c.advance.span isNameChar
  if name.isEmpty then .error .malformed
  else if isGap c.peek || "?:,]\x7d%@`".contains c.peek then .ok (String.ofList name, c)
  else .error .malformed

def isUriChar (c : Char) : Bool := c.isAlphanum || "-;/?:@&=+$,_.!~*'()[]%".contains c

/-- The bytes of a run of `%XX` escapes. -/
def escapedBytes : (fuel : Nat) → Cursor → Except Fault (List UInt8 × Cursor)
  | 0, c => .ok ([], c)
  | fuel + 1, c =>
    if c.peek == '%' then
      let digits := c.advance.ahead 2
      if digits.length = 2 ∧ digits.all isHexDigit then do
        let (more, c) ← escapedBytes fuel (c.advanceBy 3)
        .ok (UInt8.ofNat (hexNumber digits) :: more, c)
      else .error .malformed
    else .ok ([], c)

/-- The characters of a tag, with escapes decoded. -/
def uriChars : (fuel : Nat) → Cursor → Except Fault (List Char × Cursor)
  | 0, c => .ok ([], c)
  | fuel + 1, c =>
    if c.peek == '%' then do
      let (bytes, c) ← escapedBytes (c.rest.length + 1) c
      match String.fromUTF8? ⟨bytes.toArray⟩ with
      | none => .error .malformed
      | some s =>
        let (more, c) ← uriChars fuel c
        .ok (s.toList ++ more, c)
    else if isUriChar c.peek then
      let (run, c) := c.span fun x => isUriChar x && x != '%'
      do
        let (more, c) ← uriChars fuel c
        .ok (run ++ more, c)
    else .ok ([], c)

def scanUri (c : Cursor) : Except Fault (String × Cursor) := do
  let (cs, d) ← uriChars (c.rest.length + 1) c
  if d.index = c.index then .error .malformed else .ok (String.ofList cs, d)

/-- A tag handle: `!`, `!!` or `!name!`. -/
def scanHandle (c : Cursor) : Except Fault (String × Cursor) :=
  if c.peek != '!' then .error .malformed
  else
    let c := c.advance
    if c.peek == ' ' then .ok ("!", c)
    else
      let (name, c) := c.span isNameChar
      if c.peek == '!' then .ok (String.ofList ('!' :: name ++ ['!']), c.advance)
      else .error .malformed

/-- Whether a second `!` comes before the next gap. -/
def hasHandle (c : Cursor) : Bool :=
  ((c.advance.rest.takeWhile fun x => !isEndOrSpace x).contains '!')

def scanTag (c : Cursor) : Except Fault (Token × Cursor) := do
  let next := c.peekAt 1
  let (tag, c) ←
    if next == '<' then do
      let (suffix, c) ← scanUri (c.advanceBy 2)
      if c.peek != '>' then throw .malformed
      pure (Token.tag none suffix, c.advance)
    else if isGap next then pure (Token.tag none "!", c.advance)
    else do
      let (handle, c) ← if hasHandle c then scanHandle c else pure ("!", c.advance)
      let (suffix, c) ← scanUri c
      pure (Token.tag (some handle) suffix, c)
  if isEndOrSpace c.peek then .ok (tag, c) else .error .malformed

def scanNumber (c : Cursor) : Except Fault (Nat × Cursor) :=
  let (digits, c) := c.span Char.isDigit
  if digits.isEmpty then .error .malformed
  else .ok (digits.foldl (fun n d => 10 * n + (d.toNat - 48)) 0, c)

def scanDirective (c : Cursor) : Except Fault (Directive × Cursor) := do
  let (name, c) := c.advance.span isNameChar
  if name.isEmpty || !isEndOrSpace c.peek then throw .malformed
  let (directive, c) ←
    if name == "YAML".toList then do
      let (major, c) ← scanNumber c.skipSpaces
      if c.peek != '.' then throw .malformed
      let (_, c) ← scanNumber c.advance
      if !isEndOrSpace c.peek then throw .malformed
      pure (Directive.version major, c)
    else if name == "TAG".toList then do
      let (handle, c) ← scanHandle c.skipSpaces
      if c.peek != ' ' then throw .malformed
      let (expansion, c) ← scanUri c.skipSpaces
      if !isEndOrSpace c.peek then throw .malformed
      pure (Directive.tag handle expansion, c)
    else pure (Directive.other, c.skipWhile (!isEnd ·))
  .ok (directive, ← commentLine c)

/-! ## The scanner -/

/-- A place where a key without a mark may have begun. -/
structure PossibleKey where
  /-- The number of tokens before it. -/
  position : Nat
  /-- Nothing but a key may stand there. -/
  required : Bool
  index : Nat
  line : Nat
  column : Nat

structure Scanner where
  cursor : Cursor
  tokens : Array Token
  /-- The depth of brackets. -/
  depth : Nat
  /-- The column of the innermost block, `-1` outside of all. -/
  indent : Int
  outerIndents : List Int
  /-- Whether a key may begin here. -/
  keyAllowed : Bool
  /-- The possible keys by depth. -/
  possible : List (Nat × PossibleKey)

namespace Scanner

def start (text : List Char) : Scanner := ⟨Cursor.start text, #[], 0, -1, [], true, []⟩

def column (s : Scanner) : Int := s.cursor.column

def push (s : Scanner) (t : Token) : Scanner := { s with tokens := s.tokens.push t }

def inFlow (s : Scanner) : Bool := s.depth != 0

/-- Forgets the possible key at the current depth; a required one must have become a key. -/
def dropKey (s : Scanner) : Except Fault Scanner :=
  match s.possible.lookup s.depth with
  | some key =>
    if key.required then .error .malformed
    else .ok { s with possible := s.possible.filter (·.1 != s.depth) }
  | none => .ok s

/-- Remembers that a key may begin here. -/
def saveKey (s : Scanner) : Except Fault Scanner := do
  let required := !s.inFlow && s.indent == s.column
  if !s.keyAllowed then return s
  let s ← s.dropKey
  let key := ⟨s.tokens.size, required, s.cursor.index, s.cursor.line, s.cursor.column⟩
  .ok { s with possible := (s.depth, key) :: s.possible }

/-- A key does not go over a line end, nor over 1024 characters. -/
def isStale (c : Cursor) (key : PossibleKey) : Bool :=
  key.line != c.line || 1024 < c.index - key.index

def dropStaleKeys (s : Scanner) : Except Fault Scanner :=
  if s.possible.any fun (_, key) => isStale s.cursor key && key.required then .error .malformed
  else .ok { s with possible := s.possible.filter fun (_, key) => !isStale s.cursor key }

/-- Closes the blocks that are indented deeper than a column. -/
def closeBlocks (column : Int) : (outer : List Int) → Scanner → Scanner
  | [], s => s
  | indent :: outer, s =>
    if column < s.indent then
      closeBlocks column outer
        { s with tokens := s.tokens.push .blockEnd, indent := indent, outerIndents := outer }
    else s

def unwind (column : Int) (s : Scanner) : Scanner :=
  if s.inFlow then s else closeBlocks column s.outerIndents s

/-- Opens a block at a column, with its token at a position, if it is indented deeper than the
innermost one. -/
def openBlock (column : Int) (token : Token) (position : Nat) (s : Scanner) : Scanner :=
  if s.indent < column then
    { s with
      tokens := s.tokens.insertIdxIfInBounds position token
      indent := column
      outerIndents := s.indent :: s.outerIndents }
  else s

def openBlockHere (token : Token) (s : Scanner) : Scanner :=
  s.openBlock s.column token s.tokens.size

/-- Takes a token of `length` characters. -/
def take (s : Scanner) (length : Nat) (t : Token) : Scanner :=
  { s with tokens := s.tokens.push t, cursor := s.cursor.advanceBy length }

/-- Spaces, comments and line ends before a token. After a line end outside brackets a key may
begin. -/
def skipGap : (fuel : Nat) → Scanner → Scanner
  | 0, s => s
  | fuel + 1, s =>
    let c := s.cursor.skipSpaces
    let c := if c.peek == '#' then c.skipWhile (!isEnd ·) else c
    match c.lineEnd with
    | (none, c) => { s with cursor := c }
    | (some _, c) => skipGap fuel { s with cursor := c, keyAllowed := s.keyAllowed || !s.inFlow }

/-- A directive or document marker closes all blocks. -/
def atMargin (s : Scanner) : Except Fault Scanner := do
  let s ← (s.unwind (-1)).dropKey
  .ok { s with keyAllowed := false }

def openFlow (s : Scanner) (t : Token) : Except Fault Scanner := do
  let s ← s.saveKey
  .ok { s.take 1 t with depth := s.depth + 1, keyAllowed := true }

/-- A closing bracket without an opening one is refused at once. -/
def closeFlow (s : Scanner) (t : Token) : Except Fault Scanner := do
  let s ← s.dropKey
  if s.depth = 0 then throw .malformed
  .ok { s.take 1 t with depth := s.depth - 1, keyAllowed := false }

def flowEntry (s : Scanner) : Except Fault Scanner := do
  let s ← { s with keyAllowed := true }.dropKey
  .ok (s.take 1 .flowEntry)

/-- Outside brackets a mark of block structure must stand where a key may begin; it opens a block
there. -/
def blockMark (s : Scanner) (opening : Token) : Except Fault Scanner :=
  if s.inFlow then .ok s
  else if s.keyAllowed then .ok (s.openBlockHere opening)
  else .error .malformed

def blockEntry (s : Scanner) : Except Fault Scanner := do
  let s ← s.blockMark .blockSequenceStart
  let s ← { s with keyAllowed := true }.dropKey
  .ok (s.take 1 .blockEntry)

def key (s : Scanner) : Except Fault Scanner := do
  let s ← s.blockMark .blockMappingStart
  let s ← { s with keyAllowed := !s.inFlow }.dropKey
  .ok (s.take 1 .key)

/-- A colon: the possible key at this depth is one, else it stands for an empty key. -/
def value (s : Scanner) : Except Fault Scanner := do
  match s.possible.lookup s.depth with
  | some key =>
    let s := { s with
      possible := s.possible.filter (·.1 != s.depth)
      tokens := s.tokens.insertIdxIfInBounds key.position .key
      keyAllowed := false }
    let s := if s.inFlow then s else s.openBlock key.column .blockMappingStart key.position
    .ok (s.take 1 .value)
  | none =>
    let s ← s.blockMark .blockMappingStart
    let s ← { s with keyAllowed := !s.inFlow }.dropKey
    .ok (s.take 1 .value)

/-- A token that may be a key, read by `scan`. -/
def keyLike (s : Scanner) (scan : Cursor → Except Fault (Token × Cursor)) : Except Fault Scanner := do
  let s ← s.saveKey
  let (t, c) ← scan s.cursor
  .ok { s.push t with cursor := c, keyAllowed := false }

def plain (s : Scanner) : Except Fault Scanner := do
  let s ← s.saveKey
  let (text, brokeLine, c) := scanPlain s.inFlow s.indent s.cursor
  .ok { s.push (.scalar (String.ofList text) true) with cursor := c, keyAllowed := brokeLine }

def block (s : Scanner) (folded : Bool) : Except Fault Scanner := do
  let s ← { s with keyAllowed := true }.dropKey
  let (text, c) ← scanBlock folded s.indent s.cursor
  .ok { s.push (.scalar (String.ofList text) false) with cursor := c }

/-- Whether a plain text may begin here. -/
def startsPlain (s : Scanner) : Bool :=
  let x := s.cursor.peek
  !(isGap x || "-?:,[]\x7b\x7d#&*!|>'\"%@`".contains x) ||
    (!isGap (s.cursor.peekAt 1) && (x == '-' || (!s.inFlow && (x == '?' || x == ':'))))

/-- Takes the next token. The flag is false at the end of the text, where all blocks are closed. -/
def next (s : Scanner) : Except Fault (Scanner × Bool) := do
  let s := s.skipGap (s.cursor.rest.length + 1)
  let s ← s.dropStaleKeys
  let s := s.unwind s.column
  let c := s.cursor
  let gapAhead := isGap (c.peekAt 1)
  if c.rest.isEmpty then
    let s ← (s.unwind (-1)).dropKey
    return (s, false)
  let atStart := c.column == 0
  let s ←
    match c.peek with
    | '[' => s.openFlow .flowSequenceStart
    | '\x7b' => s.openFlow .flowMappingStart
    | ']' => s.closeFlow .flowSequenceEnd
    | '\x7d' => s.closeFlow .flowMappingEnd
    | ',' => s.flowEntry
    | '*' => s.keyLike fun c => do
        let (name, c) ← scanAnchor c
        .ok (.alias name, c)
    | '&' => s.keyLike fun c => do
        let (name, c) ← scanAnchor c
        .ok (.anchor name, c)
    | '!' => s.keyLike scanTag
    | '\'' | '"' => s.keyLike fun c => do
        let (text, c) ← scanQuoted c
        .ok (.scalar (String.ofList text) false, c)
    | x =>
      if x == '%' && atStart then do
        let s ← s.atMargin
        let (d, c) ← scanDirective s.cursor
        pure { s.push (.directive d) with cursor := c }
      else if atStart && c.atMarker '-' then do
        let s ← s.atMargin
        pure (s.take 3 .documentStart)
      else if atStart && c.atMarker '.' then do
        let s ← s.atMargin
        pure (s.take 3 .documentEnd)
      else if x == '-' && gapAhead then s.blockEntry
      else if x == '?' && (s.inFlow || gapAhead) then s.key
      else if x == ':' && (s.inFlow || gapAhead) then s.value
      else if (x == '|' || x == '>') && !s.inFlow then s.block (x == '>')
      else if s.startsPlain then s.plain
      else .error .malformed
  return (s, true)

/-- Takes tokens up to the end or the first fault. -/
def run : (fuel : Nat) → Scanner → Array Token × Option Fault
  | 0, s => (s.tokens, some .malformed)
  | fuel + 1, s =>
    match s.next with
    | .error fault => (s.tokens, some fault)
    | .ok (s, false) => (s.tokens, none)
    | .ok (s, true) => run fuel s

end Scanner

/-- The tokens of a text, and the fault that stopped the scanner. Every token takes at least one
character. -/
def Token.scan (text : String) : List Token × Option Fault :=
  let cs := text.toList
  if cs.all isAllowed then
    let cs := if cs.head? = some '\ufeff' then cs.tail else cs
    let (tokens, fault) := (Scanner.start cs).run (cs.length + 1)
    (tokens.toList, fault)
  else ([], some .malformed)

end ApiContract.Yaml
