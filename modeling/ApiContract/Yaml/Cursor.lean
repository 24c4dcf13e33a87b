/-!
# A place in a YAML text

The scanner goes through the characters of a text and knows at every place the line and the column,
because indentation is structure. The end of the text reads as a NUL, which no text may hold. A line
ends with a line feed, a carriage return or both together, a next-line character, or one of the two
Unicode separators.
-/

namespace ApiContract.Yaml

/-- What may go wrong when a text is read: it is not YAML, or it holds a term whose value does not
exist, such as the 30th of February. -/
inductive Fault where
  | malformed
  | noSuchValue
  deriving DecidableEq, Repr

/-- The characters that a text may hold. -/
def isAllowed (c : Char) : Bool :=
  let n := c.toNat
  n == 0x09 || n == 0x0A || n == 0x0D || (0x20 ≤ n && n ≤ 0x7E) || n == 0x85 ||
    (0xA0 ≤ n && n ≤ 0xD7FF) || (0xE000 ≤ n && n ≤ 0xFFFD) || 0x10000 ≤ n

def isLineEnd (c : Char) : Bool :=
  c == '\r' || c == '\n' || c == '\u0085' || c == '\u2028' || c == '\u2029'

/-- The end of the text or of a line. -/
def isEnd (c : Char) : Bool := c == '\x00' || isLineEnd c

/-- The end of the text or of a line, or a space. -/
def isEndOrSpace (c : Char) : Bool := c == ' ' || isEnd c

/-- The end of the text or of a line, a space or a tab. -/
def isGap (c : Char) : Bool := c == '\t' || isEndOrSpace c

/-- Characters of anchors, directive names and tag handles. -/
def isNameChar (c : Char) : Bool := c.isAlphanum || c == '-' || c == '_'

structure Cursor where
  rest : List Char
  index : Nat
  line : Nat
  column : Nat

namespace Cursor

def start (text : List Char) : Cursor := ⟨text, 0, 0, 0⟩

/-- The character `k` places ahead. -/
def peekAt (c : Cursor) (k : Nat) : Char := (c.rest[k]?).getD '\x00'

def peek (c : Cursor) : Char := c.peekAt 0

/-- The next `k` characters. -/
def ahead (c : Cursor) (k : Nat) : List Char := c.rest.take k

/-- One character on. A byte order mark takes no column. -/
def advance (c : Cursor) : Cursor :=
  match c.rest with
  | [] => c
  | x :: rest =>
    if (x == '\n' || x == '\u0085' || x == '\u2028' || x == '\u2029') ||
        (x == '\r' && rest.head? != some '\n') then
      ⟨rest, c.index + 1, c.line + 1, 0⟩
    else ⟨rest, c.index + 1, c.line, if x == '\ufeff' then c.column else c.column + 1⟩

def advanceBy : Nat → Cursor → Cursor
  | 0, c => c
  | k + 1, c => advanceBy k c.advance

/-- The longest run of characters of a class, and the place behind it. -/
def span (p : Char → Bool) (c : Cursor) : List Char × Cursor :=
  let run := c.rest.takeWhile p
  (run, c.advanceBy run.length)

def skipWhile (p : Char → Bool) (c : Cursor) : Cursor := (c.span p).2

def skipSpaces (c : Cursor) : Cursor := c.skipWhile (· == ' ')

/-- Skips spaces up to a column. -/
def skipIndent (column : Nat) (c : Cursor) : Cursor :=
  c.advanceBy (min (column - c.column) (c.rest.takeWhile (· == ' ')).length)

/-- Reads a line end, if there is one: the separators stand for themselves, all others for a line
feed. -/
def lineEnd (c : Cursor) : Option Char × Cursor :=
  match c.rest with
  | '\r' :: '\n' :: _ => (some '\n', c.advanceBy 2)
  | x :: _ =>
    if x == '\u2028' || x == '\u2029' then (some x, c.advance)
    else if isLineEnd x then (some '\n', c.advance)
    else (none, c)
  | [] => (none, c)

/-- Whether a document marker begins here: three equal characters and a gap. -/
def atMarker (mark : Char) (c : Cursor) : Bool :=
  c.ahead 3 == [mark, mark, mark] && isGap (c.peekAt 3)

def atDocumentMarker (c : Cursor) : Bool := c.atMarker '-' || c.atMarker '.'

end Cursor

end ApiContract.Yaml
