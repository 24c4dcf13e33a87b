import ApiContract.Text.Quoted
import ApiContract.Yaml.Tag

/-!
# How a scalar is written

A text is written plainly where reading it back gives the same text, in single quotes where only
its look forbids that, and in double quotes where characters have to be escaped.
-/

namespace ApiContract.Yaml

inductive Style where
  | plain
  | single
  | double
  deriving DecidableEq, Repr

namespace Style

/-- Line ends that a quoted text may hold as they are. -/
def isBreak (c : Char) : Bool := c == '\n' || c == '\u0085' || c == '\u2028' || c == '\u2029'

def isMultiline (cs : List Char) : Bool := cs.any isBreak

/-- Characters that stand for themselves between single quotes. -/
def isVisible (c : Char) : Bool :=
  let n := c.toNat
  n == 0x0A || n == 0x85 || (0x20 ≤ n && n ≤ 0x7E) || (0xA0 ≤ n && n ≤ 0xFFFD && n != 0xFEFF) ||
    (0x10000 ≤ n && n < 0x10FFFF)

/-- Whether two neighbours in a text meet a condition. -/
def anyPair (p : Char → Char → Bool) : List Char → Bool
  | a :: b :: rest => p a b || anyPair p (b :: rest)
  | _ => false

/-- Whether a text may stand between single quotes: all characters are visible and no space is
beside a line end. -/
def fitsSingle (cs : List Char) : Bool :=
  cs.all isVisible &&
    !anyPair (fun a b => (a == ' ' && isBreak b) || (isBreak a && b == ' ')) cs

/-- Whether the characters at the ends are neither spaces nor line ends. -/
def hasFirmEnds (cs : List Char) : Bool :=
  let firm (c : Char) : Bool := c != ' ' && !isBreak c
  cs.head?.all firm && cs.getLast?.all firm

/-- Characters that begin something other than a plain text. -/
def isIndicator (c : Char) : Bool :=
  ['#', ',', '[', ']', '\x7b', '\x7d', '&', '*', '!', '|', '>', '\'', '"', '%', '@', '\x60'].contains c

/-- Whether the beginning of a text is that of something other than a plain text. -/
def beginsSpecially : List Char → Bool
  | [] => false
  | c :: rest =>
    isIndicator c || ((c == '?' || c == ':' || c == '-') && rest.head?.all isGap) ||
      ['-', '-', '-'].isPrefixOf (c :: rest) || ['.', '.', '.'].isPrefixOf (c :: rest)

/-- Whether a key or a comment would begin inside a text. -/
def hasInnerIndicator (cs : List Char) : Bool :=
  anyPair (fun a b => a == ':' && isGap b || isGap a && b == '#') cs || cs.getLast? == some ':'

/-- Whether a text may be written plainly, as far as its look goes. -/
def fitsPlain (cs : List Char) : Bool :=
  fitsSingle cs && !isMultiline cs && hasFirmEnds cs && !beginsSpecially cs &&
    !hasInnerIndicator cs

/-- The style of a text. -/
def ofText (s : String) : Style :=
  let cs := s.toList
  if fitsPlain cs && Tag.ofPlain s == .str then .plain
  else if fitsSingle cs then .single
  else .double

end Style

/-! ## Escapes -/

/-- Characters with an escape of one letter. -/
def shortEscapes : List (Char × Char) := [
  ('\x00', '0'), ('\x07', 'a'), ('\x08', 'b'), ('\t', 't'), ('\n', 'n'), ('\x0b', 'v'),
  ('\x0c', 'f'), ('\r', 'r'), ('\x1b', 'e'), ('"', '"'), ('\\', '\\'), ('\u0085', 'N'),
  ('\u00a0', '_'), ('\u2028', 'L'), ('\u2029', 'P')]

/-- A number in hexadecimal capital letters. -/
def capitalHex (width n : Nat) : List Char := (Text.hex width n).map Char.toUpper

/-- Characters that stand for themselves between double quotes. -/
def isBare (c : Char) : Bool :=
  let n := c.toNat
  (0x20 ≤ n && n ≤ 0x7E && c != '"' && c != '\\') ||
    (0xA0 ≤ n && n ≤ 0xFFFD && n != 0x2028 && n != 0x2029 && n != 0xFEFF)

def escape (c : Char) : List Char :=
  match shortEscapes.lookup c with
  | some letter => ['\\', letter]
  | none =>
    if c.toNat ≤ 0xFF then '\\' :: 'x' :: capitalHex 2 c.toNat
    else if c.toNat ≤ 0xFFFF then '\\' :: 'u' :: capitalHex 4 c.toNat
    else '\\' :: 'U' :: capitalHex 8 c.toNat

end ApiContract.Yaml
