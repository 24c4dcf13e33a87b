import ApiContract.Yaml.Cursor

/-!
# Scalars as they are written

The four ways of writing a scalar: plain, in single or double quotes, and as an indented block that
keeps or folds its lines. Each function starts at the first character and gives the text with the
place behind it. Inside a folded text a single line end is a space, and each further one a line end.
-/

namespace ApiContract.Yaml

open Cursor

/-! ## Quoted -/

/-- The character that a one-letter escape in double quotes stands for. -/
def simpleEscape? : Char → Option Char
  | '0' => some '\x00'
  | 'a' => some '\x07'
  | 'b' => some '\x08'
  | 't' => some '\t'
  | '\t' => some '\t'
  | 'n' => some '\n'
  | 'v' => some '\x0b'
  | 'f' => some '\x0c'
  | 'r' => some '\r'
  | 'e' => some '\x1b'
  | ' ' => some ' '
  | '"' => some '"'
  | '\\' => some '\\'
  | '/' => some '/'
  | 'N' => some '\u0085'
  | '_' => some '\u00a0'
  | 'L' => some '\u2028'
  | 'P' => some '\u2029'
  | _ => none

/-- The number of hexadecimal digits after an escape letter. -/
def codeLength? : Char → Option Nat
  | 'x' => some 2
  | 'u' => some 4
  | 'U' => some 8
  | _ => none

def isHexDigit (c : Char) : Bool :=
  c.isDigit || ('a' ≤ c && c ≤ 'f') || ('A' ≤ c && c ≤ 'F')

def hexValue (c : Char) : Nat :=
  if c.isDigit then c.toNat - 48 else if 'a' ≤ c then c.toNat - 87 else c.toNat - 55

def hexNumber (digits : List Char) : Nat := digits.foldl (fun n c => 16 * n + hexValue c) 0

/-- The character with a code. Codes beyond Unicode have no value; a surrogate reads as the
replacement character. -/
def charOfCode (n : Nat) : Except Fault Char :=
  if 0x110000 ≤ n then .error .noSuchValue
  else if 0xD800 ≤ n ∧ n < 0xE000 then .ok '\ufffd'
  else .ok (Char.ofNat n)

/-- Empty lines inside a quoted text; the ends of all of them count. -/
def quotedBreaks : (fuel : Nat) → Cursor → Except Fault (List Char × Cursor)
  | 0, c => .ok ([], c)
  | fuel + 1, c =>
    if c.atDocumentMarker then .error .malformed
    else
      match (c.skipWhile fun x => x == ' ' || x == '\t').lineEnd with
      | (none, c) => .ok ([], c)
      | (some e, c) => do
        let (more, c) ← quotedBreaks fuel c
        .ok (e :: more, c)

/-- Spaces inside a quoted text, and the folding of a line end among them. -/
def quotedSpaces (c : Cursor) : Except Fault (List Char × Cursor) := do
  let (spaces, c) := c.span fun x => x == ' ' || x == '\t'
  if c.rest.isEmpty then throw .malformed
  match c.lineEnd with
  | (none, c) => .ok (spaces, c)
  | (some e, c) =>
    let (breaks, c) ← quotedBreaks (c.rest.length + 1) c
    let first := if e != '\n' then [e] else if breaks.isEmpty then [' '] else []
    .ok (first ++ breaks, c)

/-- Characters of a quoted text up to a gap or the closing quote. -/
def quotedWord (double : Bool) : (fuel : Nat) → Cursor → Except Fault (List Char × Cursor)
  | 0, c => .ok ([], c)
  | fuel + 1, c =>
    let (run, c) := c.span fun x => !(x == '\'' || x == '"' || x == '\\' || isGap x)
    let more (found : List Char) (c : Cursor) : Except Fault (List Char × Cursor) := do
      let (rest, c) ← quotedWord double fuel c
      .ok (run ++ found ++ rest, c)
    let x := c.peek
    if !double && x == '\'' && c.peekAt 1 == '\'' then more ['\''] (c.advanceBy 2)
    else if (double && x == '\'') || (!double && (x == '"' || x == '\\')) then more [x] c.advance
    else if double && x == '\\' then
      let c := c.advance
      match simpleEscape? c.peek, codeLength? c.peek with
      | some e, _ => if c.rest.isEmpty then .error .malformed else more [e] c.advance
      | none, some length =>
        let digits := c.advance.ahead length
        if digits.length = length ∧ digits.all isHexDigit then do
          more [← charOfCode (hexNumber digits)] (c.advanceBy (length + 1))
        else .error .malformed
      | none, none =>
        match c.lineEnd with
        | (none, _) => .error .malformed
        | (some _, c) => do
          let (breaks, c) ← quotedBreaks (c.rest.length + 1) c
          more breaks c
    else .ok (run, c)

/-- The rest of a quoted text up to its closing quote. -/
def quotedRest (quote : Char) : (fuel : Nat) → Cursor → Except Fault (List Char × Cursor)
  | 0, _ => .error .malformed
  | fuel + 1, c => do
    if c.peek == quote then return ([], c.advance)
    let (spaces, c) ← quotedSpaces c
    let (word, c) ← quotedWord (quote == '"') (c.rest.length + 1) c
    let (rest, c) ← quotedRest quote fuel c
    .ok (spaces ++ word ++ rest, c)

/-- A text in quotes. -/
def scanQuoted (c : Cursor) : Except Fault (List Char × Cursor) := do
  let quote := c.peek
  let c := c.advance
  let (word, c) ← quotedWord (quote == '"') (c.rest.length + 1) c
  let (rest, c) ← quotedRest quote (c.rest.length + 1) c
  .ok (word ++ rest, c)

/-! ## Plain -/

/-- Whether a plain text ends before the first of these characters. -/
def endsPlain (inFlow : Bool) : List Char → Bool
  | [] => true
  | x :: rest =>
    let next := rest.head?.getD '\x00'
    isGap x || (x == ':' && (isGap next || (inFlow && ",[]\x7b\x7d".contains next))) ||
      (inFlow && ",?[]\x7b\x7d".contains x)

/-- The length of the longest run that a plain text may hold without a gap. -/
def plainRun (inFlow : Bool) : List Char → Nat
  | [] => 0
  | x :: rest => if endsPlain inFlow (x :: rest) then 0 else plainRun inFlow rest + 1

/-- Spaces and line ends after the first line end of a plain text. The flag tells that a document
marker stops the text. -/
def plainBreaks : (fuel : Nat) → Cursor → List Char × Bool × Cursor
  | 0, c => ([], false, c)
  | fuel + 1, c =>
    if c.peek == ' ' then plainBreaks fuel c.advance
    else
      match c.lineEnd with
      | (none, c) => ([], false, c)
      | (some e, c) =>
        if c.atDocumentMarker then ([e], true, c)
        else
          let (more, stopped, c) := plainBreaks fuel c
          (e :: more, stopped, c)

/-- The gap after a run of a plain text: what it folds to, whether it holds a line end, and the
place behind it. Nothing is folded where the text stops. -/
def plainGap (c : Cursor) : List Char × Bool × Cursor :=
  let (spaces, c) := c.span (· == ' ')
  match c.lineEnd with
  | (none, c) => (spaces, false, c)
  | (some e, c) =>
    if c.atDocumentMarker then ([], true, c)
    else
      let (breaks, stopped, c) := plainBreaks (c.rest.length + 1) c
      if stopped then ([], true, c)
      else
        let first := if e != '\n' then [e] else if breaks.isEmpty then [' '] else []
        (first ++ breaks, true, c)

/-- The runs of a plain text, each after the gap `gap`. The flag tells whether the last gap held a
line end. -/
def plainRuns (inFlow : Bool) (indent : Int) (gap : List Char) :
    (fuel : Nat) → Bool → Cursor → List Char × Bool × Cursor
  | 0, brokeLine, c => ([], brokeLine, c)
  | fuel + 1, brokeLine, c =>
    let length := plainRun inFlow c.rest
    if c.peek == '#' || length == 0 then ([], brokeLine, c)
    else
      let run := c.ahead length
      let (next, brokeLine, c) := plainGap (c.advanceBy length)
      if next.isEmpty || c.peek == '#' || (!inFlow && (c.column : Int) < indent) then
        (gap ++ run, brokeLine, c)
      else
        let (rest, brokeLine, c) := plainRuns inFlow indent next fuel brokeLine c
        (gap ++ run ++ rest, brokeLine, c)

/-- A plain text in a block indented by `indent`; the flag tells whether a line end follows it. -/
def scanPlain (inFlow : Bool) (indent : Int) (c : Cursor) : List Char × Bool × Cursor :=
  plainRuns inFlow (indent + 1) [] (c.rest.length + 1) false c

/-! ## Blocks -/

/-- What happens to the line ends at the end of a block. -/
inductive Chomping where
  | strip
  | clip
  | keep
  deriving DecidableEq, Repr

def chomping? : Char → Option Chomping
  | '+' => some .keep
  | '-' => some .strip
  | _ => none

/-- An indentation digit; zero is refused. -/
def indentDigit (c : Cursor) : Except Fault (Option Nat × Cursor) :=
  if c.peek.isDigit then
    if c.peek == '0' then .error .malformed else .ok (some (c.peek.toNat - 48), c.advance)
  else .ok (none, c)

/-- The chomping mark and indentation digit of a block, in either order. -/
def blockIndicators (c : Cursor) : Except Fault ((Chomping × Option Nat) × Cursor) := do
  let (found, c) ←
    match chomping? c.peek with
    | some mark => do
      let (indent, c) ← indentDigit c.advance
      pure ((mark, indent), c)
    | none => do
      let (indent, c) ← indentDigit c
      match indent, chomping? c.peek with
      | some _, some mark => pure ((mark, indent), c.advance)
      | _, _ => pure ((Chomping.clip, indent), c)
  if isEndOrSpace c.peek then .ok (found, c) else .error .malformed

/-- The rest of a line that may hold only a comment. -/
def commentLine (c : Cursor) : Except Fault Cursor :=
  let c := c.skipSpaces
  let c := if c.peek == '#' then c.skipWhile (!isEnd ·) else c
  if isEnd c.peek then .ok c.lineEnd.2 else .error .malformed

/-- Empty lines at the start of a block without an indentation digit, and the widest indentation
among them and the first line. -/
def blockIndentation : (fuel : Nat) → Nat → Cursor → List Char × Nat × Cursor
  | 0, widest, c => ([], widest, c)
  | fuel + 1, widest, c =>
    if c.peek == ' ' then
      let c := c.advance
      blockIndentation fuel (max widest c.column) c
    else
      match c.lineEnd with
      | (none, c) => ([], widest, c)
      | (some e, c) =>
        let (more, widest, c) := blockIndentation fuel widest c
        (e :: more, widest, c)

/-- Empty lines inside a block. -/
def blockBreaks (indent : Nat) : (fuel : Nat) → Cursor → List Char × Cursor
  | 0, c => ([], c)
  | fuel + 1, c =>
    match (c.skipIndent indent).lineEnd with
    | (none, c) => ([], c)
    | (some e, c) =>
      let (more, c) := blockBreaks indent fuel c
      (e :: more, c)

/-- The lines of a block; `breaks` are the empty lines before the next one. Gives the text without
its last line end, that line end, and the empty lines after it. -/
def blockLines (folded : Bool) (indent : Nat) :
    (fuel : Nat) → (breaks : List Char) → (lastEnd : List Char) → Cursor →
      List Char × List Char × List Char × Cursor
  | 0, breaks, lastEnd, c => ([], lastEnd, breaks, c)
  | fuel + 1, breaks, lastEnd, c =>
    if c.column ≠ indent ∨ c.rest.isEmpty then ([], lastEnd, breaks, c)
    else
      let isText (x : Char) : Bool := !(x == ' ' || x == '\t')
      let startsText := isText c.peek
      let (line, c) := c.span (!isEnd ·)
      let (found, c) := c.lineEnd
      let lineEnd := found.toList
      let (next, c) := blockBreaks indent (c.rest.length + 1) c
      if c.column = indent ∧ !c.rest.isEmpty then
        let joint :=
          if folded && lineEnd == ['\n'] && startsText && isText c.peek then
            if next.isEmpty then [' '] else []
          else lineEnd
        let (rest, lastEnd, tail, c) := blockLines folded indent fuel next lineEnd c
        (breaks ++ line ++ joint ++ rest, lastEnd, tail, c)
      else (breaks ++ line, lineEnd, next, c)

/-- A block in the mapping or list indented by `parent`. -/
def scanBlock (folded : Bool) (parent : Int) (c : Cursor) : Except Fault (List Char × Cursor) := do
  let ((mark, digit), c) ← blockIndicators c.advance
  let c ← commentLine c
  let least : Nat := max (parent + 1) 1 |>.toNat
  let (indent, breaks, c) :=
    match digit with
    | none =>
      let (breaks, widest, c) := blockIndentation (c.rest.length + 1) 0 c
      (max least widest, breaks, c)
    | some d =>
      let indent := least + d - 1
      let (breaks, c) := blockBreaks indent (c.rest.length + 1) c
      (indent, breaks, c)
  let (text, lastEnd, tail, c) := blockLines folded indent (c.rest.length + 1) breaks [] c
  let ending := match mark with
    | .strip => []
    | .clip => lastEnd
    | .keep => lastEnd ++ tail
  .ok (text ++ ending, c)

end ApiContract.Yaml
