import ApiContract.Json.Error
import ApiContract.Value.Basic

/-!
# Reading JSON

The reader works on the characters that remain. A fault records how many remain at its place, from
which `read` computes line and column. Beyond the standard it accepts `NaN`, `Infinity` and
`-Infinity`. A member that is written twice keeps its first place and its last value.

Each step of `readValue` from a list or mapping into an item passes at least one character, so fuel
of twice the length of the text is never used up.
-/

namespace ApiContract.Json

/-- A fault with the number of characters left at its place. -/
inductive Fault where
  | syntaxAt (problem : Problem) (left : Nat)
  | tooManyDigits (count : Nat)
  deriving DecidableEq, Repr

/-- The blanks between tokens. -/
def isSpace (c : Char) : Bool := c == ' ' || c == '\t' || c == '\n' || c == '\r'

def skipSpace (cs : List Char) : List Char := cs.dropWhile isSpace

/-! ## Texts -/

def hexDigit? (c : Char) : Option Nat :=
  if '0' ≤ c ∧ c ≤ '9' then some (c.toNat - 48)
  else if 'a' ≤ c ∧ c ≤ 'f' then some (c.toNat - 87)
  else if 'A' ≤ c ∧ c ≤ 'F' then some (c.toNat - 55)
  else none

def hexNumber? (digits : List Char) : Option Nat :=
  digits.foldlM (fun n c => (hexDigit? c).map (16 * n + ·)) 0

/-- The character that a one-letter escape stands for. -/
def simpleEscape? : Char → Option Char
  | '"' => some '"'
  | '\\' => some '\\'
  | '/' => some '/'
  | 'b' => some '\x08'
  | 'f' => some '\x0c'
  | 'n' => some '\n'
  | 'r' => some '\r'
  | 't' => some '\t'
  | _ => none

def isHighSurrogate (n : Nat) : Bool := 0xD800 ≤ n && n < 0xDC00

def isLowSurrogate (n : Nat) : Bool := 0xDC00 ≤ n && n < 0xE000

/-- The character with a code; half of a surrogate pair is no character and reads as the
replacement character. -/
def charOfCode (n : Nat) : Char :=
  if 0xD800 ≤ n ∧ n < 0xE000 then '\ufffd' else Char.ofNat n

/-- The rest of a text after its opening quote, up to its closing one. `opened` is what was left at
the opening quote. -/
def readString (opened : Nat) : List Char → Except Fault (List Char × List Char)
  | [] => .error (.syntaxAt .unterminatedString opened)
  | '"' :: rest => .ok ([], rest)
  | '\\' :: 'u' :: a :: b :: c :: d :: rest =>
    let left := rest.length + 5
    match hexNumber? [a, b, c, d], rest with
    | none, _ | _, [] => .error (.syntaxAt .unicodeEscape left)
    | some n, '\\' :: 'u' :: a' :: b' :: c' :: d' :: next :: rest' =>
      if isHighSurrogate n then
        match hexNumber? [a', b', c', d'] with
        | none => .error (.syntaxAt .unicodeEscape (rest'.length + 6))
        | some m =>
          if isLowSurrogate m then do
            let (cs, after) ← readString opened (next :: rest')
            .ok (Char.ofNat (0x10000 + (n - 0xD800) * 0x400 + (m - 0xDC00)) :: cs, after)
          else do
            let (cs, after) ← readString opened ('\\' :: 'u' :: a' :: b' :: c' :: d' :: next :: rest')
            .ok (charOfCode n :: cs, after)
      else do
        let (cs, after) ← readString opened ('\\' :: 'u' :: a' :: b' :: c' :: d' :: next :: rest')
        .ok (charOfCode n :: cs, after)
    | some n, rest => do
      let (cs, after) ← readString opened rest
      .ok (charOfCode n :: cs, after)
  | '\\' :: c :: rest =>
    match simpleEscape? c with
    | some e => do
      let (cs, after) ← readString opened rest
      .ok (e :: cs, after)
    | none =>
      .error (.syntaxAt (if c = 'u' then .unicodeEscape else .escape)
        (if c = 'u' then rest.length + 1 else rest.length + 2))
  | ['\\'] => .error (.syntaxAt .unterminatedString opened)
  | c :: rest =>
    if c.toNat < 0x20 then .error (.syntaxAt .controlCharacter (rest.length + 1))
    else do
      let (cs, after) ← readString opened rest
      .ok (c :: cs, after)

/-! ## Numbers -/

/-- The value of a run of decimal digits. -/
def decimal (digits : List Char) : Nat := digits.foldl (fun n c => 10 * n + (c.toNat - 48)) 0

/-- The digits at the start, and what follows. -/
def takeDigits (cs : List Char) : List Char × List Char :=
  (cs.takeWhile Char.isDigit, cs.dropWhile Char.isDigit)

/-- The whole part of a number: `0`, or digits that do not begin with `0`. -/
def takeWhole : List Char → Option (List Char × List Char)
  | '0' :: rest => some (['0'], rest)
  | cs =>
    match takeDigits cs with
    | ([], _) => none
    | found => some found

/-- The fraction: a point and at least one digit, or nothing. -/
def takeFraction : List Char → List Char × List Char
  | '.' :: rest =>
    match takeDigits rest with
    | ([], _) => ([], '.' :: rest)
    | found => found
  | cs => ([], cs)

/-- The exponent: a sign and at least one digit after an `e`, or nothing. -/
def takeExponent (cs : List Char) : Option Int × List Char :=
  match cs with
  | e :: rest =>
    if e = 'e' ∨ e = 'E' then
      let (negative, rest) := match rest with
        | '-' :: r => (true, r)
        | '+' :: r => (false, r)
        | r => (false, r)
      match takeDigits rest with
      | ([], _) => (none, cs)
      | (digits, after) =>
        let n : Int := decimal digits
        (some (if negative then -n else n), after)
    else (none, cs)
  | [] => (none, cs)

/-- Integers longer than this are refused. -/
def maxDigits : Nat := 4300

/-- A number without its sign. It is an integer unless it has a fraction or an exponent. -/
def readNumber (negative : Bool) (cs : List Char) : Option (Except Fault (Value × List Char)) :=
  (takeWhole cs).map fun (whole, rest) =>
    let (fraction, rest) := takeFraction rest
    let (exponent, rest) := takeExponent rest
    if fraction.isEmpty && exponent.isNone then
      if maxDigits < whole.length then .error (.tooManyDigits whole.length)
      else
        let n : Int := decimal whole
        .ok (.int (if negative then -n else n), rest)
    else
      let scale := exponent.getD 0 - fraction.length
      .ok (.float (Double.ofDecimal negative (decimal (whole ++ fraction)) scale), rest)

/-! ## Values -/

/-- Removes a fixed word from the start. -/
def dropWord? : (word cs : List Char) → Option (List Char)
  | [], cs => some cs
  | w :: word, c :: cs => if w = c then dropWord? word cs else none
  | _ :: _, [] => none

/-- The values written as words. -/
def words : List (List Char × Value) := [
  ("null".toList, .null), ("true".toList, .bool true), ("false".toList, .bool false),
  ("NaN".toList, .float .nan), ("Infinity".toList, .float (.infinite false)),
  ("-Infinity".toList, .float (.infinite true))]

/-- A value without structure: a word or a number. -/
def readAtom (cs : List Char) : Except Fault (Value × List Char) :=
  match words.findSome? fun (word, v) => (dropWord? word cs).map fun rest => (v, rest) with
  | some found => .ok found
  | none =>
    let number := match cs with
      | '-' :: rest => readNumber true rest
      | _ => readNumber false cs
    number.getD (.error (.syntaxAt .value cs.length))

mutual

/-- A value at the start of `cs`, and what follows it. -/
def readValue : (fuel : Nat) → List Char → Except Fault (Value × List Char)
  | 0, cs => .error (.syntaxAt .value cs.length)
  | fuel + 1, cs =>
    match cs with
    | '"' :: rest => do
      let (s, after) ← readString cs.length rest
      .ok (.str (String.ofList s), after)
    | '[' :: rest =>
      match skipSpace rest with
      | ']' :: after => .ok (.list [], after)
      | rest => do
        let (items, after) ← readItems fuel rest
        .ok (.list items, after)
    | '\x7b' :: rest =>
      match skipSpace rest with
      | '\x7d' :: after => .ok (.map [], after)
      | rest => do
        let (members, after) ← readMembers fuel rest
        .ok (.map (Members.ofList members), after)
    | cs => readAtom cs

/-- The items of a list up to its closing bracket. -/
def readItems : (fuel : Nat) → List Char → Except Fault (List Value × List Char)
  | 0, cs => .error (.syntaxAt .value cs.length)
  | fuel + 1, cs => do
    let (v, rest) ← readValue fuel cs
    match skipSpace rest with
    | ']' :: after => .ok ([v], after)
    | ',' :: rest => do
      let (items, after) ← readItems fuel (skipSpace rest)
      .ok (v :: items, after)
    | rest => .error (.syntaxAt .comma rest.length)

/-- The members of a mapping up to its closing brace. -/
def readMembers : (fuel : Nat) → List Char → Except Fault (List (Scalar × Value) × List Char)
  | 0, cs => .error (.syntaxAt .memberName cs.length)
  | fuel + 1, cs =>
    match cs with
    | '"' :: rest => do
      let (name, rest) ← readString cs.length rest
      match skipSpace rest with
      | ':' :: rest => do
        let (v, rest) ← readValue fuel (skipSpace rest)
        let member : Scalar × Value := (.str (String.ofList name), v)
        match skipSpace rest with
        | '\x7d' :: after => .ok ([member], after)
        | ',' :: rest => do
          let (members, after) ← readMembers fuel (skipSpace rest)
          .ok (member :: members, after)
        | rest => .error (.syntaxAt .comma rest.length)
      | rest => .error (.syntaxAt .colon rest.length)
    | cs => .error (.syntaxAt .memberName cs.length)

end

/-- A whole text: one value, with blanks around it. -/
def readText (cs : List Char) : Except Fault Value := do
  if cs.head? = some '\ufeff' then throw (.syntaxAt .byteOrderMark cs.length)
  let (v, rest) ← readValue (2 * cs.length + 2) (skipSpace cs)
  match skipSpace rest with
  | [] => .ok v
  | rest => .error (.syntaxAt .extraData rest.length)

/-- The place of a fault in the text. -/
def locate (cs : List Char) : Fault → ReadError
  | .tooManyDigits count => .tooManyDigits count
  | .syntaxAt problem left =>
    let before := cs.take (cs.length - left)
    let line := before.count '\n' + 1
    let column := (before.reverse.takeWhile (· ≠ '\n')).length + 1
    .malformed problem line column before.length

def read (text : String) : Except ReadError Value :=
  let cs := text.toList
  (readText cs).mapError (locate cs)

end ApiContract.Json
