import ApiContract.Number.Reading
import ApiContract.Number.Shortest
import ApiContract.Text.Quoted
import ApiContract.Value.Display

/-!
# Writing JSON

A value is written on one line, or with every item and member on a line of its own. Characters
beyond ASCII are kept or escaped as the style says. Dates, bytes and sets have no JSON form: they
are refused, or written as their text where the style allows it. A key that is no text is written as
the text of its value; dates and bytes are refused as keys in every style. An integer of too many
digits is refused everywhere.
-/

namespace ApiContract.Json

structure Style where
  /-- Spaces per level, or `none` for one line. -/
  indent : Option Nat
  /-- Escape everything beyond ASCII. -/
  asciiOnly : Bool
  /-- Write values without a JSON form as their text. -/
  otherAsText : Bool
  deriving DecidableEq, Repr

namespace Style

/-- One line, ASCII. -/
def line : Style := ⟨none, true, false⟩

/-- One line, ASCII, with a text for every value. -/
def report : Style := ⟨none, true, true⟩

/-- Two spaces per level, ASCII. -/
def document : Style := ⟨some 2, true, false⟩

/-- Two spaces per level, characters kept, with a text for every value. -/
def display : Style := ⟨some 2, false, true⟩

end Style

/-! ## Texts -/

def unicodeEscape (n : Nat) : List Char := '\\' :: 'u' :: Text.hex 4 n

/-- An escape; characters beyond the first plane become a surrogate pair. -/
def escapeCode (n : Nat) : List Char :=
  if n < 0x10000 then unicodeEscape n
  else
    let m := n - 0x10000
    unicodeEscape (0xD800 + m / 0x400) ++ unicodeEscape (0xDC00 + m % 0x400)

/-- One character inside quotes. -/
def writeChar (asciiOnly : Bool) (c : Char) : List Char :=
  if c = '"' then ['\\', '"']
  else if c = '\\' then ['\\', '\\']
  else if c = '\n' then ['\\', 'n']
  else if c = '\r' then ['\\', 'r']
  else if c = '\t' then ['\\', 't']
  else if c = '\x08' then ['\\', 'b']
  else if c = '\x0c' then ['\\', 'f']
  else if c.toNat < 0x20 then escapeCode c.toNat
  else if asciiOnly ∧ 0x7E < c.toNat then escapeCode c.toNat
  else [c]

def writeString (asciiOnly : Bool) (s : String) : List Char :=
  '"' :: s.toList.flatMap (writeChar asciiOnly) ++ ['"']

/-! ## Values -/

/-- An integer in decimal, if it does not have too many digits. -/
def writeInt? (n : Int) : Option (List Char) :=
  let digits := (toString n.natAbs).toList
  if Number.maxDigits < digits.length then none
  else some (if n < 0 then '-' :: digits else digits)

/-- A binary64 number: its shortest text, or the word for a value that has none. -/
def writeDouble : Double → List Char
  | .nan => "NaN".toList
  | .infinite negative => if negative then "-Infinity".toList else "Infinity".toList
  | x => x.text.toList

def writeScalar (style : Style) : Scalar → Option (List Char)
  | .null => some "null".toList
  | .bool b => some (if b then "true".toList else "false".toList)
  | .int n => writeInt? n
  | .float x => some (writeDouble x)
  | .str s => some (writeString style.asciiOnly s)
  | s => if style.otherAsText then some (writeString style.asciiOnly s.text) else none

/-- A key as a text. -/
def keyText : Scalar → Option String
  | .str s => some s
  | .null => some "null"
  | .bool b => some (if b then "true" else "false")
  | .int n => (writeInt? n).map String.ofList
  | .float x => some (String.ofList (writeDouble x))
  | _ => none

/-- The start of a new line at a depth; nothing on one line. -/
def newLine (style : Style) (depth : Nat) : List Char :=
  match style.indent with
  | some width => '\n' :: List.replicate (width * depth) ' '
  | none => []

/-- A bracketed sequence of parts, each at `depth + 1`. -/
def bracket (style : Style) (depth : Nat) (opening closing : Char) (parts : List (List Char)) :
    List Char :=
  match parts with
  | [] => [opening, closing]
  | parts =>
    let separator := match style.indent with
      | some _ => ',' :: newLine style (depth + 1)
      | none => [',', ' ']
    opening :: newLine style (depth + 1) ++ separator.intercalate parts ++
      newLine style depth ++ [closing]

mutual

def writeValue (style : Style) (depth : Nat) : Value → Option (List Char)
  | .scalar s => writeScalar style s
  | .list items => (writeItems style (depth + 1) items).map (bracket style depth '[' ']')
  | .map members =>
    (writeMembers style (depth + 1) members).map (bracket style depth '\x7b' '\x7d')
  | .set items =>
    if style.otherAsText then some (writeString style.asciiOnly (Value.set items).text) else none

def writeItems (style : Style) (depth : Nat) : List Value → Option (List (List Char))
  | [] => some []
  | v :: rest => do
    let first ← writeValue style depth v
    let others ← writeItems style depth rest
    some (first :: others)

def writeMembers (style : Style) (depth : Nat) :
    List (Scalar × Value) → Option (List (List Char))
  | [] => some []
  | (k, v) :: rest => do
    let name ← keyText k
    let first ← writeValue style depth v
    let others ← writeMembers style depth rest
    some ((writeString style.asciiOnly name ++ ':' :: ' ' :: first) :: others)

end

/-- The JSON text of a value, if it has one in this style. -/
def write? (style : Style) (v : Value) : Option String :=
  (writeValue style 0 v).map String.ofList

end ApiContract.Json
