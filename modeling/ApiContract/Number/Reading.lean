import ApiContract.Number.Double
import ApiContract.Text.Blank

/-!
# Numbers in texts

How a number is read from a text that was not written for it: an option, a version, a segment of a
pointer. Blanks around it do not count, a sign may stand before it, single underscores may stand
between digits, and a digit of any script counts.
-/

namespace ApiContract.Number

/-- The zeros of the decimal digits of all scripts; the other nine follow each. -/
def decimalZeros : List Nat := [
  0x30, 0x660, 0x6F0, 0x7C0, 0x966, 0x9E6, 0xA66, 0xAE6, 0xB66,
  0xBE6, 0xC66, 0xCE6, 0xD66, 0xDE6, 0xE50, 0xED0, 0xF20, 0x1040,
  0x1090, 0x17E0, 0x1810, 0x1946, 0x19D0, 0x1A80, 0x1A90, 0x1B50, 0x1BB0,
  0x1C40, 0x1C50, 0xA620, 0xA8D0, 0xA900, 0xA9D0, 0xA9F0, 0xAA50, 0xABF0,
  0xFF10, 0x104A0, 0x10D30, 0x11066, 0x110F0, 0x11136, 0x111D0, 0x112F0, 0x11450,
  0x114D0, 0x11650, 0x116C0, 0x11730, 0x118E0, 0x11950, 0x11C50, 0x11D50, 0x11DA0,
  0x16A60, 0x16AC0, 0x16B50, 0x1D7CE, 0x1D7D8, 0x1D7E2, 0x1D7EC, 0x1D7F6, 0x1E140,
  0x1E2F0, 0x1E950, 0x1FBF0]

/-- The value of a decimal digit of any script. -/
def digit? (c : Char) : Option Nat :=
  if c.toNat < 0x80 then if c.isDigit then some (c.toNat - 48) else none
  else (decimalZeros.find? fun z => z ≤ c.toNat && c.toNat < z + 10).map (c.toNat - ·)

/-- Digits with single underscores between them, each as its value. -/
def digits? : List Char → Option (List Nat)
  | [] => none
  | [c] => (digit? c).map ([·])
  | c :: '_' :: rest => do
    let d ← digit? c
    let more ← digits? rest
    some (d :: more)
  | c :: rest => do
    let d ← digit? c
    let more ← digits? rest
    some (d :: more)

/-- The number that a run of digits writes. -/
def ofDigits (base : Nat) (digits : List Nat) : Nat := digits.foldl (fun n d => base * n + d) 0

/-- A sign, if there is one, and the rest. -/
def splitSign : List Char → Bool × List Char
  | '-' :: rest => (true, rest)
  | '+' :: rest => (false, rest)
  | cs => (false, cs)

/-- Integers of more digits than this are refused. -/
def maxDigits : Nat := 4300

/-- The integer that a text writes in decimal. -/
def int? (s : String) : Option Int :=
  let (negative, cs) := splitSign (Text.trim s.toList)
  match digits? cs with
  | some ds =>
    if maxDigits < ds.length then none
    else
      let n : Int := ofDigits 10 ds
      some (if negative then -n else n)
  | none => none

/-- Cuts at the first character of a class. -/
def cut (p : Char → Bool) (cs : List Char) : List Char × Option (List Char) :=
  match cs.dropWhile fun c => !p c with
  | [] => (cs, none)
  | _ :: rest => (cs.takeWhile fun c => !p c, some rest)

/-- Digits, of which there may be none. -/
def someDigits? : List Char → Option (List Nat)
  | [] => some []
  | cs => digits? cs

/-- The binary64 number nearest to the number that a text writes: digits with a point among them and
a decimal exponent, or one of the words for infinity and for no number. -/
def double? (s : String) : Option Double := do
  let (negative, cs) := splitSign (Text.trim s.toList)
  let word := String.ofList (cs.map Char.toLower)
  if word == "inf" || word == "infinity" then return .infinite negative
  if word == "nan" then return .nan
  let (mantissa, exponent) := cut (fun c => c == 'e' || c == 'E') cs
  let (whole, fraction) := cut (· == '.') mantissa
  let whole ← someDigits? whole
  let fraction ← someDigits? (fraction.getD [])
  if whole.isEmpty && fraction.isEmpty then none
  let exponent : Int ←
    match exponent with
    | none => some 0
    | some cs =>
      let (negative, cs) := splitSign cs
      (digits? cs).map fun ds => if negative then -(ofDigits 10 ds : Int) else ofDigits 10 ds
  some (Double.ofDecimal negative (ofDigits 10 (whole ++ fraction)) (exponent - fraction.length))

end ApiContract.Number
