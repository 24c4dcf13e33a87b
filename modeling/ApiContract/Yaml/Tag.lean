import ApiContract.Value.Basic
import ApiContract.Number.Reading
import ApiContract.Yaml.Cursor

/-!
# Tags and the values of scalars

A plain scalar without a tag gets one from its form: `yes` is a truth value, `010` an octal integer,
`1:30` a number to the base of sixty, `2024-01-01` a date. `Tag.ofPlain` recognises the forms,
`Tag.scalarValue` gives the value that a text has under a tag. A tag that is written out may meet a
text of another form; then the value may not exist.
-/

namespace ApiContract.Yaml

inductive Tag where
  | null
  | bool
  | int
  | float
  | binary
  | timestamp
  | omap
  | pairs
  | set
  | str
  | seq
  | map
  | merge
  | value
  | unknown
  deriving DecidableEq, Repr

namespace Tag

/-- The tags of the standard schema by name. -/
def names : List (String × Tag) := [
  ("null", .null), ("bool", .bool), ("int", .int), ("float", .float), ("binary", .binary),
  ("timestamp", .timestamp), ("omap", .omap), ("pairs", .pairs), ("set", .set), ("str", .str),
  ("seq", .seq), ("map", .map), ("merge", .merge), ("value", .value)]

/-- What the names of the standard schema begin with. -/
def schema : String := "tag:yaml.org,2002:"

def ofUri (uri : String) : Tag :=
  match names.find? fun (name, _) => schema ++ name == uri with
  | some (_, tag) => tag
  | none => .unknown

/-! ## The forms of plain scalars -/

def isDigitOrLow (c : Char) : Bool := c.isDigit || c == '_'

/-- One or more characters of a class, and nothing else. -/
def allOf (p : Char → Bool) (cs : List Char) : Bool := !cs.isEmpty && cs.all p

def dropSign (cs : List Char) : List Char := (Number.splitSign cs).2

/-- Parts after a colon: one digit, or two of which the first is below six. -/
def isSixtieth : List Char → Bool
  | [d] => d.isDigit
  | [c, d] => '0' ≤ c && c ≤ '5' && d.isDigit
  | _ => false

/-- `true` and `false` by the many words for them. -/
def boolWords : List (String × Bool) := [
  ("yes", true), ("Yes", true), ("YES", true), ("no", false), ("No", false), ("NO", false),
  ("true", true), ("True", true), ("TRUE", true), ("false", false), ("False", false),
  ("FALSE", false), ("on", true), ("On", true), ("ON", true), ("off", false), ("Off", false),
  ("OFF", false)]

def isInt (cs : List Char) : Bool :=
  match dropSign cs with
  | ['0'] => true
  | '0' :: 'b' :: rest => allOf (fun c => c == '0' || c == '1' || c == '_') rest
  | '0' :: 'x' :: rest =>
    allOf (fun c => c.isDigit || ('a' ≤ c && c ≤ 'f') || ('A' ≤ c && c ≤ 'F') || c == '_') rest
  | '0' :: rest => allOf (fun c => ('0' ≤ c && c ≤ '7') || c == '_') rest
  | cs =>
    match cs.splitOn ':' with
    | first :: parts =>
      (first.head?.any fun c => '1' ≤ c && c ≤ '9') && first.all isDigitOrLow && parts.all isSixtieth
    | [] => false

/-- An exponent with its sign, or nothing. -/
def isExponent : List Char → Bool
  | [] => true
  | e :: s :: rest => (e == 'e' || e == 'E') && (s == '-' || s == '+') && allOf Char.isDigit rest
  | _ => false

/-- What follows the point of a number: digits, and perhaps an exponent. -/
def isFraction (exponent : Bool) (cs : List Char) : Bool :=
  let rest := cs.dropWhile isDigitOrLow
  if exponent then isExponent rest else rest.isEmpty

def startsWithDigit (cs : List Char) : Bool := cs.head?.any Char.isDigit

def isFloat (cs : List Char) : Bool :=
  let unsigned := dropSign cs
  let special (words : List String) (cs : List Char) : Bool := words.any (·.toList == cs)
  special [".inf", ".Inf", ".INF"] unsigned || special [".nan", ".NaN", ".NAN"] cs ||
    match cs with
    | '.' :: rest => startsWithDigit rest && isFraction true rest
    | _ =>
      let (whole, fraction) := Number.cut (· == '.') unsigned
      match fraction, whole.splitOn ':' with
      | some fraction, first :: parts =>
        startsWithDigit first && first.all isDigitOrLow && parts.all isSixtieth &&
          isFraction parts.isEmpty fraction
      | _, _ => false

/-! ### Dates and times -/

/-- Between `least` and `most` digits at the start, as a number. -/
def takeNumber (least most : Nat) (cs : List Char) : Option (Nat × List Char) :=
  let digits := (cs.takeWhile Char.isDigit).take most
  if digits.length < least then none
  else some (Number.ofDigits 10 (digits.map fun c => c.toNat - 48), cs.drop digits.length)

def takeChar (x : Char) : List Char → Option (List Char)
  | c :: rest => if c = x then some rest else none
  | [] => none

def isSpaceOrTab (c : Char) : Bool := c == ' ' || c == '\t'

/-- The first six digits of a fraction as microseconds. -/
def microseconds (digits : List Char) : Nat :=
  let digits := digits.take 6
  Number.ofDigits 10 (digits.map fun c => c.toNat - 48) * Nat.pow 10 (6 - digits.length)

/-- An offset at the end of a time: none, `Z`, or hours and perhaps minutes. -/
def takeOffset (cs : List Char) : Option (Option Int) := do
  match cs.dropWhile isSpaceOrTab with
  | [] => if cs.isEmpty then some none else none
  | ['Z'] => some (some 0)
  | s :: rest =>
    if s != '-' && s != '+' then none
    let (hours, rest) ← takeNumber 1 2 rest
    let minutes ←
      match rest with
      | [] => some 0
      | ':' :: rest =>
        match takeNumber 2 2 rest with
        | some (minutes, []) => some minutes
        | _ => none
      | _ => none
    let n : Int := (hours * 60 + minutes : Nat)
    some (some (if s == '-' then -n else n))

/-- The terms of a date or time, whether or not the calendar has them. A date with two-digit month
and day stands alone; a shorter one only before a time, unless `loose`. -/
def timestamp? (loose : Bool) (cs : List Char) : Option (Date × Option DateTime) := do
  let (year, rest) ← takeNumber 4 4 cs
  let rest ← takeChar '-' rest
  let (month, rest') ← takeNumber 1 2 rest
  let padded := rest.length - rest'.length == 2
  let rest ← takeChar '-' rest'
  let (day, rest') ← takeNumber 1 2 rest
  let padded := padded && rest.length - rest'.length == 2
  let date : Date := ⟨year, month, day⟩
  match rest' with
  | [] => if padded || loose then some (date, none) else none
  | c :: rest =>
    let rest ← if c == 'T' || c == 't' then some rest
      else if isSpaceOrTab c then some (rest.dropWhile isSpaceOrTab) else none
    let (hour, rest) ← takeNumber 1 2 rest
    let (minute, rest) ← takeNumber 2 2 (← takeChar ':' rest)
    let (second, rest) ← takeNumber 2 2 (← takeChar ':' rest)
    let (fraction, rest) :=
      match rest with
      | '.' :: rest => (rest.takeWhile Char.isDigit, rest.dropWhile Char.isDigit)
      | rest => ([], rest)
    let offset ← takeOffset rest
    some (date, some ⟨date, hour, minute, second, microseconds fraction, offset⟩)

/-- The tag of a plain scalar by its form. -/
def ofPlain (s : String) : Tag :=
  let cs := s.toList
  if (boolWords.lookup s).isSome then .bool
  else if isFloat cs then .float
  else if isInt cs then .int
  else if s == "<<" then .merge
  else if ["~", "null", "Null", "NULL", ""].contains s then .null
  else if (timestamp? false cs).isSome then .timestamp
  else if s == "=" then .value
  else .str

/-! ## Values -/

def orNoValue {α : Type} : Option α → Except Fault α
  | some a => .ok a
  | none => .error .noSuchValue

/-- The digits of a number to a base up to sixteen. -/
def inBase? (base : Nat) (cs : List Char) : Option Nat :=
  let value (c : Char) : Option Nat :=
    let n :=
      if c.isDigit then c.toNat - 48
      else if 'a' ≤ c ∧ c ≤ 'f' then c.toNat - 87
      else if 'A' ≤ c ∧ c ≤ 'F' then c.toNat - 55
      else 99
    if n < base then some n else none
  if cs.isEmpty then none else (cs.mapM value).map (Number.ofDigits base)

/-- The value of parts to the base of sixty, the last one first. -/
def sexagesimal {α : Type} (add : α → α → α) (scale : α → Nat → α) (zero : α) : Nat → List α → α
  | _, [] => zero
  | base, part :: rest => sexagesimal add scale (add zero (scale part base)) (base * 60) rest

def intValue (s : String) : Except Fault Int := do
  let cs := s.toList.filter (· != '_')
  if cs.isEmpty then throw .noSuchValue
  let (negative, cs) := Number.splitSign cs
  let n : Int ←
    match cs with
    | ['0'] => pure 0
    | '0' :: 'b' :: rest => (fun n : Nat => (n : Int)) <$> orNoValue (inBase? 2 rest)
    | '0' :: 'x' :: rest => (fun n : Nat => (n : Int)) <$> orNoValue (inBase? 16 rest)
    | '0' :: rest => (fun n : Nat => (n : Int)) <$> orNoValue (inBase? 8 ('0' :: rest))
    | [] => throw .noSuchValue
    | cs =>
      let parts ← (cs.splitOn ':').mapM fun part => orNoValue (Number.int? (String.ofList part))
      pure (sexagesimal (· + ·) (fun n k => n * k) 0 1 parts.reverse)
  return if negative then -n else n

def floatValue (s : String) : Except Fault Double := do
  let cs := (s.toList.filter (· != '_')).map Char.toLower
  if cs.isEmpty then throw .noSuchValue
  let (negative, cs) := Number.splitSign cs
  let signed (x : Double) : Double := if negative then x.neg else x
  if cs == ".inf".toList then return .infinite negative
  if cs == ".nan".toList then return .nan
  let parts ← (cs.splitOn ':').mapM fun part => orNoValue (Number.double? (String.ofList part))
  match parts with
  | [x] => return signed x
  | parts =>
    return signed (sexagesimal Double.add Double.mulNat Double.zero 1 parts.reverse)

/-- A date or time that the calendar has; offsets stay within a day. -/
def timestampValue (s : String) : Except Fault Scalar := do
  match ← orNoValue (timestamp? true s.toList) with
  | (date, none) => if date.isValid then return .date date else throw .noSuchValue
  | (_, some t) =>
    if t.isValid && (t.offset.all fun o => o.natAbs < 1440) then return .dateTime t
    else throw .noSuchValue

def sextet? (c : Char) : Option Nat :=
  if c.isUpper then some (c.toNat - 65)
  else if c.isLower then some (c.toNat - 71)
  else if c.isDigit then some (c.toNat + 4)
  else if c == '+' then some 62
  else if c == '/' then some 63
  else none

/-- Bytes from base 64. `held` are the bits of the last `place` characters of a group of four.
Characters outside the alphabet are passed over; a group that padding completes ends the text. -/
def base64 (held place pads : Nat) : List Char → Except Fault (List UInt8)
  | [] => if place = 0 then .ok [] else .error .malformed
  | c :: rest =>
    if c == '=' then
      if 2 ≤ place ∧ 4 ≤ place + pads + 1 then .ok []
      else base64 held place (if 2 ≤ place then pads + 1 else pads) rest
    else
      match sextet? c with
      | none => base64 held place pads rest
      | some n =>
        match place with
        | 0 => base64 n 1 0 rest
        | 1 => (UInt8.ofNat (held * 4 + n / 16) :: ·) <$> base64 (n % 16) 2 0 rest
        | 2 => (UInt8.ofNat (held * 16 + n / 4) :: ·) <$> base64 (n % 4) 3 0 rest
        | _ => (UInt8.ofNat (held * 64 + n) :: ·) <$> base64 0 0 0 rest

/-- The value of a scalar under a tag. -/
def scalarValue (tag : Tag) (s : String) : Except Fault Scalar :=
  match tag with
  | .null => .ok .null
  | .bool =>
    match boolWords.lookup (String.ofList (s.toList.map Char.toLower)) with
    | some b => .ok (.bool b)
    | none => .error .noSuchValue
  | .int => .int <$> intValue s
  | .float => .float <$> floatValue s
  | .binary =>
    if s.toList.all (·.toNat < 0x80) then .bytes <$> base64 0 0 0 s.toList else .error .malformed
  | .timestamp => timestampValue s
  | .str => .ok (.str s)
  | .omap | .pairs | .set | .seq | .map | .merge | .value | .unknown => .error .malformed

end Tag

end ApiContract.Yaml
