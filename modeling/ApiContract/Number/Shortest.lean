import ApiContract.Number.Double

/-!
# The text of a binary64 number

`Double.shortestDigits` finds the fewest decimal digits that read back as the same number, and of
those the nearest, at equal distance the even one: it tries the decimal grids from one digit up and
takes the first that has a point between the midpoints to the neighbouring numbers. `Double.text`
lays these digits out: positional for decimal exponents from `-4` to `15`, with a two-digit exponent
elsewhere.

`Double.general` is the six-digit form used for durations in messages.
-/

namespace ApiContract

namespace Double

/-- The significand and exponent with the significand filled up to 53 bits where the range of
exponents allows it. -/
def filled (m : Nat) (e : Int) : Nat × Int :=
  let shift := min (52 - (m.log2 : Int)) (e + 1074)
  if 0 ≤ shift then (m <<< shift.toNat, e - shift) else (m, e)

/-- The interval of reals that round to a number, over a common denominator: `low`, the number
itself, `high` and the denominator; `closed` tells whether the ends belong to it. -/
structure Rounding where
  low : Nat
  value : Nat
  high : Nat
  den : Nat
  closed : Bool

/-- The rounding interval of `m · 2 ^ e`, `m` filled. The gap below a power of two is half as wide,
except at the bottom of the range. -/
def rounding (m : Nat) (e : Int) : Rounding :=
  let narrow := m == leastSignificand && e != -1074
  let low := if narrow then 4 * m - 1 else 4 * m - 2
  let scale := 1 <<< (e - 2).natAbs
  if e - 2 < 0 then ⟨low, 4 * m, 4 * m + 2, scale, m % 2 == 0⟩
  else ⟨low * scale, 4 * m * scale, (4 * m + 2) * scale, 1, m % 2 == 0⟩

/-- Whether `c · 10 ^ k` lies in the interval. -/
def Rounding.holds (r : Rounding) (c : Nat) (k : Int) : Bool :=
  let x := if k < 0 then c else c * Nat.pow 10 k.natAbs
  let unit := if k < 0 then Nat.pow 10 k.natAbs else 1
  let x := x * r.den
  if r.closed then r.low * unit ≤ x && x ≤ r.high * unit
  else r.low * unit < x && x < r.high * unit

/-- The lower neighbour of the value on the grid of multiples of `10 ^ k`, and whether the upper one
comes first: it is nearer, or as near and even. -/
def Rounding.neighbours (r : Rounding) (k : Int) : Nat × Bool :=
  let num := if k < 0 then r.value * Nat.pow 10 k.natAbs else r.value
  let den := if k < 0 then r.den else r.den * Nat.pow 10 k.natAbs
  let r := 2 * (num % den)
  (num / den, den < r || (r == den && num / den % 2 == 1))

/-- The point of the grid of `10 ^ k` that reads back, the nearer of two. -/
def Rounding.pick? (r : Rounding) (k : Int) : Option Nat :=
  let (c, upper) := r.neighbours k
  let first := if upper then c + 1 else c
  let second := if upper then c else c + 1
  if r.holds first k then some first
  else if r.holds second k then some second
  else none

/-- Tries the grids of `10 ^ k`, `10 ^ (k - 1)`, …; a binary64 number needs at most seventeen. -/
def Rounding.search (r : Rounding) : (grids : Nat) → Int → Nat × Int
  | 0, k => ((r.neighbours k).1, k)
  | grids + 1, k =>
    match r.pick? k with
    | some c => (c, k)
    | none => r.search grids (k - 1)

/-- A lower estimate of the decimal exponent of `num / den`, corrected to the exact one. -/
def decimalExponent (num den : Nat) : Int :=
  let digits (n : Nat) : Int := ((Nat.toDigits 10 n).length : Int)
  let guess := digits num - digits den
  let reaches (k : Int) : Bool :=
    if k < 0 then den ≤ num * Nat.pow 10 k.natAbs else den * Nat.pow 10 k.natAbs ≤ num
  if reaches guess then guess else guess - 1

/-- Drops trailing zeros of `c`, raising the exponent; `fuel` bounds their number. -/
def dropZeros : (fuel : Nat) → Nat → Int → Nat × Int
  | 0, c, k => (c, k)
  | fuel + 1, c, k => if c ≠ 0 ∧ c % 10 = 0 then dropZeros fuel (c / 10) (k + 1) else (c, k)

/-- The shortest digits `c` and exponent `k` with `c · 10 ^ k` reading back as `m · 2 ^ e`. -/
def shortestDigits (m : Nat) (e : Int) : Nat × Int :=
  let (m, e) := filled m e
  let r := rounding m e
  let (c, k) := r.search 18 (decimalExponent r.value r.den)
  dropZeros 400 c k

/-- Pads a run of digits on the left with zeros. -/
def padLeft (width : Nat) (digits : List Char) : List Char :=
  List.replicate (width - digits.length) '0' ++ digits

/-- The exponent part: `e`, a sign, and at least two digits. -/
def exponentText (x : Int) : List Char :=
  'e' :: (if x < 0 then '-' else '+') :: padLeft 2 (Nat.toDigits 10 x.natAbs)

/-- Digits with a point after the first `point` of them; zeros fill the gaps. A number without
fractional digits gets `.0` when `keepPoint` is set. -/
def positional (digits : List Char) (point : Int) (keepPoint : Bool) : List Char :=
  if point ≤ 0 then "0.".toList ++ List.replicate point.natAbs '0' ++ digits
  else if point.toNat < digits.length then
    digits.take point.toNat ++ '.' :: digits.drop point.toNat
  else
    digits ++ List.replicate (point.toNat - digits.length) '0' ++
      (if keepPoint then ".0".toList else [])

/-- One digit, the rest after a point, and the exponent. -/
def scientific (digits : List Char) (exponent : Int) : List Char :=
  match digits with
  | [] => []
  | d :: [] => d :: exponentText exponent
  | d :: rest => d :: '.' :: rest ++ exponentText exponent

def signText (negative : Bool) : List Char := if negative then ['-'] else []

/-- The shortest text that reads back: positional when the decimal exponent lies in `[-4, 16)`. -/
def text : Double → String
  | .nan => "nan"
  | .infinite negative => if negative then "-inf" else "inf"
  | .finite negative 0 _ => if negative then "-0.0" else "0.0"
  | .finite negative m e =>
    let (c, k) := shortestDigits m e
    let digits := Nat.toDigits 10 c
    let exponent := k + (digits.length : Int) - 1
    String.ofList <| signText negative ++
      if -4 ≤ exponent ∧ exponent < 16 then positional digits (exponent + 1) true
      else scientific digits exponent

/-- Six significant digits, without trailing zeros; positional when the decimal exponent lies in
`[-4, 6)`. -/
def general : Double → String
  | .nan => "nan"
  | .infinite negative => if negative then "-inf" else "inf"
  | .finite negative 0 _ => if negative then "-0" else "0"
  | .finite negative m e =>
    let num := if e < 0 then m else m <<< e.natAbs
    let den := if e < 0 then 1 <<< e.natAbs else 1
    let k := decimalExponent num den - 5
    let c := if k < 0 then roundHalfEven (num * Nat.pow 10 k.natAbs) den
      else roundHalfEven num (den * Nat.pow 10 k.natAbs)
    let exponent := if c = 1000000 then k + 6 else k + 5
    let digits := Nat.toDigits 10 (dropZeros 7 c k).1
    String.ofList <| signText negative ++
      if -4 ≤ exponent ∧ exponent < 6 then positional digits (exponent + 1) false
      else scientific digits exponent

end Double

end ApiContract
