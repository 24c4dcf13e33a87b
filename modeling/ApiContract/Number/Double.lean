/-!
# Binary64 numbers as exact values

A document holds two kinds of numbers: integers of any size and binary64 numbers. The second kind
is kept here as an exact value, `± significand · 2 ^ exponent`, so that two numbers are equal when
their terms are, and comparison with an integer needs no rounding.

`Double.ofRatio` rounds a quotient to the nearest binary64 number, ties to the even significand;
`Double.ofDecimal` does so for a decimal. Both work in exact natural-number arithmetic.
-/

namespace ApiContract

/-- A binary64 number. A finite number is `significand · 2 ^ exponent` with an odd significand, or
the significand and exponent `0`; the sign is kept apart so that the two zeros differ. -/
inductive Double where
  | nan
  | infinite (negative : Bool)
  | finite (negative : Bool) (significand : Nat) (exponent : Int)
  deriving DecidableEq, Repr, Inhabited

namespace Double

/-- Moves factors of two from the significand to the exponent; `fuel` bounds their number. -/
def reduceTwos : (fuel : Nat) → Nat → Int → Nat × Int
  | 0, m, e => (m, e)
  | fuel + 1, m, e => if m % 2 = 0 then reduceTwos fuel (m / 2) (e + 1) else (m, e)

/-- The number `± m · 2 ^ e`, taken as exact. -/
def ofScaled (negative : Bool) (m : Nat) (e : Int) : Double :=
  if m = 0 then .finite negative 0 0
  else
    let (m', e') := reduceTwos m.log2 m e
    .finite negative m' e'

def zero : Double := .finite false 0 0

/-- `num / den` to the nearest natural number, a half to the even neighbour. -/
def roundHalfEven (num den : Nat) : Nat :=
  let q := num / den
  let r := 2 * (num % den)
  if r < den then q
  else if den < r then q + 1
  else if q % 2 = 0 then q else q + 1

/-- The quotient `num · 2 ^ (-e) / den` as a pair of naturals. -/
def scaleRatio (num den : Nat) (e : Int) : Nat × Nat :=
  if e < 0 then (num <<< e.natAbs, den) else (num, den <<< e.natAbs)

/-- The least significand of 53 bits. -/
def leastSignificand : Nat := 4503599627370496

/-- The exponent of the last place of the binary64 number next to `num / den`: 53 bits before it,
but never below `-1074`. -/
def lastPlace (num den : Nat) : Int :=
  let guess : Int := max ((num.log2 : Int) - (den.log2 : Int) - 52) (-1074)
  let (n, d) := scaleRatio num den guess
  if n / d < leastSignificand then max (guess - 1) (-1074) else guess

/-- `± num / den` rounded to binary64, a half to the even significand; too large is infinite. -/
def ofRatio (negative : Bool) (num den : Nat) : Double :=
  if num = 0 then .finite negative 0 0
  else
    let e := lastPlace num den
    let (n, d) := scaleRatio num den e
    let m := roundHalfEven n d
    if 2 * leastSignificand ≤ m ∧ 971 ≤ e ∨ 972 ≤ e then .infinite negative
    else ofScaled negative m e

/-- `± digits · 10 ^ exponent` rounded to binary64. Exponents far outside the range are settled
without computing the power of ten. -/
def ofDecimal (negative : Bool) (digits : Nat) (exponent : Int) : Double :=
  if digits = 0 then .finite negative 0 0
  else if 400 < exponent then .infinite negative
  else if exponent + (digits.log2 : Int) < -1200 then .finite negative 0 0
  else if 0 ≤ exponent then ofRatio negative (digits * Nat.pow 10 exponent.toNat) 1
  else ofRatio negative digits (Nat.pow 10 exponent.natAbs)

/-- The binary64 number nearest to an integer. -/
def ofInt (n : Int) : Double := ofRatio (n < 0) n.natAbs 1

/-- The integer that a finite number without fractional part is. -/
def toInt? : Double → Option Int
  | .finite negative m e =>
    if e < 0 then none
    else
      let n : Int := (m <<< e.natAbs : Nat)
      some (if negative then -n else n)
  | _ => none

/-- The integer part of a finite number, toward zero. -/
def truncate? : Double → Option Int
  | .finite negative m e =>
    let n : Int := if e < 0 then (m >>> e.natAbs : Nat) else (m <<< e.natAbs : Nat)
    some (if negative then -n else n)
  | _ => none

def isZero : Double → Bool
  | .finite _ 0 _ => true
  | _ => false

def neg : Double → Double
  | .nan => .nan
  | .infinite s => .infinite !s
  | .finite s m e => .finite (!s) m e

/-- Equality of values: the zeros are equal, and `nan` equals nothing. -/
def sameNumber : Double → Double → Bool
  | .nan, _ | _, .nan => false
  | x, y => x == y || (x.isZero && y.isZero)

/-- The exact value `± m · 2 ^ e` of a finite number as a fraction. -/
def ratio? : Double → Option (Bool × Nat × Nat)
  | .finite s m e => some (s, if e < 0 then (m, 1 <<< e.natAbs) else (m <<< e.natAbs, 1))
  | _ => none

/-- `a / b + c / d` for signed fractions, rounded to binary64. -/
def add (x y : Double) : Double :=
  match x, y with
  | .nan, _ | _, .nan => .nan
  | .infinite s, .infinite t => if s == t then .infinite s else .nan
  | .infinite s, _ => .infinite s
  | _, .infinite t => .infinite t
  | .finite s m e, .finite t n f =>
    let low := min e f
    let a : Int := (m <<< (e - low).toNat : Nat)
    let b : Int := (n <<< (f - low).toNat : Nat)
    let sum := (if s then -a else a) + (if t then -b else b)
    if sum = 0 then .finite (s && t) 0 0
    else
      let (num, den) := scaleRatio sum.natAbs 1 (-low)
      ofRatio (sum < 0) num den

/-- The product with a natural number, rounded to binary64. -/
def mulNat (x : Double) (k : Nat) : Double :=
  match x with
  | .nan => .nan
  | .infinite s => if k = 0 then .nan else .infinite s
  | .finite s m e =>
    let (num, den) := scaleRatio (m * k) 1 (-e)
    ofRatio s num den

end Double

end ApiContract
