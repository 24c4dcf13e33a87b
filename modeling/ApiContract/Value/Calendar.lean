/-!
# Dates and times of day

A document may hold a date, or a date with a time of day that is either local or at a fixed offset
from universal time. `DateTime.instant?` counts minutes and microseconds from a fixed day, so that
two times written at different offsets can be recognised as one.
-/

namespace ApiContract

structure Date where
  year : Nat
  month : Nat
  day : Nat
  deriving DecidableEq, Repr, Inhabited

structure DateTime where
  date : Date
  hour : Nat
  minute : Nat
  second : Nat
  microsecond : Nat
  /-- Minutes east of universal time; `none` is a local time. -/
  offset : Option Int
  deriving DecidableEq, Repr, Inhabited

def isLeapYear (year : Nat) : Bool :=
  year % 4 == 0 && (year % 100 != 0 || year % 400 == 0)

def daysInMonth (year month : Nat) : Nat :=
  match month with
  | 2 => if isLeapYear year then 29 else 28
  | 4 | 6 | 9 | 11 => 30
  | _ => 31

namespace Date

/-- Years 1 to 9999, months and days of the Gregorian calendar. -/
def isValid (d : Date) : Bool :=
  1 ≤ d.year && d.year ≤ 9999 && 1 ≤ d.month && d.month ≤ 12 && 1 ≤ d.day &&
    d.day ≤ daysInMonth d.year d.month

/-- Days from the first day of year 1. -/
def dayNumber (d : Date) : Nat :=
  let y := d.year - 1
  let before := (List.range (d.month - 1)).foldl (fun n m => n + daysInMonth d.year (m + 1)) 0
  365 * y + y / 4 - y / 100 + y / 400 + before + (d.day - 1)

end Date

/-- A number in decimal, padded with zeros to a width. -/
def paddedDecimal (width n : Nat) : String :=
  let digits := Nat.toDigits 10 n
  String.ofList (List.replicate (width - digits.length) '0' ++ digits)

/-- Year, month and day joined by hyphens. -/
def Date.text (d : Date) : String :=
  s!"{paddedDecimal 4 d.year}-{paddedDecimal 2 d.month}-{paddedDecimal 2 d.day}"

namespace DateTime

def isValid (t : DateTime) : Bool :=
  t.date.isValid && t.hour < 24 && t.minute < 60 && t.second < 60 && t.microsecond < 1000000

/-- Microseconds of a time at a known offset, counted in universal time. -/
def instant? (t : DateTime) : Option Int :=
  t.offset.map fun offset =>
    let minutes : Int := (t.date.dayNumber * 1440 + t.hour * 60 + t.minute : Nat)
    ((minutes - offset) * 60 + t.second) * 1000000 + t.microsecond

/-- An offset as sign, hours and minutes. -/
def offsetText (offset : Int) : String :=
  let sign := if offset < 0 then "-" else "+"
  s!"{sign}{paddedDecimal 2 (offset.natAbs / 60)}:{paddedDecimal 2 (offset.natAbs % 60)}"

/-- Date and time joined by `separator`; microseconds and offset only when there are some. -/
def text (separator : String) (t : DateTime) : String :=
  let clock := s!"{paddedDecimal 2 t.hour}:{paddedDecimal 2 t.minute}:{paddedDecimal 2 t.second}"
  let fraction := if t.microsecond = 0 then "" else "." ++ paddedDecimal 6 t.microsecond
  t.date.text ++ separator ++ clock ++ fraction ++ (t.offset.map offsetText).getD ""

/-- Date and time joined by `T`, and `Z` for universal time. -/
def universalText (t : DateTime) : String :=
  if t.offset = some 0 then { t with offset := none }.text "T" ++ "Z" else t.text "T"

end DateTime

end ApiContract
