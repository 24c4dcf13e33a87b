import ApiContract.Failure
import ApiContract.Number.Reading
import ApiContract.Text.LetterCase
import ApiContract.Value.Basic

/-!
# Checking values against shapes

A value from a file or a request is given a type here. Checking does not stop at the first wrong
leaf: it counts all of them, so `Checked` is an applicative functor and no monad. The checks are
lenient where the meaning is plain: a whole binary64 number or a numeric text is an integer, the
usual words are truth values. A text is only ever a text.
-/

namespace ApiContract

/-- A value of the wanted type, or the number of wrong leaves. -/
inductive Checked (α : Type) where
  | ok (value : α)
  | wrong (errors : Nat)
  deriving Repr

namespace Checked

variable {α β : Type}

def map (f : α → β) : Checked α → Checked β
  | .ok a => .ok (f a)
  | .wrong n => .wrong n

/-- Applies a checked function to a checked value; errors of both sides add up. -/
def apply (f : Checked (α → β)) (x : Checked α) : Checked β :=
  match f, x with
  | .ok f, .ok a => .ok (f a)
  | .ok _, .wrong n => .wrong n
  | .wrong m, .ok _ => .wrong m
  | .wrong m, .wrong n => .wrong (m + n)

instance : Applicative Checked where
  pure := .ok
  map := map
  seq f x := apply f (x ())

/-- All values, or the errors of all. -/
def all : List (Checked α) → Checked (List α)
  | [] => .ok []
  | x :: rest => List.cons <$> x <*> all rest

def toExcept (model : String) : Checked α → Except Failure α
  | .ok a => .ok a
  | .wrong n => .error (.invalid model n)

def isOk : Checked α → Bool
  | .ok _ => true
  | .wrong _ => false

end Checked

/-- A check turns a value into one of a type. -/
abbrev Check (α : Type) := Value → Checked α

namespace Check

variable {α : Type}

def any : Check Value := .ok

def text : Check String
  | .str s => .ok s
  | .scalar (.bytes b) =>
    match String.fromUTF8? ⟨b.toArray⟩ with
    | some s => .ok s
    | none => .wrong 1
  | _ => .wrong 1

/-- What a text writes. -/
def written (read? : String → Option α) (v : Value) : Checked α :=
  match text v with
  | .ok s => (read? s).elim (.wrong 1) .ok
  | .wrong n => .wrong n

/-- The words for truth values, in any case. -/
def boolWords : List (String × Bool) := [
  ("0", false), ("off", false), ("f", false), ("false", false), ("n", false), ("no", false),
  ("1", true), ("on", true), ("t", true), ("true", true), ("y", true), ("yes", true)]

def bit : Int → Checked Bool
  | 0 => .ok false
  | 1 => .ok true
  | _ => .wrong 1

/-- The truth value that a text writes. -/
def boolText? (s : String) : Option Bool := boolWords.lookup (Text.lowerAscii s)

def bool : Check Bool
  | .bool b => .ok b
  | .int n => bit n
  | .float x => (x.toInt?.map bit).getD (.wrong 1)
  | v => written boolText? v

/-- The integer that a text writes: a fraction of zeros may follow it. -/
def intText? (s : String) : Option Int :=
  let (whole, fraction) := Number.cut (· == '.') (Text.trim s.toList)
  if (fraction.getD []).all (· == '0') && whole.all (fun c => c.toNat < 0x80 && !Text.isBlank c) then
    Number.int? (String.ofList whole)
  else none

/-- Whole binary64 numbers beyond 64 bits are refused. -/
def wholeInt? (x : Double) : Option Int :=
  x.toInt?.filter fun n => n.natAbs < 9223372036854775808

def int : Check Int
  | .int n => .ok n
  | .bool b => .ok (if b then 1 else 0)
  | .float x => (wholeInt? x).elim (.wrong 1) .ok
  | v => written intText? v

/-- The binary64 number that a text writes in ASCII. Single underscores between other characters do
not count. -/
def doubleText? (s : String) : Option Double :=
  let cs := Text.trim s.toList
  let isSplit := cs.head? != some '_' && cs.getLast? != some '_' &&
    !(cs.zip cs.tail).contains ('_', '_')
  if isSplit && cs.all (·.toNat < 0x80) then Number.double? (String.ofList (cs.filter (· != '_')))
  else none

def double : Check Double
  | .float x => .ok x
  | .int n =>
    match Double.ofInt n with
    | .infinite _ => .wrong 1
    | x => .ok x
  | .bool b => .ok (Double.ofInt (if b then 1 else 0))
  | v => written doubleText? v

/-- One of a fixed set of words. -/
def word (words : List (String × α)) : Check α
  | .str s => (words.lookup s).elim (.wrong 1) .ok
  | _ => .wrong 1

/-- Null, or a value of the shape. -/
def optional (check : Check α) : Check (Option α)
  | .null => .ok none
  | v => some <$> check v

def list (check : Check α) : Check (List α)
  | .list items => Checked.all (items.map check)
  | .set items => Checked.all (items.map fun s => check (.scalar s))
  | _ => .wrong 1

/-- A mapping with text keys. -/
def mapping (check : Check α) : Check (List (String × α))
  | .map members =>
    Checked.all (members.map fun (k, v) => Prod.mk <$> text (.scalar k) <*> check v)
  | _ => .wrong 1

/-- A mapping with text keys and any values, as it is. -/
def object : Check Value
  | .map members => Value.map <$> Checked.all (members.map fun (k, v) =>
      (fun s => (Scalar.str s, v)) <$> text (.scalar k))
  | _ => .wrong 1

/-! ## Members of a model -/

/-- A model: a mapping whose members are checked by name; others are left out. -/
def model (members : Value → Checked α) : Check α := fun v =>
  if v.isMap then members v else .wrong 1

/-- A member that must be there. -/
def required (check : Check α) (name : String) (v : Value) : Checked α :=
  (v.get? name).elim (.wrong 1) check

/-- A member with a value for when it is absent. -/
def withDefault (check : Check α) (default : α) (name : String) (v : Value) : Checked α :=
  (v.get? name).elim (.ok default) check

/-- A member that may be absent or null. -/
def perhaps (check : Check α) (name : String) (v : Value) : Checked (Option α) :=
  withDefault (optional check) none name v

end Check

end ApiContract
