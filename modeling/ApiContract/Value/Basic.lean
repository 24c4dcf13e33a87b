import ApiContract.Number.Double
import ApiContract.Value.Calendar

/-!
# Document values

The values a JSON or YAML document is made of. A `Scalar` is a leaf, and also what a mapping may
have as a key; a `Value` adds lists, sets and mappings. The members of a mapping stand in document
order; `Members.insert` keeps the position of a key that is already there, and its value is the last
one written.

Keys are compared by `Scalar.sameKey`, under which numbers are equal when their values are, whatever
their kind: `1`, `1.0` and `true` are one key.
-/

namespace ApiContract

inductive Scalar where
  | null
  | bool (value : Bool)
  | int (value : Int)
  | float (value : Double)
  | str (value : String)
  | date (value : Date)
  | dateTime (value : DateTime)
  | bytes (value : List UInt8)
  deriving DecidableEq, Repr, Inhabited

inductive Value where
  | scalar (leaf : Scalar)
  | list (items : List Value)
  | map (members : List (Scalar × Value))
  | set (items : List Scalar)
  deriving Repr, Inhabited

/-- The members of a mapping, in order. -/
abbrev Members := List (Scalar × Value)

namespace Value

@[match_pattern] abbrev null : Value := .scalar .null
@[match_pattern] abbrev bool (b : Bool) : Value := .scalar (.bool b)
@[match_pattern] abbrev int (n : Int) : Value := .scalar (.int n)
@[match_pattern] abbrev float (x : Double) : Value := .scalar (.float x)
@[match_pattern] abbrev str (s : String) : Value := .scalar (.str s)

mutual

/-- Equality of trees, term by term. -/
def decEq : (a b : Value) → Decidable (a = b)
  | .scalar x, .scalar y => decidable_of_iff (x = y) (by simp)
  | .list xs, .list ys =>
    match decEqList xs ys with
    | isTrue h => isTrue (by rw [h])
    | isFalse h => isFalse (by simpa using h)
  | .map xs, .map ys =>
    match decEqMembers xs ys with
    | isTrue h => isTrue (by rw [h])
    | isFalse h => isFalse (by simpa using h)
  | .set xs, .set ys => decidable_of_iff (xs = ys) (by simp)
  | .scalar _, .list _ | .scalar _, .map _ | .scalar _, .set _ => isFalse nofun
  | .list _, .scalar _ | .list _, .map _ | .list _, .set _ => isFalse nofun
  | .map _, .scalar _ | .map _, .list _ | .map _, .set _ => isFalse nofun
  | .set _, .scalar _ | .set _, .list _ | .set _, .map _ => isFalse nofun

def decEqList : (xs ys : List Value) → Decidable (xs = ys)
  | [], [] => isTrue rfl
  | [], _ :: _ | _ :: _, [] => isFalse nofun
  | x :: xs, y :: ys =>
    match decEq x y, decEqList xs ys with
    | isTrue h, isTrue t => isTrue (by rw [h, t])
    | isFalse h, _ => isFalse fun e => h (List.cons.inj e).1
    | _, isFalse t => isFalse fun e => t (List.cons.inj e).2

def decEqMembers : (xs ys : List (Scalar × Value)) → Decidable (xs = ys)
  | [], [] => isTrue rfl
  | [], _ :: _ | _ :: _, [] => isFalse nofun
  | (k, x) :: xs, (l, y) :: ys =>
    match decEq x y, decEqMembers xs ys, inferInstanceAs (Decidable (k = l)) with
    | isTrue h, isTrue t, isTrue s => isTrue (by rw [h, t, s])
    | isFalse h, _, _ => isFalse fun e => h (Prod.mk.inj (List.cons.inj e).1).2
    | _, isFalse t, _ => isFalse fun e => t (List.cons.inj e).2
    | _, _, isFalse s => isFalse fun e => s (Prod.mk.inj (List.cons.inj e).1).1

end

instance : DecidableEq Value := decEq

end Value

/-- What a scalar stands for as a key. Truth values and whole binary64 numbers are integers; a time
at a known offset is an instant of universal time. -/
inductive Key where
  | null
  | int (value : Int)
  | float (value : Double)
  | str (value : String)
  | date (value : Date)
  | localTime (value : DateTime)
  | instant (microseconds : Int)
  | bytes (value : List UInt8)
  deriving DecidableEq, Repr

namespace Scalar

def key : Scalar → Key
  | .null => .null
  | .bool b => .int (if b then 1 else 0)
  | .int n => .int n
  | .float x => (x.toInt?.map Key.int).getD (.float x)
  | .str s => .str s
  | .date d => .date d
  | .dateTime t => (t.instant?.map Key.instant).getD (.localTime t)
  | .bytes b => .bytes b

/-- Whether two scalars are the same key. -/
def sameKey (a b : Scalar) : Bool := a.key == b.key

@[simp] theorem sameKey_str (s t : String) : sameKey (.str s) (.str t) = (s == t) :=
  Bool.eq_iff_iff.2 (by simp [sameKey, key])

@[simp] theorem sameKey_self (s : Scalar) : s.sameKey s = true := by simp [sameKey]

end Scalar

namespace Members

/-- The value of the first member with this key. -/
def find? (members : Members) (key : Scalar) : Option Value :=
  (List.find? (fun (k, _) => k.sameKey key) members).map (·.2)

def contains (members : Members) (key : Scalar) : Bool :=
  List.any members fun (k, _) => k.sameKey key

/-- Writes a member: a key that is there keeps its place and takes the new value. -/
def insert (members : Members) (key : Scalar) (value : Value) : Members :=
  match members with
  | [] => [(key, value)]
  | (k, v) :: rest => if k.sameKey key then (k, value) :: rest else (k, v) :: insert rest key value

/-- The mapping that writing the pairs one after the other gives. -/
def ofList (pairs : List (Scalar × Value)) : Members :=
  pairs.foldl (fun members (k, v) => members.insert k v) []

/-- The value under a text key. -/
def get? (members : Members) (name : String) : Option Value := members.find? (.str name)

end Members

namespace Value

/-- The member of a mapping under a text key; other values have none. -/
def get? (v : Value) (name : String) : Option Value :=
  match v with
  | .map members => Members.get? members name
  | _ => none

/-- The member under a text key, with an absent one read as null. -/
def field (v : Value) (name : String) : Value := (v.get? name).getD .null

def isMap : Value → Bool
  | .map _ => true
  | _ => false

def isNull : Value → Bool
  | .null => true
  | _ => false

def str? : Value → Option String
  | .str s => some s
  | _ => none

/-- Whether a value counts as present in a condition: neither null, false, zero nor empty. -/
def isTruthy : Value → Bool
  | .scalar leaf =>
    match leaf with
    | .null => false
    | .bool b => b
    | .int n => n != 0
    | .float x => !x.isZero
    | .str s => !s.isEmpty
    | .bytes b => !b.isEmpty
    | .date _ | .dateTime _ => true
  | .list items => !items.isEmpty
  | .map members => !members.isEmpty
  | .set items => !items.isEmpty

/-- The word for a value's kind in messages. -/
def kindName : Value → String
  | .scalar leaf =>
    match leaf with
    | .null => "NoneType"
    | .bool _ => "bool"
    | .int _ => "int"
    | .float _ => "float"
    | .str _ => "str"
    | .date _ => "date"
    | .dateTime _ => "datetime"
    | .bytes _ => "bytes"
  | .list _ => "list"
  | .map _ => "dict"
  | .set _ => "set"

/-- The values that going through a value gives: the items of a list, the keys of a mapping, the
characters of a text; other scalars have none and cannot be gone through. -/
def elements? : Value → Option (List Value)
  | .list items => some items
  | .map members => some (members.map fun (k, _) => .scalar k)
  | .set items => some (items.map .scalar)
  | .str s => some (s.toList.map fun c => .str c.toString)
  | .scalar (.bytes b) => some (b.map fun x => .int x.toNat)
  | .scalar _ => none

end Value

end ApiContract
