import ApiContract.Value.Display

/-!
# Records

Values that are built member by member, in a fixed order. `plain` is the form that any value has in
JSON.
-/

namespace ApiContract

/-- A member of a value. -/
def member (name : String) (v : Value) : Scalar × Value := (.str name, v)

/-- A member that is left out when it is absent. -/
def memberIf {α : Type} (name : String) (toValue : α → Value) (v : Option α) : Members :=
  (v.map fun a => member name (toValue a)).toList

/-- A list of texts. -/
def texts (items : List String) : Value := .list (items.map .str)

/-- The text of a name in JSON, which has texts only: truth values are words in small letters. -/
def plainName : Scalar → String
  | .bool b => if b then "true" else "false"
  | .dateTime t => t.universalText
  | .bytes b => (String.fromUTF8? ⟨b.toArray⟩).getD ""
  | s => s.text

/-- A scalar as JSON can hold it; a number that is not finite has no form there. -/
def plainScalar : Scalar → Scalar
  | .date d => .str d.text
  | .dateTime t => .str t.universalText
  | .bytes b => .str ((String.fromUTF8? ⟨b.toArray⟩).getD "")
  | .float .nan | .float (.infinite _) => .null
  | s => s

mutual

/-- A value as JSON can hold it: dates as texts, sets as lists, and texts as keys. -/
def plain : Value → Value
  | .scalar s => .scalar (plainScalar s)
  | .list items => .list (plainItems items)
  | .map members => .map (plainMembers members)
  | .set items => .list (items.map fun s => .scalar (plainScalar s))

def plainItems : List Value → List Value
  | [] => []
  | v :: rest => plain v :: plainItems rest

def plainMembers : List (Scalar × Value) → List (Scalar × Value)
  | [] => []
  | (k, v) :: rest => (.str (plainName k), plain v) :: plainMembers rest

end

/-- A value that may be null. -/
def orNull {α : Type} (toValue : α → Value) : Option α → Value
  | some a => toValue a
  | none => .null

/-- The mapping of some members. -/
def record (members : List (String × Value)) : Value :=
  .map (members.map fun (name, v) => member name v)

end ApiContract
