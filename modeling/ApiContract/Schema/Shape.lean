import ApiContract.Contract.Model
import ApiContract.Reference
import ApiContract.Value.Display

/-!
# Schema nodes

What a JSON Schema node says, read leniently. A node that is no mapping says nothing. The type of a
node may be a list of types, of which the first that is not `null` counts; a node is nullable when
it says so or when `null` is among its types. An enumeration or a list of required names may be any
value that can be gone through.
-/

namespace ApiContract.Schema

open Contract (ScalarType)

/-- The type of a node, and whether null is allowed. -/
def typeOf (schema : Value) : Option String × Bool :=
  match schema with
  | .map _ =>
    let nullable := (schema.field "nullable").isTruthy
    match schema.field "type" with
    | .null => (none, nullable)
    | .list types =>
      let proper := types.filter (· != .str "null")
      (proper.head?.map Value.text, nullable || types.contains (.str "null"))
    | type => (some type.text, nullable)
  | _ => (none, false)

def isArray (schema : Value) : Bool := (typeOf schema).1 == some "array"

/-- Scalars by type, and by type and format. -/
def scalarTable : List (String × ScalarType) := [
  ("string", .string), ("integer", .int), ("number", .float), ("boolean", .boolean),
  ("string:date", .date), ("string:date-time", .dateTime), ("string:email", .email),
  ("string:uri", .url), ("string:uuid", .id)]

/-- The scalar for a type and a format; an unknown format does not count. -/
def scalarFor (type : Option String) (format : Value) : Option ScalarType := do
  let type ← type
  let special :=
    if format.isTruthy then scalarTable.lookup (type ++ ":" ++ format.text) else none
  special.or (scalarTable.lookup type)

/-- The scalar of a node with a scalar type, or of the items of a list. -/
def scalarType (schema : Value) : Option ScalarType :=
  if !schema.isMap || Reference.isReference schema then none
  else if isArray schema then
    match _h : schema.get? "items" with
    | some items => scalarType items
    | none => none
  else if (schema.field "enum").isTruthy then none
  else scalarFor (typeOf schema).1 (schema.field "format")
termination_by schema.size
decreasing_by exact Value.size_lt_of_get? (by assumption)

/-- The items of a value that is gone through. -/
def elements (v : Value) : Except Failure (List Value) :=
  match v.elements? with
  | some items => .ok items
  | none => .error .unexpected

/-- The values of an enumeration, `none` if there is no enumeration. -/
def enumValues (schema : Value) : Except Failure (Option (List Value)) :=
  let values := schema.field "enum"
  if values.isTruthy then some <$> elements values else .ok none

/-- A value as a key. -/
def asKey : Value → Except Failure Scalar
  | .scalar s => .ok s
  | _ => .error .unexpected

/-- The required names of an object. -/
def requiredKeys (schema : Value) : Except Failure (List Scalar) := do
  let names := schema.field "required"
  if names.isTruthy then (← elements names).mapM asKey else return []

def isRequired (keys : List Scalar) (property : Scalar) : Bool := keys.any (·.sameKey property)

/-- The properties of an object. -/
def properties? (schema : Value) : Option Members :=
  match schema.get? "properties" with
  | some (.map members) => some members
  | _ => none

theorem membersSize_lt_of_properties? {schema : Value} {ms : Members}
    (h : properties? schema = some ms) : membersSize ms < schema.size := by
  unfold properties? at h
  split at h
  · next members heq =>
    cases h
    exact Value.membersSize_lt_of_get? heq
  · cases h

end ApiContract.Schema
