import ApiContract.OpenApi.Operation
import ApiContract.Reference
import ApiContract.Value.Display

/-!
# The parameters of an operation

A path gives parameters to all its operations, and an operation may override them by name and
location. References that lead nowhere, entries that are no mappings and unknown locations are left
out with a warning; everything else lands in one place, and a parameter of the path is always
required.
-/

namespace ApiContract.OpenApi

/-- The entries of a list of nodes, which may be absent. -/
def entriesOf (v : Value) : Except Failure (List Value) :=
  if v.isTruthy then
    match v.elements? with
    | some items => .ok items
    | none => .error .unexpected
  else .ok []

/-- The members of a node that must be a mapping, unless it is absent or empty. -/
def membersOf (v : Value) : Except Failure Members :=
  match v with
  | .map members => .ok members
  | v => if v.isTruthy then .error .unexpected else .ok []

/-- Name and location of a parameter node, as texts; an absent part is empty. -/
def parameterKey (node : Value) : String × String :=
  let part (name : String) : String := ((node.get? name).map Value.text).getD ""
  (part "name", part "in")

/-- The nodes of the path that no node of the operation overrides, then those of the operation. -/
def mergeParameters (shared own : List Value) : List Value :=
  let keys := (own.filter (!Reference.isReference ·)).map parameterKey
  shared.filter (fun p => Reference.isReference p || !keys.contains (parameterKey p)) ++ own

/-- A schema with its outer references followed; anything but a mapping is no schema. -/
def schemaAt (document node : Value) : Except Failure (Option Value) := do
  if !node.isMap then return none
  let target ← Reference.resolve document node
  return some (if target.isMap then target else node)

/-- One node: a parameter, or the reason for leaving it out. -/
def readParameter (document : Value) (method : Method) (path : String) (node : Value) :
    Except Failure (Warning ⊕ Parameter) :=
  match Reference.pointer? node with
  | some pointer => .ok (.inl (.parameterUnresolved method path pointer))
  | none =>
    if !node.isMap then .ok (.inl (.parameterMalformed method path))
    else
      match (node.field "in").str?.bind Location.ofName? with
      | none => .ok <| .inl <|
        .parameterMisplaced method path (node.field "name").text (node.field "in").text
      | some location => do
        let schema ← schemaAt document (node.field "schema")
        let checked :=
          (fun description schema =>
            Parameter.mk (parameterKey node).1 location
              (location == .path || (node.field "required").isTruthy) description schema
              (node.field "deprecated").isTruthy)
          <$> Check.perhaps Check.text "description" node
          <*> Check.optional Check.object (schema.getD .null)
        .inr <$> checked.toExcept "ParsedParameter"

/-- All nodes, up to the first that fails: the warnings, and the parameters unless one failed. -/
def readParameters (document : Value) (method : Method) (path : String) :
    List Value → List Warning × Except Failure (List Parameter)
  | [] => ([], .ok [])
  | node :: rest =>
    match readParameter document method path node with
    | .error failure => ([], .error failure)
    | .ok (.inl warning) =>
      let (warnings, parameters) := readParameters document method path rest
      (warning :: warnings, parameters)
    | .ok (.inr parameter) =>
      let (warnings, parameters) := readParameters document method path rest
      (warnings, (parameter :: ·) <$> parameters)

end ApiContract.OpenApi
