import ApiContract.Cli.Action
import ApiContract.Schema.Shape

/-!
# The commands that inspect

Tables of what a document holds: its operations, and the schemas of its components.
-/

namespace ApiContract.Cli

def pathHeaders : List String := ["Method", "Path", "Operation", "Response", "Deprecated"]

/-- The row of an operation. -/
def pathRow (operation : OpenApi.Operation) : List Value :=
  let response := (OpenApi.successResponse operation.responses).map (·.1)
  [.str operation.method.verb, .str operation.path, .str operation.id,
    .str (response.getD "-"), .str (if operation.deprecated then "Yes" else "")]

open Cli.Action in
def inspectPaths (source : String) : Action Unit := do
  let api ← loadApi (← query (·.config {})) source
  say (.table pathHeaders (api.operations.map pathRow))

/-- The properties that a row names at most. -/
def shownProperties : Nat := 5

/-- The names of the first properties of a schema. -/
def propertyList (schema : Value) : Except Failure String := do
  let members ← OpenApi.membersOf (schema.field "properties")
  let names ← (members.take shownProperties).mapM fun (key, _) =>
    match key with
    | .str name => pure name
    | _ => throw .unexpected
  let more := if shownProperties < members.length then "..." else ""
  return ", ".intercalate names ++ more

/-- The row of a schema: its type and first properties, or where it leads. -/
def schemaRow (name : String) (schema : Value) : Except Failure (List Value) := do
  match schema.get? "$ref" with
  | some target => return [.str name, .str "$ref", target]
  | none =>
    let (type, nullable) := Schema.typeOf schema
    let type := (type.filter (· ≠ "")).getD "object"
    return [.str name, .str (type ++ if nullable then " | null" else ""),
      .str (← propertyList schema)]

open Cli.Action in
def inspectSchemas (source : String) : Action Unit := do
  let api ← loadApi (← query (·.config {})) source
  if api.schemas.isEmpty then say (.info "No schemas defined in this document.")
  else
    let schemas := api.schemas.mergeSort fun a b => a.1 ≤ b.1
    let rows ← attempt (schemas.mapM fun (name, schema) => schemaRow name schema)
    say (.table ["Schema", "Type", "Properties"] rows)

end ApiContract.Cli
