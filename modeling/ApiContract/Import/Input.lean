import ApiContract.Named
import ApiContract.OpenApi.Parameters
import ApiContract.Schema.Shape
import ApiContract.Text.LetterCase

/-!
# The input of an operation

Everything a caller passes, merged into one object schema: path, query and header parameters, then
the properties of the body. A name that several sources have takes the schema of the last one, keeps
its first place, and is required if any of them requires it.
-/

namespace ApiContract.Import

open OpenApi

/-- One property of the input. -/
structure InputField where
  name : String
  schema : Value
  required : Bool
  deriving DecidableEq, Repr

/-- Headers that belong to the transport and are no input. -/
def reservedHeaders : List String := ["authorization", "content-type", "accept", "user-agent"]

def isReserved (header : String) : Bool := reservedHeaders.contains (Text.lower header)

/-- The property for a parameter. -/
def fieldOfParameter (p : Parameter) : InputField := ⟨p.name, p.schema.getD (.map []), p.required⟩

/-- The properties for a body: those of its schema, or the one property `body` for a reference. -/
def bodyFields (body : RequestBody) : Except Failure (List InputField) := do
  let some schema := body.schema | return []
  if Reference.isReference schema then return [⟨"body", schema, body.required⟩]
  let required ← Schema.requiredKeys schema
  let properties ← membersOf (schema.field "properties")
  return properties.map fun (name, node) => ⟨name.text, node, Schema.isRequired required name⟩

/-- All properties of the input, in order, with repetitions. -/
def inputFields (operation : Operation) : Except Failure (List InputField) := do
  let path := operation.pathParams.map fun p => { fieldOfParameter p with required := true }
  let query := operation.queryParams.map fieldOfParameter
  let header := (operation.headerParams.filter fun p => !isReserved p.name).map fieldOfParameter
  let body ← match operation.requestBody with
    | some body => bodyFields body
    | none => pure []
  return path ++ query ++ header ++ body

/-- The object schema of some properties. -/
def objectSchema (fields : List InputField) : Value :=
  let properties := Named.ofList (fields.map fun f => (f.name, f.schema))
  let required := Distinct.ofList ((fields.filter (·.required)).map (·.name))
  .map [(.str "type", .str "object"),
    (.str "properties", .map (properties.map fun (name, node) => (.str name, node))),
    (.str "required", .list (required.map .str))]

/-- The schema of an operation's input, or `none` if it takes no input. -/
def inputSchema (operation : Operation) : Except Failure (Option Value) := do
  let fields ← inputFields operation
  return if fields.isEmpty then none else some (objectSchema fields)

end ApiContract.Import
