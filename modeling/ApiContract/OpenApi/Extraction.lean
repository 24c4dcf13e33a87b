import ApiContract.OpenApi.OperationId
import ApiContract.OpenApi.Parameters

/-!
# Reading one operation

An operation is read from its node, the parameters of its path and the document that references
lead into. Reading fails as a whole or not at all; the warnings given until then stand in any case.
-/

namespace ApiContract.OpenApi

/-- A place for an operation: a method of a path that has a node. -/
structure Slot where
  method : Method
  path : String
  node : Value
  /-- The parameters that the path gives to all its operations. -/
  shared : Value
  deriving DecidableEq, Repr

/-- What reading a slot gives. -/
structure Reading where
  warnings : List Warning
  result : Except Failure Operation

/-- The first kind of content, and its node if that is a mapping. -/
def firstContent (content : Value) : Option String × Option Value :=
  match content with
  | .map ((type, media) :: _) => (some type.text, if media.isMap then some media else none)
  | _ => (none, none)

/-- The body of a request. A body without a schema is none. -/
def readRequestBody (document node : Value) : Except Failure (Option RequestBody) := do
  if node.isNull then return none
  let body ← Reference.resolve document node
  if !body.isMap || Reference.isReference body then return none
  let (type, media) := firstContent (body.field "content")
  match media.bind (·.get? "schema") with
  | none => return none
  | some schema =>
    let schema ← schemaAt document schema
    let checked := Check.optional Check.object (schema.getD .null)
    let type := (type.filter (!·.isEmpty)).getD "application/json"
    let build := RequestBody.mk (body.field "required").isTruthy type
    ((fun schema => some (build schema)) <$> checked).toExcept "RequestBodyInfo"

/-- The answer under one status; what is no mapping is none. -/
def readResponse (document node : Value) : Except Failure (Option Response) := do
  let response ← Reference.resolve document node
  if !response.isMap || Reference.isReference response then return none
  let (type, media) := firstContent (response.field "content")
  let schema ← schemaAt document ((media.map (·.field "schema")).getD .null)
  let checked :=
    (fun description schema => some (Response.mk description type schema))
    <$> Check.perhaps Check.text "description" response
    <*> Check.optional Check.object (schema.getD .null)
  checked.toExcept "ResponseInfo"

/-- The answers by status, in document order. -/
def readResponses (document node : Value) : Except Failure (Named Response) := do
  let .map members := node | return []
  let read ← members.mapM fun (status, node) => do
    return (← readResponse document node).map (status.text, ·)
  return Named.ofList (read.filterMap id)

/-- An operation with its parameters. -/
def readOperation (document : Value) (slot : Slot) (parameters : List Parameter) :
    Except Failure Operation := do
  let node := slot.node
  let tags ← entriesOf (node.field "tags")
  let body ← readRequestBody document (node.field "requestBody")
  let responses ← readResponses document (node.field "responses")
  let id := node.field "operationId"
  let id := if id.isTruthy then id else .str (generateOperationId slot.method.name slot.path)
  let among (location : Location) := parameters.filter (·.location == location)
  let identity := node.field "x-contractspec"
  let checked :=
    (fun id summary description security identity =>
      Operation.mk id slot.method slot.path summary description (tags.map Value.text)
        (among .path) (among .query) (among .header) (among .cookie) body responses
        (node.field "deprecated").isTruthy security identity)
    <$> Check.text id
    <*> Check.perhaps Check.text "summary" node
    <*> Check.perhaps Check.text "description" node
    <*> Check.withDefault securityCheck none "security" node
    <*> Check.optional Check.object (if identity.isMap then identity else .null)
  checked.toExcept "ParsedOperation"

/-- The nodes of the parameters of a slot, references followed. -/
def parameterNodes (document : Value) (slot : Slot) : Except Failure (List Value) := do
  let shared ← (← entriesOf slot.shared).mapM (Reference.resolve document)
  let own ← (← entriesOf (slot.node.field "parameters")).mapM (Reference.resolve document)
  return mergeParameters shared own

/-- Reads the operation of a slot. -/
def readSlot (document : Value) (slot : Slot) : Reading :=
  if !slot.node.isMap then ⟨[], .error (.document .operationNotMapping)⟩
  else
    match parameterNodes document slot with
    | .error failure => ⟨[], .error failure⟩
    | .ok nodes =>
      let (warnings, parameters) := readParameters document slot.method slot.path nodes
      ⟨warnings, parameters >>= readOperation document slot⟩

end ApiContract.OpenApi
