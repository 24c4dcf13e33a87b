import ApiContract.Contract.Projection
import ApiContract.Export.Address
import ApiContract.Named

/-!
# Operation objects

One operation of an exported document. The fields of the input that its path names are path
parameters. The other fields are query parameters where the method carries no body; otherwise the
body is a reference to the component that holds the whole input.
-/

namespace ApiContract.Export

open Contract

/-- Methods whose input is in the query. -/
def queryVerbs : List String := ["GET", "DELETE", "HEAD"]

/-- The name that a run of characters begins with and a closing brace ends, and what follows. -/
def leadingName? (cs : List Char) : Option String :=
  let name := cs.takeWhile fun c => c != '\x7d' && c != '/'
  if !name.isEmpty && (cs.drop name.length).head? == some '\x7d' then some (String.ofList name)
  else none

/-- The names in braces in a path; `skip` characters belong to the last one. -/
def pathNamesFrom (skip : Nat) : List Char → List String
  | [] => []
  | c :: rest =>
    match skip with
    | k + 1 => pathNamesFrom k rest
    | 0 =>
      match if c = '\x7b' then leadingName? rest else none with
      | some name => name :: pathNamesFrom (name.length + 1) rest
      | none => pathNamesFrom 0 rest

/-- The names in braces in a path, in order. -/
def pathNames (path : String) : List String := pathNamesFrom 0 path.toList

def inputName (operationId : String) : String := "Input_" ++ operationId

def outputName (operationId : String) : String := "Output_" ++ operationId

def parameter (name location : String) (required : Bool) (schema : Value) : Value :=
  .map [member "name" (.str name), member "in" (.str location), member "required" (.bool required),
    member "schema" schema]

/-- The parameters of an operation: those of its path, then those of its query. -/
def parameters (spec : OperationSpec) : List Value :=
  let names := pathNames spec.path
  let fields := (spec.input.map (·.fields)).getD []
  let inPath := names.map fun name =>
    let schema := ((Named.get? fields name).map FieldSpec.toJsonSchema).getD
      (.map [member "type" (.str "string")])
    parameter name "path" true schema
  let inQuery :=
    if queryVerbs.contains spec.verb then
      (fields.filter fun (name, _) => !names.contains name).map fun (name, field) =>
        parameter name "query" (!field.isOptional) field.toJsonSchema
    else []
  inPath ++ inQuery

/-- Content that a component describes. -/
def jsonContent (component : String) : Value :=
  .map [member "application/json" (.map [member "schema" (componentReference component)])]

def bearerScheme : String := "bearerAuth"

/-- A member that is left out when its list is empty. -/
def memberUnlessEmpty (name : String) (items : List Value) : Members :=
  if items.isEmpty then [] else [member name (.list items)]

/-- The member for a text that is there and not empty. -/
def memberIfText (name : String) (s : Option String) : Members :=
  memberIf name .str (OperationSpec.nonEmpty s)

def requestBody (spec : OperationSpec) : Members :=
  if spec.input.isSome && !queryVerbs.contains spec.verb then
    [member "requestBody" (.map [member "required" (.bool true),
      member "content" (jsonContent (inputName spec.operationId))])]
  else []

def responses (spec : OperationSpec) : Value :=
  let content := if spec.output.isSome then
      [member "content" (jsonContent (outputName spec.operationId))]
    else []
  .map [member "200" (.map (member "description" (.str "Success") :: content))]

def security (spec : OperationSpec) : Value :=
  if spec.auth = .anonymous then .list [.map []]
  else .list [.map [member bearerScheme (.list [])]]

/-- The identity that the spec is imported back with. -/
def identity (spec : OperationSpec) : Value :=
  .map [member "name" (.str spec.header.name), member "version" (.int spec.header.version),
    member "kind" (.str spec.header.kind.name)]

/-- The operation object of a spec. -/
def operationObject (spec : OperationSpec) : Value :=
  .map <| [member "operationId" (.str spec.operationId)] ++
    memberIfText "summary" spec.header.description ++ memberIfText "description" spec.header.goal ++
    memberUnlessEmpty "tags" (spec.header.tags.map .str) ++ requestBody spec ++
    memberUnlessEmpty "parameters" (parameters spec) ++
    [member "responses" (responses spec), member "security" (security spec)] ++
    (if spec.header.stability = .deprecated then [member "deprecated" (.bool true)] else []) ++
    [member "x-contractspec" (identity spec)]

/-- The components of the models of a spec. -/
def ownComponents (spec : OperationSpec) : Named Value :=
  (spec.input.map fun m => (inputName spec.operationId, m.toJsonSchema)).toList ++
    (spec.output.map fun m => (outputName spec.operationId, m.toJsonSchema)).toList

end ApiContract.Export
