import ApiContract.Checked
import ApiContract.Named

/-!
# Operations of a document

What a document says about one method of one path. Parameters stand in one list per location, in
document order; the schemas are the nodes of the document, with at most the outer reference
followed. A fault in one part of a document does not stop the reading of the others: the part is left
out and a warning says so.
-/

namespace ApiContract.OpenApi

/-- The methods of a path, in the order in which they are read. -/
inductive Method where
  | get
  | post
  | put
  | delete
  | patch
  | head
  | options
  | trace
  deriving DecidableEq, Repr

namespace Method

/-- The name of a method in a document. -/
def name : Method → String
  | .get => "get"
  | .post => "post"
  | .put => "put"
  | .delete => "delete"
  | .patch => "patch"
  | .head => "head"
  | .options => "options"
  | .trace => "trace"

/-- The name of a method in a request. -/
def verb : Method → String
  | .get => "GET"
  | .post => "POST"
  | .put => "PUT"
  | .delete => "DELETE"
  | .patch => "PATCH"
  | .head => "HEAD"
  | .options => "OPTIONS"
  | .trace => "TRACE"

def all : List Method := [.get, .post, .put, .delete, .patch, .head, .options, .trace]

def check : Check Method := Check.word (all.map fun m => (m.name, m))

end Method

/-- Where a request carries a parameter. -/
inductive Location where
  | path
  | query
  | header
  | cookie
  deriving DecidableEq, Repr

namespace Location

def name : Location → String
  | .path => "path"
  | .query => "query"
  | .header => "header"
  | .cookie => "cookie"

def all : List Location := [.path, .query, .header, .cookie]

def ofName? (s : String) : Option Location := all.find? (·.name == s)

def check : Check Location := Check.word (all.map fun l => (l.name, l))

end Location

structure Parameter where
  name : String
  location : Location
  required : Bool
  description : Option String
  schema : Option Value
  deprecated : Bool
  deriving DecidableEq, Repr

/-- The body of a request: its first kind of content. -/
structure RequestBody where
  required : Bool
  contentType : String
  schema : Option Value
  deriving DecidableEq, Repr

/-- The answer to a request under one status: its first kind of content. -/
structure Response where
  description : Option String
  contentType : Option String
  schema : Option Value
  deriving DecidableEq, Repr

/-- One alternative of the security of an operation: schemes with their scopes. -/
abbrev Requirement := Named (List String)

structure Operation where
  id : String
  method : Method
  path : String
  summary : Option String
  description : Option String
  tags : List String
  pathParams : List Parameter
  queryParams : List Parameter
  headerParams : List Parameter
  cookieParams : List Parameter
  requestBody : Option RequestBody
  responses : Named Response
  deprecated : Bool
  security : Option (List Requirement)
  /-- The identity that the document gives the operation's contract. -/
  identity : Option Value
  deriving DecidableEq, Repr

/-! ## The answer to a successful request -/

/-- The statuses of success that are looked for first, in this order. -/
def preferredStatuses : List String := ["200", "201", "202", "204"]

/-- The answer whose schema describes the output: the first preferred status with a schema, or else
the first status of the two hundreds with one. -/
def successResponse (responses : Named Response) : Option (String × Response) :=
  let preferred := preferredStatuses.findSome? fun status =>
    (responses.get? status).map (status, ·) |>.filter (·.2.schema.isSome)
  preferred.or <|
    responses.find? fun (status, response) => status.startsWith "2" && response.schema.isSome

/-- The schema of an operation's output. -/
def Operation.outputSchema (operation : Operation) : Option Value :=
  (successResponse operation.responses).bind (·.2.schema)

/-! ## Warnings -/

inductive Warning where
  | pathsNotMapping
  | pathItemSkipped (path : String)
  | parameterUnresolved (method : Method) (path pointer : String)
  | parameterMalformed (method : Method) (path : String)
  | parameterMisplaced (method : Method) (path name location : String)
  | operationFailed (method : Method) (path : String) (cause : Failure)
  | idRenamed (method : Method) (path id unique : String)
  deriving DecidableEq, Repr

namespace Warning

/-- The operation that a warning is about. -/
def place (method : Method) (path : String) : String := s!"{method.verb} {path}"

def message : Warning → String
  | .pathsNotMapping => "'paths' is not a mapping; no operations extracted"
  | .pathItemSkipped path => s!"Skipping path item {path}: expected a mapping"
  | .parameterUnresolved method path pointer =>
    s!"{place method path}: unresolved parameter reference {pointer}"
  | .parameterMalformed method path => s!"{place method path}: ignoring malformed parameter"
  | .parameterMisplaced method path name location =>
    s!"{place method path}: ignoring parameter '{name}' with unknown location '{location}'"
  | .operationFailed method path cause => s!"Failed to parse {place method path}: {cause.quoted}"
  | .idRenamed method path id unique =>
    s!"Duplicate operationId '{id}' at {place method path}; renamed to '{unique}'"

/-- Whether a warning is written to the log as well. -/
def isLogged : Warning → Bool
  | .pathsNotMapping => false
  | _ => true

end Warning

/-! ## Checking -/

/-- Requirements of security. -/
def securityCheck : Check (Option (List Requirement)) :=
  Check.optional (Check.list (Check.mapping (Check.list Check.text)))

/-- The schema of a node, which may have a second name. -/
def schemaCheck (v : Value) : Checked (Option Value) :=
  Check.perhaps Check.object (if (v.get? "schema").isSome then "schema" else "schema_") v

def Parameter.check : Check Parameter := Check.model fun v =>
  Parameter.mk <$> Check.required Check.text "name" v
    <*> Check.required Location.check "location" v
    <*> Check.withDefault Check.bool false "required" v
    <*> Check.perhaps Check.text "description" v
    <*> schemaCheck v
    <*> Check.withDefault Check.bool false "deprecated" v

def RequestBody.check : Check RequestBody := Check.model fun v =>
  RequestBody.mk <$> Check.withDefault Check.bool false "required" v
    <*> Check.withDefault Check.text "application/json" "content_type" v
    <*> schemaCheck v

def Response.check : Check Response := Check.model fun v =>
  Response.mk <$> Check.perhaps Check.text "description" v
    <*> Check.perhaps Check.text "content_type" v
    <*> schemaCheck v

def Operation.check : Check Operation := Check.model fun v =>
  Operation.mk <$> Check.required Check.text "operation_id" v
    <*> Check.required Method.check "method" v
    <*> Check.required Check.text "path" v
    <*> Check.perhaps Check.text "summary" v
    <*> Check.perhaps Check.text "description" v
    <*> Check.withDefault (Check.list Check.text) [] "tags" v
    <*> Check.withDefault (Check.list Parameter.check) [] "path_params" v
    <*> Check.withDefault (Check.list Parameter.check) [] "query_params" v
    <*> Check.withDefault (Check.list Parameter.check) [] "header_params" v
    <*> Check.withDefault (Check.list Parameter.check) [] "cookie_params" v
    <*> Check.perhaps RequestBody.check "request_body" v
    <*> Check.withDefault (Check.mapping Response.check) [] "responses" v
    <*> Check.withDefault Check.bool false "deprecated" v
    <*> Check.withDefault securityCheck none "security" v
    <*> Check.perhaps Check.object "contract_spec_meta" v

end ApiContract.OpenApi
