import ApiContract.OpenApi.Api
import ApiContract.Value.Record

/-!
# Documents as plain values

What was read from a document, written as a value again: records whose absent parts are null.
-/

namespace ApiContract.OpenApi

def Parameter.toValue (p : Parameter) : Value := record [
  ("name", .str p.name), ("location", .str p.location.name), ("required", .bool p.required),
  ("description", orNull .str p.description), ("schema", orNull id p.schema),
  ("deprecated", .bool p.deprecated)]

def RequestBody.toValue (b : RequestBody) : Value := record [
  ("required", .bool b.required), ("content_type", .str b.contentType),
  ("schema", orNull id b.schema)]

def Response.toValue (r : Response) : Value := record [
  ("description", orNull .str r.description), ("content_type", orNull .str r.contentType),
  ("schema", orNull id r.schema)]

def requirementValue (r : Requirement) : Value :=
  record (r.map fun (name, scopes) => (name, texts scopes))

def Operation.toValue (o : Operation) : Value :=
  let parameters (ps : List Parameter) : Value := .list (ps.map Parameter.toValue)
  record [
    ("operation_id", .str o.id), ("method", .str o.method.name), ("path", .str o.path),
    ("summary", orNull .str o.summary), ("description", orNull .str o.description),
    ("tags", texts o.tags), ("path_params", parameters o.pathParams),
    ("query_params", parameters o.queryParams), ("header_params", parameters o.headerParams),
    ("cookie_params", parameters o.cookieParams),
    ("request_body", orNull RequestBody.toValue o.requestBody),
    ("responses", .list (o.responses.map fun (status, r) => .list [.str status, r.toValue])),
    ("deprecated", .bool o.deprecated),
    ("security", orNull (fun rs : List Requirement => .list (rs.map requirementValue)) o.security),
    ("contract_spec_meta", orNull (fun v => v) o.identity),
    ("success", orNull .str ((successResponse o.responses).map (·.1)))]

def Info.toValue (i : Info) : Value := record [
  ("title", .str i.title), ("version", .str i.version),
  ("description", orNull .str i.description)]

def Server.toValue (s : Server) : Value := record [
  ("url", .str s.url), ("description", orNull .str s.description),
  ("variables", orNull id s.choices)]

def Api.toValue (api : Api) : Value := record [
  ("version", .str api.version), ("info", api.info.toValue),
  ("servers", .list (api.servers.map Server.toValue)),
  ("operations", .list (api.operations.map Operation.toValue)),
  ("schemas", .list (api.schemas.map fun (name, node) => .list [.str name, node])),
  ("warnings", texts (api.warnings.map (·.message)))]

end ApiContract.OpenApi
