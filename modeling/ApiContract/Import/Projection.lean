import ApiContract.Import.Result
import ApiContract.Value.Record

/-!
# The result of an import as a plain value
-/

namespace ApiContract.Import

def RequestHints.toValue (h : RequestHints) : Value := record [
  ("rest", record [("method", .str h.verb), ("path", .str h.path),
    ("params", record [("path", texts h.pathParams), ("query", texts h.queryParams),
      ("header", texts h.headerParams), ("cookie", texts h.cookieParams)])]),
  ("graphql", .null)]

def Source.toValue (s : Source) : Value := record [
  ("type", .str "openapi"), ("source_id", .str s.id), ("operation_id", .str s.id),
  ("url", orNull .str s.url), ("file", orNull .str s.file),
  ("openapi_version", orNull .str s.openApiVersion)]

def skippedValue (entry : String × SkipReason) : Value :=
  record [("source_id", .str entry.1), ("reason", .str entry.2.message)]

def failedValue (entry : String × Failure) : Value :=
  record [("source_id", .str entry.1), ("error", .str entry.2.quoted)]

/-- The numbers of operations, by outcome. -/
def Result.summary (r : Result) : Value := record [
  ("total", .int r.outcomes.length), ("imported", .int r.specs.length),
  ("skipped", .int r.skipped.length), ("errors", .int r.failed.length)]

/-- A result, with its specs in the form that `spec` gives them. -/
def Result.members (r : Result) (spec : Contract.OperationSpec → Value) : List (String × Value) :=
  let item (i : Imported) : Value := record [
    ("code", .str i.code), ("file_name", .str i.fileName), ("spec", orNull spec i.spec),
    ("transport", i.hints.toValue), ("source", i.source.toValue)]
  [("specs", .list (r.specs.map item)), ("skipped", .list (r.skipped.map skippedValue)),
    ("errors", .list (r.failed.map failedValue)), ("summary", r.summary)]

end ApiContract.Import
