import ApiContract.OpenApi.Extraction
import ApiContract.OpenApi.Version

/-!
# Reading a document

`Api.ofDocument` reads a whole document. Every slot is read on its own (`readSlot`), and what the
readings give is put together in document order: an operation whose id an earlier one has gets a
number behind its own. A document is refused only for its version, or for a fault outside its paths.
-/

namespace ApiContract.OpenApi

structure Info where
  title : String
  version : String
  description : Option String
  deriving DecidableEq, Repr

structure Server where
  url : String
  description : Option String
  /-- What may stand in the address where it has a name in brackets. -/
  choices : Option Value
  deriving DecidableEq, Repr

/-- A document with what was read from it. -/
structure Api where
  document : Value
  version : String
  info : Info
  servers : List Server
  operations : List Operation
  schemas : Named Value
  warnings : List Warning
  deriving DecidableEq, Repr

def Server.check : Check Server := Check.model fun v =>
  Server.mk <$> Check.required Check.text "url" v
    <*> Check.perhaps Check.text "description" v
    <*> Check.perhaps Check.object "variables" v

/-! ## Paths -/

/-- What stands under the paths of a document. -/
inductive PathEntry where
  | skipped (path : String)
  | slot (slot : Slot)
  deriving DecidableEq, Repr

/-- The slots of one path, in the order of the methods. -/
def slotsOf (path : String) (item : Value) : List Slot :=
  Method.all.filterMap fun method =>
    let node := item.field method.name
    if node.isNull then none else some ⟨method, path, node, item.field "parameters"⟩

/-- The entries of all paths, in document order. -/
def pathEntries (paths : Members) : List PathEntry :=
  paths.flatMap fun (path, item) =>
    if item.isMap then (slotsOf path.text item).map .slot else [.skipped path.text]

/-- Operations and warnings, in document order. -/
structure Harvest where
  operations : List Operation := []
  warnings : List Warning := []

/-- The operation as it is, or with a number behind its id if `earlier` operations had the id. -/
def numbered (operation : Operation) (earlier : Nat) : Operation × List Warning :=
  if earlier = 0 then (operation, [])
  else
    let unique := s!"{operation.id}_{earlier + 1}"
    ({ operation with id := unique },
      [.idRenamed operation.method operation.path operation.id unique])

/-- Reads the entries one after the other; `seen` holds the ids before renaming. -/
def harvest (document : Value) (seen : List String) : List PathEntry → Harvest
  | [] => {}
  | .skipped path :: rest =>
    let h := harvest document seen rest
    { h with warnings := .pathItemSkipped path :: h.warnings }
  | .slot slot :: rest =>
    let reading := readSlot document slot
    match reading.result with
    | .error cause =>
      let h := harvest document seen rest
      { h with warnings :=
          reading.warnings ++ .operationFailed slot.method slot.path cause :: h.warnings }
    | .ok operation =>
      let (operation', renamed) := numbered operation (seen.count operation.id)
      let h := harvest document (operation.id :: seen) rest
      { operations := operation' :: h.operations
        warnings := reading.warnings ++ renamed ++ h.warnings }

/-- What the `paths` of a document give. -/
def harvestPaths (document : Value) : Harvest :=
  match document.field "paths" with
  | .map members => harvest document [] (pathEntries members)
  | paths => if paths.isTruthy then { warnings := [.pathsNotMapping] } else {}

/-! ## The other sections -/

def readInfo (document : Value) : Except Failure Info := do
  let info := Value.map (← membersOf (document.field "info"))
  let part (name default : String) : String := ((info.get? name).map Value.text).getD default
  (Info.mk (part "title" "Untitled API") (part "version" "0.0.0")
    <$> Check.perhaps Check.text "description" info).toExcept "APIInfo"

/-- The component schemas that are mappings. -/
def readSchemas (document : Value) : Except Failure (Named Value) := do
  let components := Value.map (← membersOf (document.field "components"))
  let schemas ← membersOf (components.field "schemas")
  return Named.ofList ((schemas.filter (·.2.isMap)).map fun (name, node) => (name.text, node))

def readServers (document : Value) : Except Failure (List Server) := do
  let entries ← entriesOf (document.field "servers")
  (entries.filter Value.isMap).mapM fun entry =>
    (Server.mk <$> Check.withDefault Check.text "/" "url" entry
      <*> Check.perhaps Check.text "description" entry
      <*> Check.perhaps Check.object "variables" entry).toExcept "ServerInfo"

/-- Reads a document. -/
def Api.ofDocument (document : Value) : Except Failure Api := do
  if !document.isMap then throw (.document (.notMapping document.kindName))
  let version ← detectVersion document
  let { operations, warnings } := harvestPaths document
  let info ← readInfo document
  let schemas ← readSchemas document
  let servers ← readServers document
  let checked :=
    (fun document schemas =>
      { document, version, info, servers, operations, schemas, warnings : Api })
    <$> Check.object document
    <*> Checked.all (schemas.map fun (name, node) => (name, ·) <$> Check.object node)
  checked.toExcept "ParseResult"

end ApiContract.OpenApi
