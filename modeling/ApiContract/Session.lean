import ApiContract.Drift.Sync
import ApiContract.Export.Document
import ApiContract.Import.Batch

/-!
# Sessions

A session keeps documents, imports, registries and diffs under names, and each step makes one of
them from others. A step that fails leaves the session as it is.
-/

namespace ApiContract

open Contract (OperationSpec)

/-- A registry of operations. -/
abbrev Operations := Contract.Registry OperationSpec

structure Session where
  documents : Named OpenApi.Api := []
  imports : Named Import.Result := []
  registries : Named Operations := []
  diffs : Named (List Drift.SpecDiff) := []

namespace Session

/-- What a name stands for. -/
def known {α : Type} (entries : Named α) (name : String) : Except Failure α :=
  match entries.get? name with
  | some entry => .ok entry
  | none => .error .unexpected

/-- The registry of a name, empty if there is none yet. -/
def registry (s : Session) (name : String) : Operations := (s.registries.get? name).getD .empty

def setRegistry (s : Session) (name : String) (r : Operations) : Session :=
  { s with registries := s.registries.insert name r }

/-- The session with a registry of this name. -/
def openRegistry (s : Session) (name : String) : Session := s.setRegistry name (s.registry name)

/-- Reads a document. -/
def load (s : Session) (name : String) (document : Value) :
    Except Failure (OpenApi.Api × Session) := do
  let api ← OpenApi.Api.ofDocument document
  return (api, { s with documents := s.documents.insert name api })

/-- Imports a document that was read. -/
def importFrom (s : Session) (name source : String) (options : Import.Options) :
    Except Failure (Import.Result × Session) := do
  let result := Import.importAll (← known s.documents source) options
  return (result, { s with imports := s.imports.insert name result })

/-- Registers the specs of imported operations one after the other, each with its own result. -/
def registerEach (r : Operations) :
    List Import.Imported → List (Except Failure OperationSpec) × Operations
  | [] => ([], r)
  | item :: rest =>
    let attempt : Except Failure (OperationSpec × Operations) := do
      let some spec := item.spec | throw .unexpected
      return (spec, ← r.register spec)
    match attempt with
    | .ok (spec, r) =>
      let (results, r) := registerEach r rest
      (.ok spec :: results, r)
    | .error cause =>
      let (results, r) := registerEach r rest
      (.error cause :: results, r)

/-- Registers the specs of an import, of all its operations or of some. -/
def registerImported (s : Session) (name source : String) (only : Option (List String)) :
    Except Failure (List (Except Failure OperationSpec) × Session) := do
  let result ← known s.imports source
  let items := result.specs.filter fun item => only.all (·.contains item.source.id)
  let (results, r) := registerEach (s.registry name) items
  return (results, s.setRegistry name r)

/-- Exports a registry and reads the document back. -/
def exportFrom (s : Session) (name source : String) (options : Export.Options) :
    Except Failure (Value × OpenApi.Api × Session) := do
  let document := Value.map (Export.openApi (← known s.registries source) options)
  let (api, s) ← s.load name document
  return (document, api, s)

/-- Compares the specs of a registry with those of an import. -/
def diff (s : Session) (name registry source : String) (options : Drift.Options) :
    Except Failure (List Drift.SpecDiff × Session) := do
  let specs := (← known s.registries registry).toList
  let result ← known s.imports source
  let diffs := Drift.diffAll options (Named.ofList (specs.map fun spec => (spec.key, spec)))
    result.specs
  return (diffs, { s with diffs := s.diffs.insert name diffs })

/-- Decides on the diffs with an id. The decision is asked for only where there is such a diff. -/
def resolve (s : Session) (name id : String) (decision : Except Failure Drift.Resolution) :
    Except Failure (List Drift.SpecDiff × Session) := do
  let diffs ← (← known s.diffs name).mapM fun d =>
    if d.id = id then d.resolve <$> decision else .ok d
  return (diffs, { s with diffs := s.diffs.insert name diffs })

/-- The specs of a registry with the operations of a document that they stand for, and the reports
on how these have drifted. -/
def validate (s : Session) (registry source : String) (options : Drift.Options) :
    Except Failure (List (OperationSpec × Option (OpenApi.Operation × String))) := do
  let specs := (← known s.registries registry).toList
  let api ← known s.documents source
  specs.mapM fun spec => do
    match ← Drift.findOperation spec api.operations with
    | none => return (spec, none)
    | some operation =>
      let report ← Drift.report (Drift.compareWithOperation options spec operation)
      return (spec, some (operation, report))

end Session

end ApiContract
