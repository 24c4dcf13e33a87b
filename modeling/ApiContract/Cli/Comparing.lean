import ApiContract.Cli.Action
import ApiContract.Cli.Command
import ApiContract.Drift.Summary

/-!
# The commands that compare

`diffDocuments` compares two documents operation by operation, the first as the existing specs and
the second as the imported ones. `validate` compares the operations of a registry with those of a
document, and where it is strict any drift is a failure.
-/

namespace ApiContract.Cli

open Console (Message)
open Contract (OperationSpec)

/-- Specs under their keys; of two with one key the later counts. -/
def specsByKey (items : List Import.Imported) : Named OperationSpec :=
  Named.ofList ((items.filterMap (·.spec)).map fun spec => (spec.key, spec))

/-- The log of a comparison. -/
def diffLog (diffs : List Drift.SpecDiff) : List Message :=
  diffs.filterMap fun d =>
    match d.sides with
    | .new _ => some (.log .debug (Action.part "differ") s!"No existing spec matches {d.id}")
    | _ => none

open Cli.Action in
def diffDocuments (a : DiffArguments) : Action Unit := do
  let some policy := Drift.MatchPolicy.ofName? a.policy
    | fail (.usage (.unknownMatchPolicy (Text.quoted a.policy)))
  let config ← query (·.config {})
  let options : Import.Options :=
    { namePrefix := a.namePrefix.or config.importDefaults.namePrefix, includeDeprecated := true }
  let existing ← importApi (← loadApi config a.old) options
  let incoming ← importApi (← loadApi config a.new) options
  let diffs := Drift.diffAll
    { ignoreDescriptions := a.ignoreDescriptions
      ignoreTags := a.ignoreTags
      ignoreTransport := a.ignoreTransport
      policy }
    (specsByKey existing.specs) incoming.specs
  sayAll (diffLog diffs)
  let result := Drift.SyncResult.ofDiffs diffs
  match (← get).settings.format with
  | .json => say (.json (plain result.toValue))
  | .plain => say (.data (← attempt result.report))

/-- The report on a spec that drifts from its operation in a document, if it does. -/
def driftReport (options : Drift.Options) (api : OpenApi.Api) (source : String)
    (spec : OperationSpec) : Except Failure (Option String) := do
  match ← Drift.findOperation spec api.operations with
  | none => return some s!"{spec.key}\n  - : Operation not found in {source}"
  | some operation =>
    let changes := Drift.compareWithOperation options spec operation
    if changes.isEmpty then return none
    let lines := Text.lines (← Drift.report changes)
    return some ("\n".intercalate (spec.key :: lines.map ("  " ++ ·)))

open Cli.Action in
/-- Reports the drift of specs one after the other, and counts those that drift. -/
def reportDrift (options : Drift.Options) (api : OpenApi.Api) (source : String) :
    List OperationSpec → Action Nat
  | [] => return 0
  | spec :: rest => do
    match ← attempt (driftReport options api source spec) with
    | some text =>
      say (.data text)
      return (← reportDrift options api source rest) + 1
    | none => reportDrift options api source rest

open Cli.Action in
def validate (a : ValidateArguments) : Action Unit := do
  let file := Files.Path.ofString a.registryFile
  let registries ← query (·.registries file file.text)
  let api ← loadApi (← query (·.config {})) a.source
  let options : Drift.Options :=
    { ignoreDescriptions := a.ignoreDescriptions, ignoreTags := a.ignoreTags }
  let specs := (registries.operations.map (·.toList)).getD []
  if specs.isEmpty then say (.info s!"No operations in {file.text}")
  else
    let drifted ← reportDrift options api a.source specs
    if drifted = 0 then say (.info s!"All {specs.length} operation(s) match {a.source}")
    else
      let cause := Failure.drift drifted specs.length a.source
      if a.isStrict then fail cause else say (.info cause.message)

end ApiContract.Cli
