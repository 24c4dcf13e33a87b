import ApiContract.Cli.Action
import ApiContract.Cli.Command
import ApiContract.Export.Document
import ApiContract.Export.RegistryFile

/-!
# The export command

Exports the registries of a file as a document, to the output or to a file, and if wanted the
generated code of the registries as well.
-/

namespace ApiContract.Cli

open Console (Message)
open Files (Path)

def exportOptions (a : ExportArguments) : Export.Options where
  title := a.title
  version := a.version
  description := a.description
  servers := a.servers.map fun url => ⟨url, none, none⟩
  includeRegistryCode := false

/-- The log of an export: specs without a place of their own, and references that lead nowhere. -/
def exportLog (registries : Contract.Registries) : List Message :=
  let layout := Export.layout (registries.operations.getD .empty)
  let say (text : String) : Message := .log .warning (Action.part "exporter") text
  layout.collisions.map (fun c =>
    say (s!"Skipping {c.spec.key}: {c.spec.verb} {c.spec.path} is already exported by " ++
      c.winner.operationId)) ++
  (Export.body layout.placed).dropped.map fun target =>
    say s!"Dropping unresolvable schema reference {target.text}"

/-- The number of paths of a document. -/
def pathCount (document : Value) : Nat :=
  match document.field "paths" with
  | .map members => members.length
  | _ => 0

open Cli.Action in
/-- Writes the generated code of the registries into a directory. -/
def writeRegistryCode (registries : Contract.Registries) (directory : Path) : Action Unit := do
  let config ← query (·.config {})
  let files := Export.registryFiles registries config.conventions
  writeAll (files.map fun file => (directory.child file.fileName, file.code))
  say (.info s!"Wrote {files.length} registry file(s) to {directory.text}")

open Cli.Action in
def exportRegistries (a : ExportArguments) : Action Unit := do
  let file := Path.ofString a.registryFile
  let registries ← query (·.registries file file.text)
  sayAll (exportLog registries)
  let document := Export.document registries (exportOptions a)
  if let some directory := a.registryCode then
    writeRegistryCode registries (Path.ofString directory)
  let text ←
    if a.asYaml then pure (Export.yamlText document)
    else
      match Export.jsonText? document with
      | some text => pure text
      | none => fail .unexpected
  match a.output with
  | some output =>
    let output := Path.ofString output
    update (·.write output text)
    say (.info s!"Wrote {pathCount document} path(s) to {output.text}")
  | none => say (if a.asYaml then .code text else .json document)

end ApiContract.Cli
