import ApiContract.Cli.Action
import ApiContract.Cli.Command
import ApiContract.Files.Tree
import ApiContract.Import.Result

/-!
# The import command

Imports a document and writes a file for every operation, among the operations, and for every model
of a component, among the models. A dry run lists the files and their sizes.
-/

namespace ApiContract.Import

open Codegen Files

/-- A file to be written. -/
abbrev PlannedFile := Path × String

def operationFile (root : Path) (conventions : Conventions) (item : Imported) : PlannedFile :=
  ((root.child conventions.operations).child item.fileName, item.code)

def modelFile (root : Path) (conventions : Conventions) (model : GeneratedCode) : PlannedFile :=
  ((root.child conventions.models).child (Naming.fileName model.name), model.code)

/-- The files of an import, in the order in which they are written. -/
def plannedFiles (root : Path) (conventions : Conventions) (items : List Imported)
    (models : List GeneratedCode) : List PlannedFile :=
  items.map (operationFile root conventions) ++ models.map (modelFile root conventions)

end ApiContract.Import

namespace ApiContract.Cli

open Files (Path)

def importOptions (a : ImportArguments) (config : Config.Effective) : Import.Options :=
  let defaults := config.importDefaults
  let isRemote := Source.isUrl a.source
  { namePrefix := a.namePrefix.or defaults.namePrefix
    tags := a.tags
    included := a.included
    excluded := a.excluded
    includeDeprecated := a.includeDeprecated
    defaultStability := defaults.stability
    defaultOwners := defaults.owners
    defaultAuth := defaults.auth
    dialect := config.dialect
    sourceUrl := if isRemote then some a.source else none
    sourceFile := if isRemote then none else some a.source }

/-- Tells apart the models that could be generated and the causes of those that could not. -/
def partitionModels (models : List (Except Failure Codegen.GeneratedCode)) :
    List Failure × List Codegen.GeneratedCode :=
  (models.filterMap fun
      | .error cause => some cause
      | .ok _ => none,
    models.filterMap Except.toOption)

/-- What the user is told about operations without a file. -/
def omissions (result : Import.Result) : List Console.Message :=
  result.skipped.map (fun (id, reason) => .info s!"Skipped {id}: {reason.message}") ++
    result.failed.map fun (id, cause) => .warning s!"Failed {id}: {cause.quoted}"

/-- The planned files and their sizes. -/
def planTable (files : List Import.PlannedFile) : Console.Message :=
  .table ["File", "Bytes"] <| files.map fun (path, code) =>
    [.str path.text, .str (toString code.utf8ByteSize)]

/-- What the user is told at the end. -/
def importReport (result : Import.Result) (root : Path) (config : Config.Effective) :
    List Console.Message :=
  let imported := result.specs.length
  let counts := s!"Imported {imported}/{result.outcomes.length} operation(s) " ++
    s!"({result.skipped.length} skipped, {result.failed.length} failed)"
  let operations := root.child config.conventions.operations
  .info (counts ++ s!" into {root.text}") ::
    if imported = 0 then []
    else [.suggestion s!"Review the generated files under {operations.text}"]

open Cli.Action in
def importDocument (a : ImportArguments) : Action Unit := do
  let config ← query (·.config { dialect := a.dialect, outputDir := a.outputDir })
  let api ← loadApi config a.source
  let options := importOptions a config
  let result ← importApi api options
  let (causes, models) := partitionModels (Import.componentModels api options)
  sayAll (causes.map fun cause =>
    .log .warning (part "importer") s!"Skipping component: {cause.quoted}")
  sayAll (omissions result)
  let root := Path.ofString config.outputDir
  let files := Import.plannedFiles root config.conventions result.specs models
  if a.dryRun then say (planTable files)
  else
    writeAll files
    sayAll (importReport result root config)

end ApiContract.Cli
