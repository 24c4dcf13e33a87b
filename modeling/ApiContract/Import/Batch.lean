import ApiContract.Codegen.Generator
import ApiContract.Import.Result

/-!
# Importing in a batch

All operations of a document are imported by one generator, one after the other. An operation that
fails leaves the generator in the middle of its models, and the next one goes on from there.
-/

namespace ApiContract.Import

open Codegen OpenApi

/-- A step of an import. -/
abbrev Generating (α : Type) := Stateful Generator α

/-- The model of a schema from the generator of the batch. -/
def generate (schema : Value) (name : String) : Generating GeneratedCode :=
  ExceptT.mk fun (g : Generator) =>
    let (code, g) := g.generateModel schema name .null
    (code.mapError (.generation name), g)

/-- The model of a schema, if there is a schema. -/
def generate? (schema : Option Value) (name : String) : Generating (Option GeneratedCode) :=
  match schema with
  | some schema => do return some (← generate schema name)
  | none => return none

/-- The code of an operation. -/
def generateCode (operation : Operation) (options : Options) : Generating String := do
  let schema ← inputSchema operation
  let input ← generate? schema (operation.id ++ "Input")
  let output ← generate? operation.outputSchema (operation.id ++ "Output")
  let identity ← identityOf operation options.namePrefix
  return specFile operation options identity input output

/-- An operation that is not skipped, with its code and its spec. -/
def generateSpec (api : Api) (options : Options) (operation : Operation) : Generating Imported := do
  let code ← generateCode operation options
  let spec ←
    if options.buildSpecs then some <$> operationSpec operation options api.document
    else pure none
  let identity ← identityOf operation options.namePrefix
  return {
    code
    fileName := Naming.fileName identity.name
    spec
    hints := requestHints operation
    source := ⟨operation.id, options.sourceUrl, options.sourceFile, some api.version⟩ }

/-- What becomes of one operation, and the generator after it. -/
def importNext (api : Api) (options : Options) (g : Generator) (operation : Operation) :
    Outcome × Generator :=
  match skipReason? operation options with
  | some reason => (.skipped operation.id reason, g)
  | none =>
    match (generateSpec api options operation).from g with
    | (.ok item, g) => (.imported item, g)
    | (.error cause, g) => (.failed operation.id cause, g)

/-- What becomes of some operations, one after the other. -/
def importEach (api : Api) (options : Options) (g : Generator) : List Operation → List Outcome
  | [] => []
  | operation :: rest =>
    let (outcome, g) := importNext api options g operation
    outcome :: importEach api options g rest

/-- Imports a document. -/
def importAll (api : Api) (options : Options) : Result :=
  ⟨importEach api options { dialect := options.dialect } api.operations⟩

end ApiContract.Import
