import ApiContract.Import.Input
import ApiContract.Import.SpecFile
import ApiContract.OpenApi.Api
import ApiContract.Schema.Canonical

/-!
# Importing operations

Every operation of a document is imported on its own (`importOperation`), and ends as a spec, as
skipped with a reason, or as failed with a cause. The result of a whole document is the outcomes in
document order, so no operation has any effect on another.
-/

namespace ApiContract.Import

open Codegen Contract OpenApi

/-- Why an operation is not imported. -/
inductive SkipReason where
  | noMatchingTags (tags : List String)
  | notIncluded
  | excluded
  | deprecated
  deriving DecidableEq, Repr

def SkipReason.message : SkipReason → String
  | .noMatchingTags tags => "No matching tags (has: " ++ ", ".intercalate tags ++ ")"
  | .notIncluded => "Not in include list"
  | .excluded => "In exclude list"
  | .deprecated => "Deprecated operation"

/-- The first rule that leaves an operation out. -/
def skipReason? (operation : Operation) (options : Options) : Option SkipReason :=
  let wanted := options.tags.getD []
  let included := options.included.getD []
  if !wanted.isEmpty && !operation.tags.any wanted.contains then
    some (.noMatchingTags operation.tags)
  else if !included.isEmpty && !included.contains operation.id then some .notIncluded
  else if included.isEmpty && options.excluded.contains operation.id then some .excluded
  else if operation.deprecated && !options.includeDeprecated &&
      options.defaultStability ≠ .deprecated then
    some .deprecated
  else none

/-- The names of the parameters of a request. -/
structure RequestHints where
  verb : String
  path : String
  pathParams : List String
  queryParams : List String
  headerParams : List String
  cookieParams : List String
  deriving DecidableEq, Repr

def requestHints (operation : Operation) : RequestHints where
  verb := operation.method.verb
  path := operation.path
  pathParams := operation.pathParams.map (·.name)
  queryParams := operation.queryParams.map (·.name)
  headerParams := operation.headerParams.map (·.name)
  cookieParams := operation.cookieParams.map (·.name)

/-- Where an imported spec comes from. -/
structure Source where
  /-- The id of the operation. -/
  id : String
  url : Option String
  file : Option String
  openApiVersion : Option String
  deriving DecidableEq, Repr

/-- An imported operation. Without a spec there is only its code. -/
structure Imported where
  code : String
  fileName : String
  spec : Option OperationSpec
  hints : RequestHints
  source : Source

inductive Outcome where
  | imported (item : Imported)
  | skipped (id : String) (reason : SkipReason)
  | failed (id : String) (cause : Failure)

/-- The model of a schema in the dialect; its failure says which model cannot be generated. -/
def generateModel (dialect : Dialect) (schema : Value) (name : String) :
    Except Failure GeneratedCode :=
  (dialect.generateModel {} schema name .null).mapError (.generation name)

/-- The model of a schema, if there is a schema. -/
def generateModel? (dialect : Dialect) (schema : Option Value) (name : String) :
    Except Failure (Option GeneratedCode) :=
  match schema with
  | some schema => some <$> generateModel dialect schema name
  | none => .ok none

/-- The code of an operation. -/
def operationCode (operation : Operation) (options : Options) : Except Failure String := do
  let input ← generateModel? options.dialect (← inputSchema operation) (operation.id ++ "Input")
  let output ← generateModel? options.dialect operation.outputSchema (operation.id ++ "Output")
  return specFile operation options (← identityOf operation options.namePrefix) input output

/-- The canonical model of a schema, if there is a schema. -/
def canonicalModel? (schema : Option Value) (name : String) (document : Value) :
    Except Failure (Option SchemaModel) :=
  match schema with
  | some schema => some <$> Schema.modelOf schema name document
  | none => .ok none

/-- The spec of an operation; references lead into the document. -/
def operationSpec (operation : Operation) (options : Options) (document : Value) :
    Except Failure OperationSpec := do
  let schema ← inputSchema operation
  let identity ← identityOf operation options.namePrefix
  let base := Naming.pascalCase operation.id
  let input ← canonicalModel? schema (base ++ "Input") document
  let output ← canonicalModel? operation.outputSchema (base ++ "Output") document
  return {
    header := {
      name := identity.name
      version := identity.version
      kind := identity.kind
      stability := stabilityOf operation options.defaultStability
      owners := options.defaultOwners
      tags := operation.tags
      description := some (titleOf operation)
      goal := some (goalOf operation)
      context := some (contextOf operation) }
    input
    output
    auth := authOf operation options.defaultAuth
    transport := some {
      rest := some { method := some operation.method.verb, path := some operation.path }
      graphQl := none } }

/-- An operation that is not skipped, with its code and its spec. -/
def importSpec (api : Api) (options : Options) (operation : Operation) :
    Except Failure Imported := do
  let code ← operationCode operation options
  let spec ←
    if options.buildSpecs then some <$> operationSpec operation options api.document
    else pure none
  let identity ← identityOf operation options.namePrefix
  return {
    code
    fileName := Naming.fileName identity.name
    spec
    hints := requestHints operation
    source := ⟨operation.id, options.sourceUrl, options.sourceFile, some api.version⟩ }

/-- What becomes of one operation. -/
def importOperation (api : Api) (options : Options) (operation : Operation) : Outcome :=
  match skipReason? operation options with
  | some reason => .skipped operation.id reason
  | none =>
    match importSpec api options operation with
    | .ok item => .imported item
    | .error cause => .failed operation.id cause

/-- The outcomes of all operations, in document order. -/
structure Result where
  outcomes : List Outcome

namespace Result

def ofApi (api : Api) (options : Options) : Result :=
  ⟨api.operations.map (importOperation api options)⟩

def specs (r : Result) : List Imported :=
  r.outcomes.filterMap fun
    | .imported item => some item
    | _ => none

def skipped (r : Result) : List (String × SkipReason) :=
  r.outcomes.filterMap fun
    | .skipped id reason => some (id, reason)
    | _ => none

def failed (r : Result) : List (String × Failure) :=
  r.outcomes.filterMap fun
    | .failed id cause => some (id, cause)
    | _ => none

end Result

/-- The models of the components of a document; those that cannot be generated are the failures. -/
def componentModels (api : Api) (options : Options) : List (Except Failure GeneratedCode) :=
  api.schemas.map fun (name, schema) => generateModel options.dialect schema name

end ApiContract.Import
