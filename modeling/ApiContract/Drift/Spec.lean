import ApiContract.Contract.Projection
import ApiContract.Drift.Compare
import ApiContract.Export.Address
import ApiContract.OpenApi.Operation

/-!
# Comparing specs

Two specs are compared part by part: header, input and output as JSON Schema, transport, policy. A
spec is also compared with an operation of a document, as far as the operation says what the spec
does.
-/

namespace ApiContract.Drift

open Contract OpenApi

/-- The members of a value that is a mapping. -/
def membersOfValue : Value → Members
  | .map members => members
  | _ => []

/-- Input and output of a spec as JSON Schema. -/
def schemaTree (spec : OperationSpec) : Members :=
  memberIf "input" SchemaModel.toJsonSchema spec.input ++
    memberIf "output" SchemaModel.toJsonSchema spec.output

/-- The paths that hold descriptions. -/
def descriptionPaths : List String := ["meta.description", "meta.goal", "meta.context"]

/-- The paths that are left out of a comparison of specs. -/
def ignoredPaths (options : Options) : List String :=
  options.ignorePaths ++ (if options.ignoreDescriptions then descriptionPaths else []) ++
    (if options.ignoreTags then ["meta.tags"] else [])

/-- The changes from one spec to another. -/
def compareSpecs (options : Options) (old new : OperationSpec) : List Change :=
  let paths := ignoredPaths options
  let deep : Scope := ⟨paths, options.ignoreDescriptions⟩
  let flat : Scope := ⟨paths, false⟩
  let transport (spec : OperationSpec) : Option Members :=
    spec.transport.map fun t => membersOfValue t.toValue
  compareMembers deep "meta" (membersOfValue old.header.toValue)
      (membersOfValue new.header.toValue) ++
    compareMembers deep "io" (schemaTree old) (schemaTree new) ++
    (if options.ignoreTransport then []
      else compareTrees flat "transport" (transport old) (transport new)) ++
    compareMembers flat "policy" (membersOfValue old.auth.policy) (membersOfValue new.auth.policy)

/-! ## Specs and operations -/

/-- A change of a text. -/
def textChange (path old new description : String) : List Change :=
  if old = new then [] else [⟨path, .modified, .str old, .str new, description⟩]

/-- A text that may be absent. -/
def optionalText (s : Option String) : Value := (s.map Value.str).getD .null

def descriptionChange (spec : OperationSpec) (operation : Operation) : List Change :=
  let text := (OperationSpec.nonEmpty operation.summary).or operation.description
  (compare "meta.description" (optionalText spec.header.description) (optionalText text)
    "Description changed").toList

/-- A list of names in order. -/
def sorted (names : List String) : List String := names.mergeSort fun a b => decide (a ≤ b)

def tagsChange (spec : OperationSpec) (operation : Operation) : List Change :=
  let old := sorted spec.header.tags
  let new := sorted operation.tags
  if old = new then []
  else [⟨"meta.tags", .modified, texts old, texts new, "Tags changed"⟩]

def transportChange (spec : OperationSpec) (operation : Operation) : List Change :=
  textChange "transport.rest.method" spec.verb operation.method.verb "HTTP method changed" ++
    match OperationSpec.nonEmpty (spec.rest?.bind (·.path)) with
    | some path => textChange "transport.rest.path" path operation.path "Path changed"
    | none => []

def stabilityChange (spec : OperationSpec) (operation : Operation) : List Change :=
  if decide (spec.header.stability = .deprecated) = operation.deprecated then []
  else
    let new : Stability := if operation.deprecated then .deprecated else .stable
    [⟨"meta.stability", .modified, .str spec.header.stability.name, .str new.name,
      "Deprecation status changed"⟩]

/-- The changes from a spec to an operation of a document. -/
def compareWithOperation (options : Options) (spec : OperationSpec) (operation : Operation) :
    List Change :=
  let changes :=
    (if options.ignoreDescriptions then [] else descriptionChange spec operation) ++
      (if options.ignoreTags then [] else tagsChange spec operation) ++
      (if options.ignoreTransport then [] else transportChange spec operation) ++
      stabilityChange spec operation
  changes.filter fun c => !isIgnored options.ignorePaths c.path

end ApiContract.Drift
