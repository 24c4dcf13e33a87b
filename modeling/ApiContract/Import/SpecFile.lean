import ApiContract.Codegen.Lines
import ApiContract.Import.Identity
import ApiContract.Named

/-!
# The file of an imported operation

The generated file declares the input and output models of one operation, and the operation itself
as a command or a query.
-/

namespace ApiContract.Import

open Codegen Contract OpenApi

/-- The lines of a model, with a heading and an empty line behind it. -/
def modelSection (heading : String) (model : Option GeneratedCode) : List String :=
  match model with
  | some m => [heading, m.code, ""]
  | none => []

/-- The comment before the declaration. -/
def specComment (operation : Operation) : List String :=
  let about := (operation.description.filter (!·.isEmpty)).map fun d => [" *", " * " ++ d]
  ["/**", " * " ++ titleOf operation] ++ about.getD [] ++
    [" *", s!" * @source OpenAPI: {operation.method.verb} {operation.path}", " */"]

def defineFunction : OpKind → String
  | .command => "defineCommand"
  | .query => "defineQuery"

/-- A text as a JSON literal. -/
def jsonText (s : String) : String := String.ofList (Json.writeString true s)

/-- The declaration of an operation. -/
def specDeclaration (operation : Operation) (options : Options) (identity : Identity)
    (input output : Option GeneratedCode) : List String :=
  let name := Naming.exportName identity.name identity.version
  let outputLine := match output with
    | some m => "    output: " ++ m.name ++ ","
    | none => "    output: null, // TODO: Define output schema"
  ["export const " ++ name ++ " = " ++ defineFunction identity.kind ++ "(\x7b",
    "  meta: \x7b",
    "    name: " ++ stringLiteral identity.name ++ ",",
    s!"    version: {identity.version},",
    "    stability: " ++
      stringLiteral (stabilityOf operation options.defaultStability).name ++ ",",
    "    owners: [" ++ literalList options.defaultOwners ++ "],",
    "    tags: [" ++ literalList operation.tags ++ "],",
    "    description: " ++ jsonText (titleOf operation) ++ ",",
    "    goal: " ++ jsonText (goalOf operation) ++ ",",
    "    context: " ++ stringLiteral (contextOf operation) ++ ",",
    "  \x7d,",
    "  io: \x7b",
    "    input: " ++ (input.map (·.name)).getD "null" ++ ",",
    outputLine,
    "  \x7d,",
    "  policy: \x7b",
    "    auth: " ++ stringLiteral (authOf operation options.defaultAuth).name ++ ",",
    "  \x7d,",
    "  transport: \x7b",
    "    rest: \x7b",
    "      method: " ++ stringLiteral operation.method.verb ++ ",",
    "      path: " ++ stringLiteral operation.path ++ ",",
    "    \x7d,",
    "  \x7d,",
    "\x7d);"]

/-- The code of the file of one operation. -/
def specFile (operation : Operation) (options : Options) (identity : Identity)
    (input output : Option GeneratedCode) : String :=
  let imports := Distinct.ofList ((input.toList ++ output.toList).flatMap (·.imports))
  let lines := ["import \x7b defineCommand, defineQuery \x7d from '" ++ contractLibrary ++ "';"] ++
    imports ++ [""] ++ modelSection "// Input schema" input ++
    modelSection "// Output schema" output ++ specComment operation ++
    specDeclaration operation options identity input output
  joinLines lines ++ "\n"

end ApiContract.Import
