import ApiContract.Codegen.Declaration
import ApiContract.Codegen.GraphQl
import ApiContract.Codegen.SchemaConstant
import ApiContract.Codegen.Zod

/-!
# Dialects

One schema, four kinds of generated code. Nothing is kept between two calls, so the code of a model
depends on its schema, name and description alone.
-/

namespace ApiContract.Codegen

inductive Dialect where
  | declaration
  | zod
  | jsonSchema
  | graphQl
  deriving DecidableEq, Repr, Inhabited

namespace Dialect

def name : Dialect → String
  | .declaration => "contractspec"
  | .zod => "zod"
  | .jsonSchema => "json-schema"
  | .graphQl => "graphql"

def all : List Dialect := [.declaration, .zod, .jsonSchema, .graphQl]

def ofName? (s : String) : Option Dialect := all.find? (·.name == s)

def check : Check Dialect := Check.word (all.map fun d => (d.name, d))

/-- What a file of a dialect imports in any case. -/
def baseImports : Dialect → List String
  | .declaration => [libraryImport]
  | .zod => Zod.baseImports
  | .jsonSchema => SchemaConstant.baseImports
  | .graphQl => GraphQl.baseImports

/-- The code of a named model. The description given, if any, is used instead of the schema's. -/
def generateModel (dialect : Dialect) (conventions : Conventions) (schema : Value) (name : String)
    (description : Value) : Except Failure GeneratedCode :=
  match dialect with
  | .declaration => Declaration.generateModel conventions schema name description
  | .zod => Zod.generateModel conventions schema name description
  | .jsonSchema => SchemaConstant.generateModel schema name description
  | .graphQl => GraphQl.generateModel schema name description

/-- The code of a single field. -/
def generateField (dialect : Dialect) (schema : Value) (name : String) (required : Bool) :
    Except Failure GeneratedField :=
  match dialect with
  | .declaration => Declaration.generateField schema name required
  | .zod => Zod.generateField schema required
  | .jsonSchema => SchemaConstant.generateField schema required
  | .graphQl => GraphQl.generateField schema required

end Dialect

end ApiContract.Codegen
