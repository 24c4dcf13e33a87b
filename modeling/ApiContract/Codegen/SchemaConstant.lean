import ApiContract.Codegen.Field
import ApiContract.Codegen.Lines

/-!
# Schema constants

The dialect that keeps the schema itself, as a constant with a title and the version of the schema
language. Members that the schema has of its own take the place of these.
-/

namespace ApiContract.Codegen.SchemaConstant

/-- The version of the schema language. -/
def schemaVersion : String := "https://json-schema.org/draft/2020-12/schema"

def baseImports : List String := [importLine ["JsonSchemaType"] schemaLibrary]

/-- The schema as it is written out. -/
def titled (symbol : String) (schema description : Value) : Value :=
  let own := match schema with
    | .map members => members
    | _ => []
  let start : Members := [(.str "$schema", .str schemaVersion), (.str "title", .str symbol)]
  let members := own.foldl (fun ms (k, v) => Members.insert ms k v) start
  .map (if description.isTruthy then Members.insert members (.str "description") description
    else members)

def generateModel (schema : Value) (name : String) (given : Value) :
    Except Failure GeneratedCode := do
  let symbol := Naming.modelName name
  let description := chooseDescription given schema
  let .some text := Json.write? .document (titled symbol schema description)
    | throw .unexpected
  let lines := blockComment (s!"JSON Schema: {symbol}" :: descriptionText description) ++ [
    s!"export const {symbol}Schema = {text} as const;",
    "",
    s!"export const {symbol} = new JsonSchemaType({symbol}Schema);",
    "",
    s!"export type {symbol} = unknown; // JSON Schema type inference not fully supported"]
  return { code := joinLines lines, fileName := Naming.fileName name, imports := baseImports,
           name := symbol }

def generateField (schema : Value) (required : Bool) : Except Failure GeneratedField := do
  let (type, nullable) := Schema.typeOf schema
  let code ← jsonLiteral schema
  let typeName := (type.filter (!·.isEmpty)).getD "unknown"
  return ⟨code, typeName, !required || nullable, type == some "array"⟩

end ApiContract.Codegen.SchemaConstant
