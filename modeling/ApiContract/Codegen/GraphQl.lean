import ApiContract.Codegen.Field
import ApiContract.Codegen.Lines
import ApiContract.Codegen.Zod

/-!
# GraphQL types

The dialect of GraphQL type definitions, each held in a template literal. Nested objects have no
definition of their own and are of type `JSON`.
-/

namespace ApiContract.Codegen.GraphQl

def formats : List (String × String) := [
  ("date-time", "DateTime"), ("date", "Date"), ("email", "String"), ("uri", "String"),
  ("url", "String"), ("uuid", "ID")]

def types : List (String × String) := [
  ("string", "String"), ("integer", "Int"), ("number", "Float"), ("boolean", "Boolean"),
  ("object", "JSON"), ("array", "[JSON]")]

/-- The type of a node. -/
def typeName (schema : Value) : Except Failure String := do
  match Reference.pointer? schema with
  | some pointer => return referenceSymbol pointer
  | none =>
    let type := (Schema.typeOf schema).1
    let scalar : Except Failure String := do
      match ← Zod.lookupFormat formats (schema.field "format") with
      | some name => return name
      | none => return (type.bind fun t => types.lookup t).getD "JSON"
    if type = some "array" then
      match _h : schema.get? "items" with
      | some (.map items) => return "[" ++ (← typeName (.map items)) ++ "]"
      | _ => scalar
    else scalar
termination_by schema.size
decreasing_by exact Value.size_lt_of_get? (by assumption)

def generateField (schema : Value) (required : Bool) : Except Failure GeneratedField := do
  let name ← typeName schema
  if Reference.isReference schema then return ⟨name, name, !required, false⟩
  let (type, nullable) := Schema.typeOf schema
  return ⟨name, name, !required || nullable, type == some "array"⟩

def baseImports : List String := [importLine ["GraphQLSchemaType"] schemaLibrary]

/-- The line of a property; an exclamation mark says that it is required. -/
def propertyLine (required : List Scalar) (property : Scalar × Value) : Except Failure String := do
  let name ← typeName property.2
  let mark := if Schema.isRequired required property.1 then "!" else ""
  return s!"  {property.1.text}: {name}{mark}"

/-- The type definition of an object. -/
def typeDefinition (symbol : String) (schema description : Value) : Except Failure (List String) := do
  let required ← Schema.requiredKeys schema
  let properties ← ((Schema.properties? schema).getD []).mapM (propertyLine required)
  let about := (descriptionText description).map fun d => "\"\"\"" ++ d ++ "\"\"\""
  return about ++ ["type " ++ symbol ++ " \x7b"] ++ properties ++ ["\x7d"]

/-- A text inside a template literal: backquotes are escaped. -/
def templateText (s : String) : String :=
  String.ofList (s.toList.flatMap fun c => if c = '\x60' then ['\\', c] else [c])

def generateModel (schema : Value) (name : String) (given : Value) :
    Except Failure GeneratedCode := do
  let symbol := Naming.modelName name
  let definition ← typeDefinition symbol schema (chooseDescription given schema)
  let lines := blockComment [s!"GraphQL type definition: {symbol}"] ++ [
    s!"export const {symbol}TypeDef = \x60" ++ templateText (joinLines definition) ++ "\x60;",
    "",
    s!"export const {symbol} = new GraphQLSchemaType({symbol}TypeDef, {stringLiteral symbol});"]
  return { code := joinLines lines, fileName := Naming.fileName name, imports := baseImports,
           name := symbol }

end ApiContract.Codegen.GraphQl
