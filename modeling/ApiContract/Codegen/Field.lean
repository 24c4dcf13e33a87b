import ApiContract.Codegen.Conventions
import ApiContract.Named
import ApiContract.Naming
import ApiContract.Schema.Shape

/-!
# Fields of generated models

How a property of a schema is described for the generated code. A `TypeRef` names the type of a
node: a primitive, a referenced model, or the name that an inline object or enumeration will get. A
`Field` adds what the declaration needs.
-/

namespace ApiContract.Codegen

open Contract (ScalarType)

/-- The type of a node, as the generated code names it. -/
structure TypeRef where
  type : String
  optional : Bool := false
  array : Bool := false
  primitive : Bool := false
  description : Option Value := none
  isReference : Bool := false
  deriving DecidableEq, Repr

mutual

/-- One property of a generated model. -/
structure Field where
  name : String
  type : TypeRef
  /-- The expression of its scalar type. -/
  scalarType : Option String
  enumValues : Option (List String)
  nestedModel : Option Model

/-- A model with its code; the code of nested models stands before that of the model. -/
structure Model where
  name : String
  description : Option String
  fields : List Field
  code : String

end

instance : Inhabited Model := ⟨⟨"", none, [], ""⟩⟩

/-- The generated code of one model, its file and what the file imports. -/
structure GeneratedCode where
  code : String
  fileName : String
  imports : List String
  name : String
  deriving DecidableEq, Repr

/-- The generated code of one field. -/
structure GeneratedField where
  code : String
  typeRef : String
  isOptional : Bool
  isArray : Bool
  deriving DecidableEq, Repr

/-- The expression of a scalar type. -/
def scalarCode (scalar : ScalarType) : String := "ScalarTypeEnum." ++ scalar.name

/-- The name an inline object or enumeration gets, or `fallback` without a name. -/
def inlineName (name : Option String) (fallback : String) : String :=
  match name with
  | some n => if n.isEmpty then fallback else Naming.pascalCase n
  | none => fallback

/-- The name of what a pointer leads to, as a symbol. -/
def referenceSymbol (pointer : String) : String := Naming.pascalCase (Reference.name pointer)

/-- The type of a node; `name` is what an inline object or enumeration is named after. -/
def typeRef (schema : Value) (name : Option String) : TypeRef :=
  match Reference.pointer? schema with
  | some pointer => { type := referenceSymbol pointer, isReference := true }
  | none =>
    if !schema.isMap then { type := "unknown" }
    else
      let (type, nullable) := Schema.typeOf schema
      if type = some "array" then
        match _h : schema.get? "items" with
        | some (.map items) =>
          { typeRef (.map items) name with array := true, optional := nullable }
        | _ => { type := "unknown", array := true, optional := nullable }
      else if type = some "object" ∨ (schema.get? "properties").isSome then
        { type := inlineName name "Record<string, unknown>", optional := nullable }
      else if (schema.field "enum").isTruthy then
        { type := inlineName name "string", optional := nullable }
      else
        match type with
        | some "string" => { type := "string", optional := nullable, primitive := true }
        | some "integer" | some "number" =>
          { type := "number", optional := nullable, primitive := true }
        | some "boolean" => { type := "boolean", optional := nullable, primitive := true }
        | _ => { type := "unknown", optional := nullable }
termination_by schema.size
decreasing_by exact Value.size_lt_of_get? (by assumption)

/-- The description of one property, without nested models. A field is optional when it is not
required or its node is nullable. -/
def fieldOf (schema : Value) (name : String) (required : Bool) : Except Failure Field := do
  let type := typeRef schema (some name)
  let inline := schema.isMap && !Reference.isReference schema
  let values ← if inline then Schema.enumValues schema else pure none
  let description := if inline then (schema.get? "description").filter (!·.isNull) else none
  return {
    name
    type := { type with optional := !required || type.optional, description }
    scalarType := (Schema.scalarType schema).map scalarCode
    enumValues := values.map (·.map Value.text)
    nestedModel := none }

/-- The imports that the library of schema declarations gives. -/
def libraryImport : String :=
  importLine ["defineSchemaModel", "ScalarTypeEnum", "EnumType"] schemaLibrary

/-- Whether a field's type is a model of another file. -/
def Field.needsImport (f : Field) : Bool :=
  f.type.isReference && !f.type.primitive && f.enumValues.isNone && f.scalarType.isNone &&
    f.nestedModel.isNone

/-- The imports of the fields of a model: the library, then each referenced model once. -/
def fieldImports (fields : List Field) (conventions : Conventions) (sameDirectory : Bool) :
    List String :=
  let directory := if sameDirectory then "." else "../" ++ conventions.models
  let line (f : Field) : String :=
    importLine [f.type.type] (directory ++ "/" ++ Naming.kebabCase f.type.type)
  Distinct.add [libraryImport] ((fields.filter Field.needsImport).map line)

end ApiContract.Codegen
