import ApiContract.Codegen.Field
import ApiContract.Codegen.Lines
import ApiContract.Named

/-!
# Model declarations

The dialect of `defineSchemaModel` declarations. What a schema becomes depends on its shape: a
reference is a comment, an enumeration an `EnumType`, a scalar an alias with the one field `value`,
a list a model with the one field `items`, a dictionary a `JSONObject`, and an object a model.
Nested objects are hoisted: each becomes a model named after its parent and property, declared
before the model that uses it.
-/

namespace ApiContract.Codegen.Declaration

/-- The description of a model must be a text. -/
def modelDescription : Value → Except Failure (Option String)
  | .null => .ok none
  | v => (some <$> Check.text v).toExcept "GeneratedModel"

/-- The model of a shape that has no fields of its own. -/
def leafModel (name : String) (description : Value) (lines : List String) :
    Except Failure Model := do
  return { name, description := ← modelDescription description, fields := [], code := joinLines lines }

/-- The opening of a declaration, up to its description. -/
def openModel (name : String) (description : Value) : Except Failure (List String) := do
  let about ←
    if description.isTruthy then do
      let literal ← jsonLiteral description
      pure [s!"  description: {literal},"]
    else pure []
  return [s!"export const {name} = defineSchemaModel(\x7b", s!"  name: {stringLiteral name},"] ++ about

def enumModel (name : String) (description : Value) (values : List Value) : Except Failure Model :=
  let literals := literalList (values.map Value.text)
  leafModel name description <|
    blockComment (s!"Enum type: {name}" :: descriptionText description) ++
      [s!"export const {name} = new EnumType({stringLiteral name}, [{literals}]);"]

def aliasModel (name : String) (description : Value) (scalar : Contract.ScalarType) :
    Except Failure Model := do
  let opening ← openModel name description
  leafModel name description <|
    blockComment (s!"Type alias: {name}" :: descriptionText description ++
      [s!"Underlying type: {scalarCode scalar}"]) ++
    opening ++ [
      "  fields: \x7b",
      "    value: \x7b",
      s!"      type: {scalarCode scalar}(),",
      "      isOptional: false,",
      "    \x7d,",
      "  \x7d,",
      "\x7d);"]

def dictionaryModel (name : String) (description : Value) : Except Failure Model :=
  leafModel name description <|
    blockComment (s!"Dictionary/Record type: {name}" :: descriptionText description ++
      ["Use as: Record<string, unknown> - access via record[key]"]) ++
    [s!"export const {name} = ScalarTypeEnum.JSONObject();"]

def emptyModel (name : String) (description : Value) : Except Failure Model := do
  let opening ← openModel name description
  leafModel name description (opening ++ ["  fields: \x7b\x7d,", "\x7d);"])

/-- The constructor for a primitive without a scalar type. -/
def primitiveCode : String → String
  | "number" => "ScalarTypeEnum.Float_unsecure"
  | "boolean" => "ScalarTypeEnum.Boolean"
  | _ => "ScalarTypeEnum.String_unsecure"

/-- The type of a field, with the comma after it. -/
def fieldType (f : Field) : String :=
  match f.enumValues, f.scalarType, f.nestedModel with
  | some values, _, _ =>
    let name := stringLiteral (Naming.pascalCase f.name ++ "Enum")
    s!"new EnumType({name}, [{literalList values}]),"
  | none, some scalar, _ => s!"{scalar}(),"
  | none, none, some nested => s!"{nested.name},"
  | none, none, none =>
    if f.type.primitive then s!"{primitiveCode f.type.type}(),"
    else if f.type.isReference then s!"{f.type.type},"
    else if f.type.type != "unknown" then "ScalarTypeEnum.JSONObject(),"
    else s!"ScalarTypeEnum.JSONObject(), // TODO: Define nested model for {f.name}"

/-- The declaration of a field. -/
def fieldLines (f : Field) : List String :=
  [s!"    {objectKey f.name}: \x7b",
    s!"      type: {fieldType f}",
    s!"      isOptional: {f.type.optional},"] ++
    (if f.type.array then ["      isArray: true,"] else []) ++
    ["    \x7d,"]

/-- The model of an object from its fields. -/
def objectModel (name : String) (description : Value) (fields : List Field) :
    Except Failure Model := do
  let hoisted := fields.flatMap fun f =>
    match f.nestedModel with
    | some nested => [nested.code, ""]
    | none => []
  let opening ← openModel name description
  let lines := hoisted ++ opening ++ ["  fields: \x7b"] ++ fields.flatMap fieldLines ++
    ["  \x7d,", "\x7d);"]
  return { name, description := ← modelDescription description, fields, code := joinLines lines }

/-- Whether a field whose type comes from `target` gets a nested model. -/
def wantsNested (f : Field) (target : Value) : Bool :=
  let type := (Schema.typeOf target).1
  (Schema.properties? target).isSome && (type == some "object" || type == none) &&
    f.scalarType.isNone && f.enumValues.isNone

/-- A field with its nested model. -/
def withNested (f : Field) (nested : Model) : Field :=
  { f with
    nestedModel := some nested
    type := { f.type with type := nested.name, isReference := true } }

mutual

/-- A field that is a list: a nested model comes from its items. -/
def listField (schema : Value) (name : String) (required : Bool) (parent : String) :
    Except Failure Field := do
  let field ← fieldOf schema name required
  match _h : schema.get? "items" with
  | some (.map items) =>
    if wantsNested field (.map items) then
      return withNested field (← model (.map items) (parent ++ Naming.pascalCase name) .null)
    else return field
  | _ => return field
termination_by (schema.size, 0)
decreasing_by
  exact Prod.Lex.left _ _ (Value.size_lt_of_get? (by assumption))

/-- The model of a schema. -/
def model (schema : Value) (name : String) (given : Value) : Except Failure Model := do
  match Reference.pointer? schema with
  | some pointer =>
    return { name := referenceSymbol pointer, description := none, fields := [],
             code := s!"// Reference to {pointer}" }
  | none =>
    let symbol := Naming.modelName name
    let description := chooseDescription given schema
    let type := (Schema.typeOf schema).1
    match ← Schema.enumValues schema with
    | some values => enumModel symbol description values
    | none =>
      match _h : Schema.properties? schema with
      | some properties =>
        let required ← Schema.requiredKeys schema
        objectModel symbol description (← fieldsOf symbol required properties)
      | none =>
        match Schema.scalarFor (type.filter (!·.isEmpty)) (schema.field "format") with
        | some scalar => aliasModel symbol description scalar
        | none =>
          if type = some "array" then
            let items ← listField schema "items" true symbol
            objectModel symbol (if description.isTruthy then description else .null) [items]
          else if (schema.field "additionalProperties").isTruthy then
            dictionaryModel symbol description
          else emptyModel symbol description
termination_by (schema.size, 1)
decreasing_by
  · exact Prod.Lex.left _ _ (Schema.membersSize_lt_of_properties? (by assumption))
  · exact Prod.Lex.right _ (by omega)

/-- The fields of the properties of an object. -/
def fieldsOf (parent : String) (required : List Scalar) :
    (properties : List (Scalar × Value)) → Except Failure (List Field)
  | [] => return []
  | (key, schema) :: rest => do
    let field ← propertyField schema key.text (Schema.isRequired required key) parent
    return field :: (← fieldsOf parent required rest)
termination_by properties => (membersSize properties, 3)
decreasing_by
  · simp only [membersSize]
    by_cases h : membersSize rest = 0
    · exact h ▸ Prod.Lex.right _ (by omega)
    · exact Prod.Lex.left _ _ (by omega)
  · simp only [membersSize]
    exact Prod.Lex.left _ _ (by have := Value.size_pos schema; omega)

/-- The field of one property. -/
def propertyField (schema : Value) (name : String) (required : Bool) (parent : String) :
    Except Failure Field := do
  if !schema.isMap || Reference.isReference schema then fieldOf schema name required
  else if Schema.isArray schema && (schema.field "items").isMap then
    listField schema name required parent
  else
    let field ← fieldOf schema name required
    if wantsNested field schema then
      return withNested field (← model schema (parent ++ Naming.pascalCase name) .null)
    else return field
termination_by (schema.size, 2)
decreasing_by all_goals exact Prod.Lex.right _ (by omega)

end

/-- All fields of a model, those of a nested model after the field that has it. -/
def allFields : Model → List Field
  | ⟨_, _, fields, _⟩ => go fields
where
  go : List Field → List Field
    | [] => []
    | f :: rest =>
      f :: (match f with
        | ⟨_, _, _, _, some nested⟩ => allFields nested
        | ⟨_, _, _, _, none⟩ => []) ++ go rest

/-- The code of a named model. -/
def generateModel (conventions : Conventions) (schema : Value) (name : String) (description : Value) :
    Except Failure GeneratedCode := do
  let found ← model schema name description
  return {
    code := found.code
    fileName := Naming.fileName name
    imports := Distinct.add [libraryImport] (fieldImports (allFields found) conventions false)
    name := found.name }

/-- The code of a single field. -/
def generateField (schema : Value) (name : String) (required : Bool) :
    Except Failure GeneratedField := do
  let field ← propertyField schema name required ""
  return {
    code := (field.scalarType.getD "ScalarTypeEnum.String_unsecure") ++ "()"
    typeRef := field.type.type
    isOptional := field.type.optional
    isArray := field.type.array }

end ApiContract.Codegen.Declaration
