import ApiContract.Codegen.Field
import ApiContract.Codegen.Lines
import ApiContract.Named

/-!
# Validators

The dialect of runtime validators. Nested objects stay inline, so a model is one expression; it is
built together with the names of the models that it refers to, in the order in which they occur,
because the file must import them.
-/

namespace ApiContract.Codegen.Zod

/-- An expression, and the symbols of the models it refers to. -/
structure Expression where
  code : String
  references : List String := []

/-- Validators by format. -/
def formats : List (String × String) := [
  ("date-time", "z.string().datetime()"), ("date", "z.string().date()"),
  ("email", "z.string().email()"), ("uri", "z.string().url()"), ("url", "z.string().url()"),
  ("uuid", "z.string().uuid()")]

/-- Validators by type. -/
def types : List (String × String) := [
  ("string", "z.string()"), ("integer", "z.number().int()"), ("number", "z.number()"),
  ("boolean", "z.boolean()"), ("object", "z.record(z.string(), z.unknown())"), ("null", "z.null()")]

/-- The entry of a table for a format. A collection cannot be looked up. -/
def lookupFormat (table : List (String × String)) (format : Value) :
    Except Failure (Option String) :=
  match format with
  | .str f => .ok (table.lookup f)
  | .scalar _ => .ok none
  | _ => .error .unexpected

def scalarCode (type : Option String) (format : Value) : Except Failure String := do
  match ← lookupFormat formats format with
  | some code => return code
  | none => return (type.bind fun t => types.lookup t).getD "z.unknown()"

/-- A number that is no truth value. -/
def isNumber : Value → Bool
  | .int _ | .float _ => true
  | _ => false

/-- A call with the text of a member as its argument, if the node has the member. -/
def bound (schema : Value) (method member : String) : List String :=
  match schema.get? member with
  | some v => [s!".{method}({v.text})"]
  | none => []

/-- A bound of a number: inclusive, or exclusive by a flag beside it or by itself. -/
def limit (schema : Value) (member exclusive inclusiveMethod exclusiveMethod : String) :
    List String :=
  let other := schema.field exclusive
  if (schema.get? member).isSome then
    bound schema (if other = .bool true then exclusiveMethod else inclusiveMethod) member
  else if isNumber other then [s!".{exclusiveMethod}({other.text})"]
  else []

/-- The constraints on a value of a type. -/
def constraints (schema : Value) (type : Option String) : String :=
  String.join <|
    match type with
    | some "string" =>
      bound schema "min" "minLength" ++ bound schema "max" "maxLength" ++
        (match schema.get? "pattern" with
          | some v => [".regex(/" ++ v.text ++ "/)"]
          | none => [])
    | some "integer" | some "number" =>
      limit schema "minimum" "exclusiveMinimum" "min" "gt" ++
        limit schema "maximum" "exclusiveMaximum" "max" "lt" ++
        bound schema "step" "multipleOf"
    | some "array" => bound schema "min" "minItems" ++ bound schema "max" "maxItems"
    | _ => []

def defaultCode (schema : Value) : Except Failure String :=
  match schema.get? "default" with
  | some v => do return ".default(" ++ (← jsonLiteral v) ++ ")"
  | none => return ""

def optionalCode (isOptional : Bool) : String := if isOptional then ".optional()" else ""

/-- The properties that an object is written out with. -/
def inlineProperties? (schema : Value) : Option Members :=
  if (Schema.typeOf schema).1 = some "object" then Schema.properties? schema else none

theorem membersSize_lt_of_inlineProperties? {schema : Value} {ms : Members}
    (h : inlineProperties? schema = some ms) : membersSize ms < schema.size := by
  unfold inlineProperties? at h
  split at h
  · exact Schema.membersSize_lt_of_properties? h
  · cases h

/-- An object of its properties. -/
def objectOf (properties : List Expression) : Expression :=
  ⟨joinLines (["z.object(\x7b"] ++ properties.map (·.code) ++ ["\x7d)"]),
    properties.flatMap (·.references)⟩

mutual

/-- The expression for a node. -/
def expression (schema : Value) (required : Bool) : Except Failure Expression := do
  match Reference.pointer? schema with
  | some pointer =>
    let target := referenceSymbol pointer
    return ⟨s!"z.lazy(() => {target}Schema)" ++ optionalCode (!required), [target]⟩
  | none =>
    let (type, nullable) := Schema.typeOf schema
    let base ←
      match _h : inlineProperties? schema with
      | some properties => do
        pure (objectOf (← memberExpressions (← Schema.requiredKeys schema) properties))
      | none => do
        match ← Schema.enumValues schema with
        | some values => pure ⟨s!"z.enum([{literalList (values.map Value.text)}])", []⟩
        | none =>
          if type = some "array" then
            match _h : schema.get? "items" with
            | some (.map items) => do
              let item ← expression (.map items) true
              pure ⟨s!"z.array({item.code})", item.references⟩
            | _ => pure ⟨"z.array(z.unknown())", []⟩
          else pure ⟨← scalarCode type (schema.field "format"), []⟩
    let default ← defaultCode schema
    return ⟨base.code ++ constraints schema type ++ default ++ optionalCode (!required || nullable),
      base.references⟩
termination_by (schema.size, 0)
decreasing_by
  · exact Prod.Lex.left _ _ (membersSize_lt_of_inlineProperties? (by assumption))
  · exact Prod.Lex.left _ _ (Value.size_lt_of_get? (by assumption))

/-- The lines of the properties of an object. -/
def memberExpressions (required : List Scalar) :
    (properties : List (Scalar × Value)) → Except Failure (List Expression)
  | [] => return []
  | (key, schema) :: rest => do
    let value ← expression schema (Schema.isRequired required key)
    let line := s!"  {objectKey key.text}: {value.code},"
    return ⟨line, value.references⟩ :: (← memberExpressions required rest)
termination_by properties => (membersSize properties, 1)
decreasing_by
  · simp only [membersSize]
    rcases Nat.eq_zero_or_pos (membersSize rest) with h | h
    · rw [h]
      exact Prod.Lex.right _ (by omega)
    · exact Prod.Lex.left _ _ (by omega)
  · simp only [membersSize]
    exact Prod.Lex.left _ _ (by have := Value.size_pos schema; omega)

end

/-- The expression that a model is declared with. A node with properties is an object whatever its
type; a node that says nothing is an empty one. -/
def modelExpression (schema : Value) : Except Failure Expression := do
  match Schema.properties? schema with
  | some properties =>
    return objectOf (← memberExpressions (← Schema.requiredKeys schema) properties)
  | none =>
    if schema.isMap && ((schema.field "type").isTruthy || Reference.isReference schema) then
      expression schema true
    else return ⟨"z.object(\x7b\x7d)", []⟩

/-- What a file of this dialect imports in any case. -/
def baseImports : List String :=
  ["import * as z from 'zod';", importLine ["ZodSchemaType"] schemaLibrary]

/-- The import of a referenced model. -/
def referenceImport (conventions : Conventions) (symbol : String) : String :=
  importLine [symbol ++ "Schema"] ("../" ++ conventions.models ++ "/" ++ Naming.kebabCase symbol)

/-- The code of a named model: the validator, its wrapper and the type inferred from it. -/
def generateModel (conventions : Conventions) (schema : Value) (name : String) (given : Value) :
    Except Failure GeneratedCode := do
  let symbol := Naming.modelName name
  let description := chooseDescription given schema
  let body ← modelExpression schema
  let comment := match descriptionText description with
    | [] => []
    | lines => blockComment lines
  let about ← jsonLiteral description
  let lines := comment ++ [
    s!"export const {symbol}Schema = {body.code};",
    "",
    s!"export const {symbol} = new ZodSchemaType({symbol}Schema, " ++
      s!"\x7b name: {stringLiteral symbol}, description: {about} \x7d);",
    "",
    s!"export type {symbol} = z.infer<typeof {symbol}Schema>;"]
  return {
    code := joinLines lines
    fileName := Naming.fileName name
    imports := Distinct.add baseImports (body.references.map (referenceImport conventions))
    name := symbol }

/-- The code of a single field. -/
def generateField (schema : Value) (required : Bool) : Except Failure GeneratedField := do
  let body ← expression schema required
  match Reference.pointer? schema with
  | some pointer =>
    return ⟨body.code, referenceSymbol pointer, !required, false⟩
  | none =>
    let (type, nullable) := Schema.typeOf schema
    let typeName := (type.filter (!·.isEmpty)).getD "unknown"
    return ⟨body.code, typeName, !required || nullable, type == some "array"⟩

end ApiContract.Codegen.Zod
