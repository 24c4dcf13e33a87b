import ApiContract.Codegen.Dialect

/-!
# Generators

A generator turns one schema after the other into code of one dialect. While the generator of
validators goes through a schema it notes the models that the schema refers to, and a schema that
cannot be generated leaves it with what was noted until then. The other dialects note nothing.

The notes are wiped where a model begins, so they do not reach from one model into the next: what a
generator gives is `Dialect.generateModel`.
-/

namespace ApiContract.Codegen

/-- A computation on a state. It may fail, and leaves the state as it was where it failed. -/
abbrev Stateful (σ α : Type) := ExceptT Failure (StateM σ) α

/-- The result of a computation that starts from a state, and the state after it. -/
def Stateful.from {σ α : Type} (state : σ) (x : Stateful σ α) : Except Failure α × σ :=
  StateT.run (m := Id) (ExceptT.run x) state

/-- A computation that notes models on its way, each once. -/
abbrev Noting (α : Type) := Stateful (List String) α

namespace Zod

/-- Notes a model. -/
def note (symbol : String) : Noting Unit :=
  modify fun noted => if noted.contains symbol then noted else noted ++ [symbol]

mutual

/-- The code for a node. -/
def nodeCode (schema : Value) (required : Bool) : Noting String := do
  match Reference.pointer? schema with
  | some pointer =>
    let target := referenceSymbol pointer
    note target
    return s!"z.lazy(() => {target}Schema)" ++ optionalCode (!required)
  | none =>
    let (type, nullable) := Schema.typeOf schema
    let base ←
      match _h : inlineProperties? schema with
      | some properties => do
        pure (joinLines (["z.object(\x7b"] ++
          (← memberLines (← Schema.requiredKeys schema) properties) ++ ["\x7d)"]))
      | none => do
        match ← Schema.enumValues schema with
        | some values => pure s!"z.enum([{literalList (values.map Value.text)}])"
        | none =>
          if type = some "array" then
            match _h : schema.get? "items" with
            | some (.map items) => do pure s!"z.array({← nodeCode (.map items) true})"
            | _ => pure "z.array(z.unknown())"
          else scalarCode type (schema.field "format")
    let default ← defaultCode schema
    return base ++ constraints schema type ++ default ++ optionalCode (!required || nullable)
termination_by (schema.size, 0)
decreasing_by
  · exact Prod.Lex.left _ _ (membersSize_lt_of_inlineProperties? (by assumption))
  · exact Prod.Lex.left _ _ (Value.size_lt_of_get? (by assumption))

/-- The lines of the properties of an object. -/
def memberLines (required : List Scalar) :
    (properties : List (Scalar × Value)) → Noting (List String)
  | [] => return []
  | (key, schema) :: rest => do
    let value ← nodeCode schema (Schema.isRequired required key)
    return s!"  {objectKey key.text}: {value}," :: (← memberLines required rest)
termination_by properties => (membersSize properties, 1)
decreasing_by
  · simp only [membersSize]
    rcases Nat.eq_zero_or_pos (membersSize rest) with h | h
    · rw [h]
      exact Prod.Lex.right _ (by omega)
    · exact Prod.Lex.left _ _ (by omega)
  · simp only [membersSize]
    exact Prod.Lex.left _ _ (by have := Value.size_pos schema; omega)

end

/-- The expression that a model is declared with. -/
def modelCode (schema : Value) : Noting String := do
  match Schema.properties? schema with
  | some properties =>
    return joinLines (["z.object(\x7b"] ++
      (← memberLines (← Schema.requiredKeys schema) properties) ++ ["\x7d)"])
  | none =>
    if schema.isMap && ((schema.field "type").isTruthy || Reference.isReference schema) then
      nodeCode schema true
    else return "z.object(\x7b\x7d)"

/-- The code of a single field. What was noted before stays noted. -/
def singleField (schema : Value) (required : Bool) : Noting GeneratedField := do
  let code ← nodeCode schema required
  match Reference.pointer? schema with
  | some pointer => return ⟨code, referenceSymbol pointer, !required, false⟩
  | none =>
    let (type, nullable) := Schema.typeOf schema
    let typeName := (type.filter (!·.isEmpty)).getD "unknown"
    return ⟨code, typeName, !required || nullable, type == some "array"⟩

/-- The code of a named model, from an empty list of notes on. -/
def namedModel (conventions : Conventions) (schema : Value) (name : String) (given : Value) :
    Noting GeneratedCode := do
  set ([] : List String)
  let symbol := Naming.modelName name
  let description := chooseDescription given schema
  let body ← modelCode schema
  let comment := match descriptionText description with
    | [] => []
    | lines => blockComment lines
  let about ← jsonLiteral description
  let lines := comment ++ [
    s!"export const {symbol}Schema = {body};",
    "",
    s!"export const {symbol} = new ZodSchemaType({symbol}Schema, " ++
      s!"\x7b name: {stringLiteral symbol}, description: {about} \x7d);",
    "",
    s!"export type {symbol} = z.infer<typeof {symbol}Schema>;"]
  let noted ← get
  return {
    code := joinLines lines
    fileName := Naming.fileName name
    imports := Distinct.add baseImports (noted.map (referenceImport conventions))
    name := symbol }

end Zod

/-- A generator: its dialect, where models stand, and the models it has noted. -/
structure Generator where
  dialect : Dialect
  conventions : Conventions := {}
  noted : List String := []

namespace Generator

/-- A new generator for a format; a format that is not known gets declarations. -/
def create (format : Option String) (conventions : Option Conventions) : Generator where
  dialect := (format.bind Dialect.ofName?).getD .declaration
  conventions := conventions.getD {}

/-- Generates a named model; also a model that fails leaves its notes in the generator. -/
def generateModel (g : Generator) (schema : Value) (name : String) (given : Value) :
    Except Failure GeneratedCode × Generator :=
  match g.dialect with
  | .zod =>
    let (code, noted) := (Zod.namedModel g.conventions schema name given).from g.noted
    (code, { g with noted })
  | dialect => (dialect.generateModel g.conventions schema name given, g)

/-- Generates a single field, whose models are noted behind those that are noted already. -/
def generateField (g : Generator) (schema : Value) (name : String) (required : Bool) :
    Except Failure GeneratedField × Generator :=
  match g.dialect with
  | .zod =>
    let (code, noted) := (Zod.singleField schema required).from g.noted
    (code, { g with noted })
  | dialect => (dialect.generateField schema name required, g)

end Generator

/-- What a generator is asked for. -/
inductive Call where
  | model (schema : Value) (name : String) (description : Value)
  | field (schema : Value) (name : String) (required : Bool)

/-- What a generator gives for a call. -/
inductive Generated where
  | model (code : GeneratedCode)
  | field (code : GeneratedField)
  deriving DecidableEq, Repr

namespace Generator

/-- The answer to a call, and the generator after it. -/
def answer (g : Generator) : Call → Except Failure Generated × Generator
  | .model schema name description =>
    let (code, g) := g.generateModel schema name description
    (code.map .model, g)
  | .field schema name required =>
    let (code, g) := g.generateField schema name required
    (code.map .field, g)

/-- The answers to calls, one after the other. -/
def answers (g : Generator) : List Call → List (Except Failure Generated)
  | [] => []
  | call :: rest =>
    let (answer, g) := g.answer call
    answer :: g.answers rest

end Generator

end ApiContract.Codegen
