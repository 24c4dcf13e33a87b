import ApiContract.Named
import ApiContract.Naming
import ApiContract.Schema.Shape

/-!
# From schemas to models

`modelOf` builds the canonical model of a schema. A property that is an object becomes a nested
model, named after its parent and itself; one that refers to an object of the document becomes a
nested model named after the component. A reference back to a component that is being expanded, or
to something that cannot be resolved, stays a field that only names it. Scalars, enumerations and
lists at the top become the one field `value` or `items`.

A chain of references that never comes to an object could go on for ever; such a chain follows a
pointer again with nothing new expanded, and fails there. So every path down has a bounded length,
which the fuel of `modelOf` exceeds.
-/

namespace ApiContract.Schema

open Contract (FieldSpec SchemaModel ScalarType)

/-- Where the builder is: the document, the components being expanded, and the pointers followed
since the last of them. -/
structure Context where
  document : Value
  expanding : List String := []
  followed : List String := []

/-- The context inside a component. -/
def Context.expand (c : Context) (component : String) : Context :=
  { c with expanding := component :: c.expanding, followed := [] }

/-- The description of a model or field must be a text. -/
def descriptionOf (model : String) : Value → Except Failure (Option String)
  | .null => .ok none
  | v => (some <$> Check.text v).toExcept model

/-- A field that is no list. -/
def singleField (field : FieldSpec) (isOptional : Bool) (description : Value) :
    Except Failure FieldSpec := do
  let text ← descriptionOf "FieldSpec" description
  return { field with isOptional, description := text.map Value.str }

/-- The node that a schema stands for, and the component it is, if it is a reference that can be
resolved. -/
def dereference (c : Context) (schema : Value) : Except Failure (Value × Option String) := do
  match Reference.pointer? schema with
  | none => return (schema, none)
  | some pointer =>
    let target ← Reference.resolve c.document schema
    return (target, if Reference.isReference target then none else some (Reference.name pointer))

/-- The name of a nested model: that of its component, or one made of its parent and property. -/
def nestedName (component : Option String) (parent property : String) : String :=
  match component with
  | some name => Naming.pascalCase name
  | none => parent ++ Naming.pascalCase property

mutual

/-- The model of a node that is not dereferenced any further. -/
def modelWithin (fuel : Nat) (c : Context) (schema : Value) (name : String) :
    Except Failure SchemaModel :=
  match fuel with
  | 0 => .error .unexpected
  | fuel + 1 => do
    if !schema.isMap then return ⟨name, none, []⟩
    let description := schema.field "description"
    let type := (typeOf schema).1
    match properties? schema with
    | some properties =>
      let required ← requiredKeys schema
      let fields ← properties.mapM fun (key, node) => do
        return (key.text, ← fieldWithin fuel c node key.text (isRequired required key) name)
      let about ← descriptionOf "SchemaModel" description
      return ⟨name, about, Named.ofList fields⟩
    | none =>
      if type = some "object" ∨ (type = none ∧ !(schema.field "enum").isTruthy) then
        return ⟨name, ← descriptionOf "SchemaModel" description, []⟩
      let fieldName := if type = some "array" then "items" else "value"
      let field ← fieldWithin fuel c schema fieldName true name
      let about ← descriptionOf "SchemaModel" description
      return ⟨name, about, [(fieldName, { field with description := none })]⟩

/-- The field of a property. -/
def fieldWithin (fuel : Nat) (c : Context) (schema : Value) (property : String) (required : Bool)
    (parent : String) : Except Failure FieldSpec :=
  match fuel with
  | 0 => .error .unexpected
  | fuel + 1 =>
    match Reference.pointer? schema with
    | none => nodeField fuel c schema none property required parent
    | some pointer => do
      let (target, component) ← dereference c schema
      match component with
      | some name =>
        if c.expanding.contains name then
          return { ref := some (Naming.pascalCase name), isOptional := !required }
        else if c.followed.contains pointer then throw .unexpected
        else
          let c := { c with followed := pointer :: c.followed }
          nodeField fuel c target (some name) property required parent
      | none =>
        return { ref := some (Naming.pascalCase (Reference.name pointer)), isOptional := !required }

/-- The field of a node that is no reference, or the target of one to `component`. -/
def nodeField (fuel : Nat) (c : Context) (schema : Value) (component : Option String)
    (property : String) (required : Bool) (parent : String) : Except Failure FieldSpec :=
  match fuel with
  | 0 => .error .unexpected
  | fuel + 1 => do
    if !schema.isMap then return { scalar := some .unknown, isOptional := !required }
    let (type, nullable) := typeOf schema
    let isOptional := !required || nullable
    let description := schema.field "description"
    if type = some "array" then
      let item ← match schema.field "items" with
        | .null => pure { scalar := some ScalarType.unknown }
        | items => fieldWithin fuel c items property true parent
      let item : FieldSpec := if item.isArray then { scalar := some .json } else item
      let about := if description.isNull then none else some description
      return { item with isArray := true, isOptional, description := about }
    match ← enumValues schema with
    | some values =>
      singleField { enumValues := some (values.map Value.text) } isOptional description
    | none =>
      if (properties? schema).isSome then
        let named := component.filter (!·.isEmpty)
        let inner := match named with
          | some name => c.expand name
          | none => c
        let nested ← modelWithin fuel inner schema (nestedName named parent property)
        singleField { model := some nested } isOptional description
      else if type = some "object" ∨ (schema.field "additionalProperties").isTruthy then
        singleField { scalar := some .jsonObject } isOptional description
      else
        let scalar := (scalarFor type (schema.field "format")).getD .unknown
        singleField { scalar := some scalar } isOptional description

end

/-- More steps than any path down a schema and its document can take. -/
def depthBound (schema document : Value) : Nat := Nat.pow (schema.size + document.size + 2) 3

/-- The canonical model of a schema, under the name in Pascal case. -/
def modelOf (schema : Value) (name : String) (document : Value) : Except Failure SchemaModel := do
  let c : Context := { document := if document.isTruthy then document else .map [] }
  let pascal := Naming.pascalCase name
  let (schema', component) ← dereference c schema
  let c := match component with
    | some name => c.expand name
    | none => c
  modelWithin (depthBound schema document) c schema' (if pascal.isEmpty then name else pascal)

end ApiContract.Schema
