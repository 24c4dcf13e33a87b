import ApiContract.Checked

/-!
# Models

The canonical form of an object schema: a named, ordered set of fields. A field has one of four
types: a scalar, an enumeration, a nested model, or the name of a model that is expanded elsewhere.
`SchemaModel.toJsonSchema` projects a model to the JSON Schema that stands for it.
-/

namespace ApiContract.Contract

/-- Scalar types of fields. -/
inductive ScalarType where
  | string
  | int
  | float
  | boolean
  | date
  | dateTime
  | email
  | url
  | id
  | json
  | jsonObject
  | unknown
  deriving DecidableEq, Repr

namespace ScalarType

def name : ScalarType → String
  | .string => "String_unsecure"
  | .int => "Int_unsecure"
  | .float => "Float_unsecure"
  | .boolean => "Boolean"
  | .date => "Date"
  | .dateTime => "DateTime"
  | .email => "EmailAddress"
  | .url => "URL"
  | .id => "ID"
  | .json => "JSON"
  | .jsonObject => "JSONObject"
  | .unknown => "Unknown"

def all : List ScalarType :=
  [.string, .int, .float, .boolean, .date, .dateTime, .email, .url, .id, .json, .jsonObject, .unknown]

/-- A node with a type. -/
def typeNode (type : String) : Members := [(.str "type", .str type)]

/-- A node for a text of some format. -/
def textNode (format : String) : Members := typeNode "string" ++ [(.str "format", .str format)]

/-- The JSON Schema of a scalar. -/
def schema : ScalarType → Members
  | .string => typeNode "string"
  | .int => typeNode "integer"
  | .float => typeNode "number"
  | .boolean => typeNode "boolean"
  | .date => textNode "date"
  | .dateTime => textNode "date-time"
  | .email => textNode "email"
  | .url => textNode "uri"
  | .id => textNode "uuid"
  | .json => []
  | .jsonObject => typeNode "object" ++ [(.str "additionalProperties", .bool true)]
  | .unknown => []

def check : Check ScalarType := Check.word (all.map fun s => (s.name, s))

end ScalarType

mutual

/-- One field of a model. The first of model, enumeration, reference and scalar that is set gives
its type; with none of them the type is unknown. The description of a list is kept as it was
written, whatever kind of value it is. -/
structure FieldSpec where
  scalar : Option ScalarType := none
  enumValues : Option (List String) := none
  model : Option SchemaModel := none
  ref : Option String := none
  isOptional : Bool := false
  isArray : Bool := false
  description : Option Value := none

/-- A named, ordered set of fields. -/
structure SchemaModel where
  name : String
  description : Option String
  fields : List (String × FieldSpec)

end

instance : Inhabited SchemaModel := ⟨⟨"", none, []⟩⟩
instance : Inhabited FieldSpec := ⟨{}⟩

/-- Where the components of a document stand. -/
def componentPath : String := "#/components/schemas/"

/-- A reference to a component. -/
def componentReference (name : String) : Value :=
  .map [(.str "$ref", .str (componentPath ++ name))]

/-- The names of the fields that are not optional. -/
def requiredNames (fields : List (String × FieldSpec)) : List String :=
  (fields.filter fun (_, f) => !f.isOptional).map (·.1)

/-- Adds a description to a node, unless it is empty or the node is a reference. -/
def withDescription (description : Option Value) (node : Value) : Value :=
  match node, description with
  | .map members, some d =>
    if d.isTruthy && !Members.contains members (.str "$ref") then
      .map (Members.insert members (.str "description") d)
    else node
  | _, _ => node

/-- The node of a list, or of a single value. -/
def listOf (isArray : Bool) (node : Value) : Value :=
  if isArray then .map [(.str "type", .str "array"), (.str "items", node)] else node

mutual

/-- The JSON Schema of a model. Members without any are left out. -/
def SchemaModel.toJsonSchema : SchemaModel → Value
  | ⟨_, description, fields⟩ =>
    let description := description.filter (!·.isEmpty)
    let names := requiredNames fields
    .map <| [(Scalar.str "type", Value.str "object")] ++
      (description.map fun d => (Scalar.str "description", Value.str d)).toList ++
      [(.str "properties", .map (fieldSchemas fields))] ++
      (if names.isEmpty then [] else [(.str "required", .list (names.map .str))])

def fieldSchemas : List (String × FieldSpec) → Members
  | [] => []
  | (name, field) :: rest => (.str name, field.toJsonSchema) :: fieldSchemas rest

/-- The JSON Schema of a field. -/
def FieldSpec.toJsonSchema : FieldSpec → Value
  | ⟨_, _, some model, _, _, isArray, description⟩ =>
    withDescription description (listOf isArray model.toJsonSchema)
  | ⟨_, some values, none, _, _, isArray, description⟩ =>
    withDescription description <| listOf isArray <|
      .map [(.str "type", .str "string"), (.str "enum", .list (values.map .str))]
  | ⟨_, none, none, some ref, _, isArray, description⟩ =>
    withDescription description (listOf isArray (componentReference ref))
  | ⟨scalar, none, none, none, _, isArray, description⟩ =>
    withDescription description (listOf isArray (.map (scalar.getD .unknown).schema))

end

/-! ## Checking -/

mutual

/-- The shape of a field; fuel bounds the depth. -/
def FieldSpec.checkWithin : (fuel : Nat) → Check FieldSpec
  | 0 => fun _ => .wrong 1
  | fuel + 1 => Check.model fun v =>
    FieldSpec.mk <$> Check.perhaps ScalarType.check "scalar" v
      <*> Check.perhaps (Check.list Check.text) "enum_values" v
      <*> Check.perhaps (SchemaModel.checkWithin fuel) "model" v
      <*> Check.perhaps Check.text "ref" v
      <*> Check.withDefault Check.bool false "is_optional" v
      <*> Check.withDefault Check.bool false "is_array" v
      <*> ((·.map Value.str) <$> Check.perhaps Check.text "description" v)

/-- The shape of a model; fuel bounds the depth. -/
def SchemaModel.checkWithin : (fuel : Nat) → Check SchemaModel
  | 0 => fun _ => .wrong 1
  | fuel + 1 => Check.model fun v =>
    SchemaModel.mk <$> Check.required Check.text "name" v
      <*> Check.perhaps Check.text "description" v
      <*> Check.withDefault (Check.mapping (FieldSpec.checkWithin fuel)) [] "fields" v

end

mutual

/-- The depth of a value. -/
def valueDepth : Value → Nat
  | .scalar _ | .set _ => 1
  | .list items => itemsDepth items + 1
  | .map members => membersDepth members + 1

def itemsDepth : List Value → Nat
  | [] => 0
  | v :: rest => max (valueDepth v) (itemsDepth rest)

def membersDepth : List (Scalar × Value) → Nat
  | [] => 0
  | (_, v) :: rest => max (valueDepth v) (membersDepth rest)

end

/-- The shape of a model. -/
def SchemaModel.check : Check SchemaModel := fun v => SchemaModel.checkWithin (valueDepth v + 1) v

end ApiContract.Contract
