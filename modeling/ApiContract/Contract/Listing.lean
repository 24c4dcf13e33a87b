import ApiContract.Contract.Surface

/-!
# Listings of specs

A listing is the plain value of a spec with its key, in which the fields of a model are a list of
pairs: their order is part of the model, and readers of JSON may lose the order of members.
-/

namespace ApiContract.Contract

mutual

def SchemaModel.listing : SchemaModel → Value
  | ⟨name, description, fields⟩ =>
    .map <| [member "name" (.str name)] ++ memberIf "description" .str description ++
      [member "fields" (.list (fieldListings fields))]

def fieldListings : List (String × FieldSpec) → List Value
  | [] => []
  | (name, field) :: rest => .list [.str name, field.listing] :: fieldListings rest

def FieldSpec.listing : FieldSpec → Value
  | ⟨scalar, enumValues, model, ref, isOptional, isArray, description⟩ =>
    let nested := match model with
      | some m => [member "model" m.listing]
      | none => []
    .map <| memberIf "scalar" (fun s : ScalarType => .str s.name) scalar ++
      memberIf "enum_values" texts enumValues ++ nested ++ memberIf "ref" .str ref ++
      [member "is_optional" (.bool isOptional), member "is_array" (.bool isArray)] ++
      memberIf "description" id description

end

/-- A value with one member replaced or added. -/
def withMember (name : String) (v : Value) : Value → Value
  | .map members => .map (Members.insert members (.str name) v)
  | spec => spec

/-- A value with the listing of a model, if there is a model, in place of its plain form. -/
def withModel (name : String) (m : Option SchemaModel) (spec : Value) : Value :=
  match m with
  | some m => withMember name m.listing spec
  | none => spec

def OperationSpec.listing (s : OperationSpec) : Value :=
  withMember "key" (.str s.key) <| withMember "io" (.map
    (memberIf "input" SchemaModel.listing s.input ++
      memberIf "output" SchemaModel.listing s.output)) s.toValue

/-- The listing of a spec of a surface. -/
def Surface.listing : (s : Surface) → s.Spec → Value
  | .operations, spec => spec.listing
  | .events, spec => withKey .events spec (withModel "payload" spec.payload spec.toValue)
  | .features, spec => withKey .features spec spec.toValue
  | .presentations, spec => withKey .presentations spec (withModel "props" spec.props spec.toValue)
  | .forms, spec => withKey .forms spec (withModel "model" spec.model spec.toValue)
  | .dataViews, spec => withKey .dataViews spec spec.toValue
  | .workflows, spec => withKey .workflows spec spec.toValue
where
  withKey (s : Surface) (spec : s.Spec) (v : Value) : Value :=
    withMember "key" (.str (s.header spec).key) v

end ApiContract.Contract
