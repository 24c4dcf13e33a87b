import ApiContract.Contract.Spec
import ApiContract.Value.Record

/-!
# Specs as plain values

`toValue` writes a spec as a value that JSON can hold: its members in a fixed order, with those that
are absent left out. Checking the value gives the spec again.
-/

namespace ApiContract.Contract

mutual

def SchemaModel.toValue : SchemaModel → Value
  | ⟨name, description, fields⟩ =>
    .map <| [member "name" (.str name)] ++ memberIf "description" .str description ++
      [member "fields" (.map (fieldValues fields))]

def fieldValues : List (String × FieldSpec) → Members
  | [] => []
  | (name, field) :: rest => member name field.toValue :: fieldValues rest

def FieldSpec.toValue : FieldSpec → Value
  | ⟨scalar, enumValues, model, ref, isOptional, isArray, description⟩ =>
    let nested := match model with
      | some m => [member "model" m.toValue]
      | none => []
    .map <| memberIf "scalar" (fun s : ScalarType => .str s.name) scalar ++
      memberIf "enum_values" texts enumValues ++ nested ++ memberIf "ref" .str ref ++
      [member "is_optional" (.bool isOptional), member "is_array" (.bool isArray)] ++
      memberIf "description" plain description

end

def Header.members (h : Header) : Members :=
  [member "name" (.str h.name), member "version" (.int h.version),
    member "stability" (.str h.stability.name), member "owners" (texts h.owners),
    member "tags" (texts h.tags)] ++ memberIf "description" .str h.description

def Header.toValue (h : Header) : Value := .map h.members

def OperationHeader.toValue (h : OperationHeader) : Value :=
  .map <| h.members ++ [member "kind" (.str h.kind.name)] ++ memberIf "goal" .str h.goal ++
    memberIf "context" .str h.context

def RestTransport.toValue (t : RestTransport) : Value :=
  .map <| memberIf "method" .str t.method ++ memberIf "path" .str t.path

def GraphQlTransport.toValue (t : GraphQlTransport) : Value :=
  .map [member "type" (.str t.type), member "field_name" (.str t.fieldName)]

def Transport.toValue (t : Transport) : Value :=
  .map <| memberIf "rest" RestTransport.toValue t.rest ++
    memberIf "graphql" GraphQlTransport.toValue t.graphQl

def AuthLevel.policy (auth : AuthLevel) : Value := .map [member "auth" (.str auth.name)]

def OperationSpec.toValue (s : OperationSpec) : Value :=
  .map <| [member "meta" s.header.toValue,
      member "io" (.map (memberIf "input" SchemaModel.toValue s.input ++
        memberIf "output" SchemaModel.toValue s.output)),
      member "policy" s.auth.policy] ++
    memberIf "transport" Transport.toValue s.transport

def EventSpec.toValue (s : EventSpec) : Value :=
  .map <| member "meta" s.header.toValue :: memberIf "payload" SchemaModel.toValue s.payload

def FeatureSpec.toValue (s : FeatureSpec) : Value :=
  .map [member "meta" s.header.toValue, member "operations" (texts s.operations),
    member "events" (texts s.events), member "presentations" (texts s.presentations)]

def PresentationSpec.toValue (s : PresentationSpec) : Value :=
  .map <| [member "meta" s.header.toValue, member "target" (.str s.target)] ++
    memberIf "props" SchemaModel.toValue s.props

def FormSpec.toValue (s : FormSpec) : Value :=
  .map <| [member "meta" s.header.toValue] ++ memberIf "model" SchemaModel.toValue s.model ++
    memberIf "submit_operation" .str s.submitOperation

def DataViewSpec.toValue (s : DataViewSpec) : Value :=
  .map <| [member "meta" s.header.toValue, member "view" (.str s.view)] ++
    memberIf "source_operation" .str s.sourceOperation ++ [member "fields" (texts s.fields)]

def WorkflowStep.toValue (s : WorkflowStep) : Value :=
  .map <| [member "id" (.str s.id)] ++ memberIf "operation" .str s.operation ++
    [member "next" (texts s.next)]

def WorkflowSpec.toValue (s : WorkflowSpec) : Value :=
  .map [member "meta" s.header.toValue, member "steps" (.list (s.steps.map WorkflowStep.toValue))]

end ApiContract.Contract
