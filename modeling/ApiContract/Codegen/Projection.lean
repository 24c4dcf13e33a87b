import ApiContract.Codegen.Field
import ApiContract.Value.Record

/-!
# Generated code as a plain value
-/

namespace ApiContract.Codegen

def TypeRef.toValue (t : TypeRef) : Value :=
  .map <| [member "type" (.str t.type), member "optional" (.bool t.optional),
      member "array" (.bool t.array), member "primitive" (.bool t.primitive)] ++
    memberIf "description" id t.description ++ [member "is_reference" (.bool t.isReference)]

def Field.toValue (f : Field) : Value :=
  .map <| [member "name" (.str f.name), member "type" f.type.toValue] ++
    memberIf "scalar_type" .str f.scalarType ++ memberIf "enum_values" texts f.enumValues

def GeneratedCode.toValue (g : GeneratedCode) : Value := record [
  ("code", .str g.code), ("file_name", .str g.fileName), ("imports", texts g.imports),
  ("name", .str g.name)]

def GeneratedField.toValue (f : GeneratedField) : Value := record [
  ("code", .str f.code), ("type_ref", .str f.typeRef), ("is_optional", .bool f.isOptional),
  ("is_array", .bool f.isArray)]

end ApiContract.Codegen
