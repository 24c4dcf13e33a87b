import ApiContract.Contract.Spec
import ApiContract.Text.LetterCase

/-!
# Where an operation is exported

The method, path and id of a spec in an OpenAPI document. Method and path are those of its transport,
or else follow from its kind, name and version.
-/

namespace ApiContract.Contract.OperationSpec

/-- The points of a name replaced by another character. -/
def withoutPoints (name : String) (c : Char) : String :=
  String.ofList (name.toList.map fun x => if x = '.' then c else x)

/-- The id of the operation. -/
def operationId (spec : OperationSpec) : String :=
  withoutPoints spec.header.name '_' ++ s!"_v{spec.header.version}"

/-- A text that is there and not empty. -/
def nonEmpty (s : Option String) : Option String := s.filter (!·.isEmpty)

/-- The method, in capital letters. -/
def verb (spec : OperationSpec) : String :=
  match nonEmpty (spec.rest?.bind (·.method)) with
  | some method => Text.upper method
  | none =>
    match spec.header.kind with
    | .command => "POST"
    | .query => "GET"

def path (spec : OperationSpec) : String :=
  (nonEmpty (spec.rest?.bind (·.path))).getD
    ("/" ++ withoutPoints spec.header.name '/' ++ s!"/v{spec.header.version}")

end ApiContract.Contract.OperationSpec
