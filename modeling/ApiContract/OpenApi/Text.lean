import ApiContract.Failure
import ApiContract.Json.Reader
import ApiContract.Text.Blank
import ApiContract.Yaml.Reader

/-!
# The text of a document

A text that begins with a brace or bracket is JSON, any other is YAML. Either must hold a mapping.
-/

namespace ApiContract.OpenApi

inductive TextFormat where
  | json
  | yaml
  deriving DecidableEq, Repr

def TextFormat.name : TextFormat → String
  | .json => "json"
  | .yaml => "yaml"

/-- The format that a text begins like. -/
def detectFormat (content : String) : TextFormat :=
  match Text.dropBlanks content.toList with
  | '\x7b' :: _ | '[' :: _ => .json
  | _ => .yaml

/-- The value of a text in a format. -/
def readValue (content : String) : TextFormat → Except Failure Value
  | .json =>
    match Json.read content with
    | .ok v => .ok v
    | .error (.tooManyDigits _) => .error .unexpected
    | .error error => .error (.document (.notJson error))
  | .yaml =>
    match Yaml.read content with
    | .ok v => .ok v
    | .error .malformed => .error (.document .notYaml)
    | .error .noSuchValue => .error .unexpected

/-- The document of a text in a format. -/
def readText (content : String) (format : TextFormat) : Except Failure Value := do
  match ← readValue content format with
  | .map members => return .map members
  | .null => throw (.document (.notObject "empty document"))
  | v => throw (.document (.notObject v.kindName))

end ApiContract.OpenApi
