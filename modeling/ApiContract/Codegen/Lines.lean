import ApiContract.Failure
import ApiContract.Json.Writer
import ApiContract.Naming

/-!
# Lines and literals of generated code

Pieces that several dialects share: joining lines, block comments, and literals. A text literal stands
between single quotes, with the backslash, the single quote and the line feed escaped. A key of an
object stays bare when it is an identifier. Any value has a literal in JSON.
-/

namespace ApiContract.Codegen

/-! ## Literals -/

/-- One character inside single quotes. -/
def escapeQuoted : Char → List Char
  | '\\' => ['\\', '\\']
  | '\'' => ['\\', '\'']
  | '\n' => ['\\', 'n']
  | c => [c]

/-- A text literal in single quotes. -/
def stringLiteral (s : String) : String :=
  String.ofList ('\'' :: s.toList.flatMap escapeQuoted ++ ['\''])

/-- The key of an object: bare when it is an identifier, else quoted. -/
def objectKey (name : String) : String :=
  if Naming.isIdentifier name then name else stringLiteral name

/-- Literals separated by commas. -/
def literalList (texts : List String) : String := ", ".intercalate (texts.map stringLiteral)

/-! ## Lines -/

/-- Lines joined by line feeds, without one at the end. -/
def joinLines (lines : List String) : String := "\n".intercalate lines

/-- A block comment of these lines. -/
def blockComment (lines : List String) : List String :=
  ["/**"] ++ lines.map (" * " ++ ·) ++ [" */"]

/-- A value as a JSON literal on one line. -/
def jsonLiteral (v : Value) : Except Failure String :=
  match Json.write? .line v with
  | some text => .ok text
  | none => .error .unexpected

/-- The description to use: the one given, or else the one of the schema. -/
def chooseDescription (given schema : Value) : Value :=
  if given.isTruthy then given else schema.field "description"

/-- The line of a comment that a description takes, if there is one. -/
def descriptionText (description : Value) : List String :=
  if description.isTruthy then [description.text] else []

end ApiContract.Codegen
