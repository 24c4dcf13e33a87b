import ApiContract.Text.Blank

/-!
# Names

Identifiers, symbols and file names derived from names in a document. A name is cut into words at
every character that is neither an ASCII letter nor a digit, and inside a run of letters where a
capital follows a small letter or digit, or where the last capital of several is followed by a small
letter. The cases join these words again, so they depend on the words alone.
-/

namespace ApiContract.Naming

/-- Whether a word ends after `c` because of the letters `rest` that follow. -/
def endsWord (c : Char) : List Char → Bool
  | [] => false
  | d :: rest =>
    d.isUpper && (c.isLower || c.isDigit || (c.isUpper && (rest.head?.any Char.isLower)))

/-- Cuts a text into pieces; a piece is empty where two cuts meet or a cut meets an end. The first
piece is the one that begins at the start of the text. -/
def pieces : List Char → List Char × List (List Char)
  | [] => ([], [])
  | c :: rest =>
    let (piece, others) := pieces rest
    if !c.isAlphanum then ([], piece :: others)
    else if endsWord c rest then ([c], piece :: others)
    else (c :: piece, others)

/-- The words of a text: its pieces that are not empty. -/
def words (s : String) : List (List Char) :=
  let (piece, others) := pieces s.toList
  (piece :: others).filter (!·.isEmpty)

/-- A word with a capital first letter. -/
def capitalize : List Char → List Char
  | [] => []
  | c :: rest => c.toUpper :: rest

/-- The words joined, each with a capital first letter; inner capitals stay. -/
def pascalCase (s : String) : String := String.ofList ((words s).flatMap capitalize)

/-- Pascal case with a small first letter. -/
def camelCase (s : String) : String :=
  match (pascalCase s).toList with
  | [] => ""
  | c :: rest => String.ofList (c.toLower :: rest)

/-- The words in small letters, joined by hyphens. -/
def kebabCase (s : String) : String :=
  String.ofList (['-'].intercalate ((words s).map (·.map Char.toLower)))

/-- Characters that an identifier may begin with. -/
def isIdentifierStart (c : Char) : Bool := c.isAlpha || c == '_' || c == '$'

/-- Characters that an identifier may go on with. -/
def isIdentifierPart (c : Char) : Bool := c.isAlphanum || c == '_' || c == '$'

/-- Whether a text may stand unquoted as the key of an object. A line feed at its end is not looked
at. -/
def isIdentifier (s : String) : Bool :=
  match s.toList with
  | [] => false
  | c :: rest =>
    let body := if rest.getLast? = some '\n' then rest.dropLast else rest
    isIdentifierStart c && body.all isIdentifierPart

/-- Words of the generated language that no symbol may be named. -/
def reservedWords : List String := [
  "break", "case", "catch", "class", "const", "continue", "debugger",
  "default", "delete", "do", "else", "enum", "export", "extends", "false",
  "finally", "for", "function", "if", "import", "in", "instanceof", "new",
  "null", "return", "super", "switch", "this", "throw", "true", "try",
  "typeof", "var", "void", "while", "with", "yield", "let", "static",
  "implements", "interface", "package", "private", "protected", "public"]

/-- An identifier for a text: other characters become `_`, a leading digit is put behind a `_`, and
a reserved word gets one at its end. -/
def validIdentifier (s : String) : String :=
  match s.toList.map fun c => if isIdentifierPart c then c else '_' with
  | [] => "_"
  | c :: rest =>
    let name := String.ofList (if c.isDigit then '_' :: c :: rest else c :: rest)
    if reservedWords.contains name then name ++ "_" else name

/-- The name of a contract: an operation's id, behind a prefix and a point when there is one. -/
def specName (operationId : String) (namePrefix : Option String) : String :=
  match namePrefix with
  | some p => if p.isEmpty then operationId else p ++ "." ++ operationId
  | none => operationId

/-- The file of a contract or model. -/
def fileName (name : String) : String := kebabCase name ++ ".ts"

/-- The symbol a contract is exported under; versions other than the first carry their number. -/
def exportName (name : String) (version : Int) : String :=
  let base := validIdentifier (pascalCase name)
  (if version = 1 then base else s!"{base}V{version}") ++ "Spec"

/-- The symbol of a generated model. -/
def modelName (name : String) : String :=
  let symbol := pascalCase (validIdentifier name)
  if symbol.isEmpty then "_" else symbol

end ApiContract.Naming
