import ApiContract.Json.Writer
import ApiContract.Named

/-!
# The console

What a program says goes to one of two streams: data to the output, everything about the run to the
error stream. Data is written as plain text or as JSON. A message can be cut short by a value that
has no text in its place; what stands before it is said all the same.
-/

namespace ApiContract.Console

inductive Format where
  | plain
  | json
  deriving DecidableEq, Repr, Inhabited

def Format.name : Format → String
  | .plain => "plain"
  | .json => "json"

/-- The format of a name; left to the program it is plain. -/
def Format.ofName? : String → Option Format
  | "auto" | "plain" => some .plain
  | "json" => some .json
  | _ => none

structure Settings where
  format : Format := .plain
  isQuiet : Bool := false
  isVerbose : Bool := false
  deriving DecidableEq, Repr, Inhabited

/-- The weight of a record in the log. -/
inductive Level where
  | debug
  | warning
  deriving DecidableEq, Repr

def Level.name : Level → String
  | .debug => "DEBUG"
  | .warning => "WARNING"

/-- What a program says. The rows of a table may hold any values where the table is JSON. -/
inductive Message where
  | data (text : String)
  | json (value : Value)
  | code (text : String)
  | table (headers : List String) (rows : List (List Value))
  | info (text : String)
  | suggestion (text : String)
  | warning (text : String)
  | error (text : String)
  | debug (text : String)
  | log (level : Level) (part text : String)
  deriving Repr

/-- What has been said on both streams. -/
structure Transcript where
  out : String := ""
  err : String := ""
  deriving DecidableEq, Repr, Inhabited

/-- Adds a line of data. -/
def Transcript.tell (t : Transcript) (line : String) : Transcript :=
  { t with out := t.out ++ line ++ "\n" }

/-- Adds a line about the run. -/
def Transcript.report (t : Transcript) (line : String) : Transcript :=
  { t with err := t.err ++ line ++ "\n" }

/-! ## Tables -/

/-- A row as a mapping; of two columns with one header the later counts. -/
def recordOf (headers : List String) (row : List Value) : Value :=
  .map (Members.ofList ((headers.zip row).map fun (header, cell) => (.str header, cell)))

/-- The lines of the rows up to the first with a cell that is no text, and whether these are all. -/
def rowLines : List (List Value) → List String × Bool
  | [] => ([], true)
  | row :: rest =>
    match row.mapM Value.str? with
    | some cells =>
      let (lines, complete) := rowLines rest
      ("\t".intercalate cells :: lines, complete)
    | none => ([], false)

/-- The style of a table in JSON: characters are kept, and every value needs a JSON form. -/
def tableStyle : Json.Style := { Json.Style.display with otherAsText := false }

/-! ## Messages -/

/-- The text without the line feeds at its end. -/
def withoutFinalBreaks (s : String) : String :=
  String.ofList (s.toList.reverse.dropWhile (· == '\n')).reverse

/-- The transcript after a line of data that may not have a text. -/
def tellIf (t : Transcript) : Option String → Transcript × Bool
  | some line => (t.tell line, true)
  | none => (t, false)

/-- The transcript after a message, and whether all of the message was said. -/
def say (settings : Settings) (t : Transcript) : Message → Transcript × Bool
  | .data text => (t.tell text, true)
  | .json value => tellIf t (Json.write? .display value)
  | .code text => (t.tell (withoutFinalBreaks text), true)
  | .table headers rows =>
    match settings.format with
    | .json => tellIf t (Json.write? tableStyle (.list (rows.map (recordOf headers))))
    | .plain =>
      let (lines, complete) := rowLines rows
      (("\t".intercalate headers :: lines).foldl Transcript.tell t, complete)
  | .info text => (if settings.isQuiet then t else t.report text, true)
  | .suggestion text => (if settings.isQuiet then t else t.report ("→ " ++ text), true)
  | .warning text => (t.report ("Warning: " ++ text), true)
  | .error text => (t.report ("Error: " ++ text), true)
  | .debug text => (if settings.isVerbose then t.report ("[debug] " ++ text) else t, true)
  | .log level part text =>
    (if settings.isVerbose then t.report (level.name ++ " " ++ part ++ ": " ++ text) else t, true)

end ApiContract.Console
