import ApiContract.Console
import ApiContract.Import.Batch
import ApiContract.OpenApi.Api
import ApiContract.Workspace

/-!
# Actions

A command is an action: it looks at the workspace, changes it, says things, and may stop. What it
has said and changed until then stays.
-/

namespace ApiContract.Cli

open Console (Message)

/-- Why a command stops before its end: a failure, or the user does not answer. -/
inductive Stop where
  | failed (cause : Failure)
  | unanswered
  deriving DecidableEq, Repr

/-- The workspace of a command under way, and what has been said. -/
structure Run where
  workspace : Workspace
  settings : Console.Settings
  transcript : Console.Transcript := {}

abbrev Action := ExceptT Stop (StateM Run)

namespace Action

def fail {α : Type} (cause : Failure) : Action α := throw (.failed cause)

/-- The value of a computation that may fail. -/
def attempt {α : Type} : Except Failure α → Action α
  | .ok a => pure a
  | .error cause => fail cause

/-- Something about the workspace. -/
def query {α : Type} (f : Workspace → Except Failure α) : Action α := do
  attempt (f (← get).workspace)

def setWorkspace (w : Workspace) : Action Unit := modify fun run => { run with workspace := w }

/-- Changes the workspace. -/
def update (f : Workspace → Except Failure Workspace) : Action Unit := do
  setWorkspace (← query f)

/-- Writes files; those before one that cannot be written stay. -/
def writeAll (files : List (Files.Path × String)) : Action Unit := do
  let (result, w) := (← get).workspace.writeAll files
  setWorkspace w
  attempt result

/-- Says something; a message that is cut short ends the command. -/
def say (message : Message) : Action Unit := do
  let run ← get
  let (transcript, complete) := Console.say run.settings run.transcript message
  set { run with transcript }
  if !complete then fail .unexpected

def sayAll (messages : List Message) : Action Unit := messages.forM say

/-! ## Documents -/

/-- The name of a part of the program in the log. -/
def part (name : String) : String := Workspace.programName ++ "." ++ name

/-- What the log says about a retrieval. -/
def retrievalLog (config : Config.Effective) (name : String) (isHit : Bool) : List Message :=
  match Source.Origin.ofString name with
  | .url url =>
    let text := if isHit then s!"Using cached document for {url}"
      else s!"Fetching {url} (timeout {config.timeout.text}s)"
    [.log .debug (part "parser.loader") text]
  | _ => []

/-- The warnings that reading a document puts into the log, also when it fails in the end. -/
def readingLog (document : Value) : List Message :=
  match document.isMap, OpenApi.detectVersion document with
  | true, .ok _ =>
    ((OpenApi.harvestPaths document).warnings.filter (·.isLogged)).map fun warning =>
      .log .warning (part "parser.extractor") warning.message
  | _, _ => []

/-- Loads a document. -/
def loadApi (config : Config.Effective) (name : String) : Action OpenApi.Api := do
  if config.cache.enabled then let _ ← query (·.openDirectory .cache)
  say (.debug s!"Loading {name} (timeout {config.timeout.general}s)")
  let got := (← get).workspace.retrieve config.cache { timeout := config.timeout } name
  setWorkspace got.after
  sayAll (retrievalLog config name got.isHit)
  let text ← attempt got.text
  let document ← attempt (Source.documentOf name text)
  sayAll (readingLog document)
  let api ← attempt (OpenApi.Api.ofDocument document)
  sayAll (api.warnings.map fun warning => .warning warning.message)
  say (.debug s!"Parsed OpenAPI {api.version}: {api.operations.length} operation(s)")
  return api

/-- The log of an import. -/
def importLog (result : Import.Result) : List Message :=
  result.outcomes.filterMap fun
    | .skipped id reason => some (.log .debug (part "importer") s!"Skipping {id}: {reason.message}")
    | .failed id cause =>
      some (.log .warning (part "importer") s!"Failed to import {id}: {cause.quoted}")
    | .imported _ => none

/-- Imports the operations of a document. -/
def importApi (api : OpenApi.Api) (options : Import.Options) : Action Import.Result := do
  let result := Import.importAll api options
  sayAll (importLog result)
  return result

end Action

end ApiContract.Cli
