import ApiContract.Cli.Comparing
import ApiContract.Cli.Configuring
import ApiContract.Cli.Exporting
import ApiContract.Cli.Importing
import ApiContract.Cli.Inspecting

/-!
# The program

A run of the program on a command line. It ends with a status: that of its failure, or zero. A
failure that has no wording of its own leaves a crash report among the program's data.
-/

namespace ApiContract.Cli

open Console (Transcript)

def programVersion : String := "0.1.0"

def helpText : String :=
  Workspace.programName ++ " [OPTIONS] COMMAND [ARGUMENTS]\n\n" ++
    "Commands: import, export, diff, validate, inspect paths, inspect schemas,\n" ++
    "config show, config set, config reset, config init"

/-- How a run ends. -/
inductive Outcome where
  | finished (exitCode : Nat) (transcript : Transcript)
  /-- The command line asks for nothing that there is. -/
  | usageError
  deriving DecidableEq, Repr

def usageExitCode : Nat := 2

def perform : Command → Action Unit
  | .importDocument a => importDocument a
  | .exportRegistries a => exportRegistries a
  | .diff a => diffDocuments a
  | .validate a => validate a
  | .inspectPaths source => inspectPaths source
  | .inspectSchemas source => inspectSchemas source
  | .showConfig resolved => showConfig resolved
  | .setConfig key value => setConfig key value
  | .resetConfig force => resetConfig force
  | .initProject a => initProject a

/-- Whether a failure is one of the program itself. -/
def isCrash : Failure → Bool
  | .unexpected | .invalid _ _ => true
  | _ => false

/-- Where the report on a crash goes. -/
def crashReport (w : Workspace) : Files.Path :=
  ((w.ownDirectory .data).child "logs").child s!"crash-{w.time}.log"

/-- The end of a command that stops, and the workspace after it. -/
def endOf (run : Run) : Stop → Outcome × Workspace
  | .unanswered => (.finished 1 (run.transcript.report "Aborted."), run.workspace)
  | .failed cause =>
    let report (text : String) : Outcome :=
      .finished cause.exitCode (run.transcript.report ("Error: " ++ text))
    if isCrash cause then
      let path := crashReport run.workspace
      let w := match run.workspace.write path (cause.message ++ "\n") with
        | .ok w => w
        | .error _ => run.workspace
      (report s!"Unexpected error. Debug log: {path.text}", w)
    else (report cause.message, run.workspace)

/-- Runs the program on the words of a command line. -/
def run (w : Workspace) (words : List String) : Outcome × Workspace :=
  match Invocation.ofWords? words with
  | none => (.usageError, w)
  | some .version =>
    (.finished 0 (Transcript.tell {} s!"{Workspace.programName} {programVersion}"), w)
  | some .help => (.finished 0 (Transcript.tell {} helpText), w)
  | some (.run settings command) =>
    match (perform command).run.run { workspace := w, settings } with
    | (.ok (), run) => (.finished 0 run.transcript, run.workspace)
    | (.error stop, run) => endOf run stop

end ApiContract.Cli
