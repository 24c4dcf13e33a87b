import ApiContract.Cli.Action
import ApiContract.Cli.Command

/-!
# The commands on the configuration

Showing, changing and resetting the configuration of the user, and beginning that of a project.
-/

namespace ApiContract.Cli

open Cli.Action

def showConfig (resolved : Bool) : Action Unit := do
  let directory ← query (·.openDirectory .config)
  say (.info s!"Config directory: {directory.text}")
  let value ←
    if resolved then query fun w => return (← w.config {}).toValue
    else query fun w => return (← w.globalConfig).toValue
  say (.json value)

def setConfig (key value : String) : Action Unit := do
  update fun w => return (← w.setGlobalConfig key value).2
  say (.info s!"Set {key} = {value}")

/-! ## Asking -/

/-- The answers to a question of yes or no; no answer at all means no. -/
def answerOf? (line : String) : Option Bool :=
  match Text.lower (String.ofList (Text.trim line.toList)) with
  | "y" | "yes" => some true
  | "n" | "no" | "" => some false
  | _ => none

/-- The lines of an input. -/
def inputLines (input : String) : List String :=
  let lines := input.splitOn "\n"
  if lines.getLast? = some "" then lines.dropLast else lines

/-- What asking until there is an answer puts on the output, and the answer, `none` when the input
ends before there is one. -/
def ask (question : String) : List String → String × Option Bool
  | [] => (question, none)
  | line :: rest =>
    match answerOf? line with
    | some answer => (question, some answer)
    | none =>
      let (more, answer) := ask question rest
      (question ++ "Error: invalid input\n" ++ more, answer)

def resetQuestion : String := "Reset all config to defaults? [y/N]: "

/-- Asks the user. -/
def confirm (question : String) : Action Bool := do
  let run ← get
  let (asked, answer) := ask question (inputLines run.workspace.input)
  set { run with transcript := { run.transcript with out := run.transcript.out ++ asked } }
  match answer with
  | some answer => return answer
  | none => throw .unanswered

def resetConfig (force : Bool) : Action Unit := do
  if ← (if force then pure true else confirm resetQuestion) then
    update (·.saveGlobalConfig {})
    say (.info "Configuration reset to defaults.")
  else say (.info "Cancelled.")

/-! ## Projects -/

/-- The configuration of a new project; the dialect is still to be checked. -/
def projectOf (a : InitArguments) : Except Failure Config.Project := do
  let dialect ← a.dialect.mapM fun name =>
    match Codegen.Dialect.ofName? name with
    | some dialect => .ok dialect
    | none => .error (.config (.invalidProject Config.Project.modelName 1))
  return { outputDir := a.outputDir, dialect, namePrefix := a.namePrefix, owners := a.owners }

def initProject (a : InitArguments) : Action Unit := do
  let file := (← get).workspace.projectFile
  if (← query (·.exists? file)) && !a.force then fail (.usage (.fileExists file.text))
  let project ← attempt (projectOf a)
  update (·.saveProjectConfig project)
  say (.info s!"Wrote {file.text}")

end ApiContract.Cli
