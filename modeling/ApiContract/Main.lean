import ApiContract.Cli.Program

/-!
# The command line

Takes from the machine what a run may look at, runs the program on it, and gives back to the machine
what the run has said and written. A run looks only at the files of its two configurations and at
those that its words name, so these are read before it. There is no net: every address is
unreachable.
-/

namespace ApiContract.Machine

open Files (Path)

/-- The variables of the environment that a run may look at. -/
def environmentNames : List String := [
  "HOME", "XDG_CONFIG_HOME", "XDG_CACHE_HOME", "XDG_DATA_HOME",
  Config.Variable.dialect, Config.Variable.outputDir, Config.Variable.timeout]

/-- The part of a word from its first equals sign on; an option has its value there. -/
def valueText (word : String) : String :=
  String.ofList ((word.toList.dropWhile (· != '=')).drop 1)

/-- The paths that a run may read. -/
def readablePaths (w : Workspace) (words : List String) : List Path :=
  ((w.ownDirectory .config).child "config.json") :: w.projectFile ::
    (words ++ words.map valueText).map Path.ofString

/-- Whether a run may read the standard input. -/
def readsInput (words : List String) : Bool := words.contains "-" || words.contains "reset"

/-- The files that are new or have changed, each under its path from the root. -/
def changedFiles (before after : Workspace) : List (String × String) :=
  let old := before.files.filesBelow []
  (after.files.filesBelow []).filter fun file => !old.contains file

/-- The workspace with the file of a path, if there is one that can be read. -/
def withFile (w : Workspace) (p : Path) : IO Workspace := do
  match ← (IO.FS.readFile (w.absolute p).text).toBaseIO with
  | .error _ => return w
  | .ok text =>
    match w.write p text with
    | .ok w => return w
    | .error _ => return w

/-- All of the standard input. -/
partial def inputFrom (stream : IO.FS.Stream) (read : String) : IO String := do
  let line ← stream.getLine
  if line.isEmpty then return read else inputFrom stream (read ++ line)

/-- The machine as a run on the words finds it. -/
def workspaceFor (words : List String) : IO Workspace := do
  let environment ← environmentNames.filterMapM fun name => do
    return (← IO.getEnv name).map fun value => (name, value)
  let w : Workspace := {
    directory := Path.ofString (← IO.currentDir).toString
    environment
    remote := ⟨fun _ => .unreachable "There is no net."⟩
    input := ← if readsInput words then inputFrom (← IO.getStdin) "" else pure ""
    time := toString (← IO.monoMsNow) }
  (readablePaths w words).foldlM withFile w

/-- Writes a file under its path from the root, and the directories on the way to it. -/
def save (file : String × String) : IO Unit := do
  let path := Path.ofString ("/" ++ file.1)
  IO.FS.createDirAll { path with parts := path.parts.dropLast }.text
  IO.FS.writeFile path.text file.2

end ApiContract.Machine

open ApiContract in
def main (words : List String) : IO UInt32 := do
  let before ← Machine.workspaceFor words
  let (outcome, after) := Cli.run before words
  (Machine.changedFiles before after).forM Machine.save
  match outcome with
  | .usageError =>
    IO.eprint (Cli.helpText ++ "\n")
    return UInt32.ofNat Cli.usageExitCode
  | .finished exitCode transcript =>
    IO.print transcript.out
    IO.eprint transcript.err
    return UInt32.ofNat exitCode
