import ApiContract.Config.Effective
import ApiContract.Contract.Surface
import ApiContract.Files.Tree
import ApiContract.Source.Document

/-!
# Workspaces

What a run of the program finds and what it leaves behind: the files, the environment, the remote
documents and those that are kept of them, and what is left of the standard input. Every change is
a function to a new workspace, and one that fails leaves the old one.
-/

namespace ApiContract

open Files (Path Tree)

/-- Where the program keeps its own files: in the base directories of the desktop, or in one
directory of its own. -/
inductive DirectoryLayout where
  | baseDirectories
  | singleDirectory
  deriving DecidableEq, Repr, Inhabited

/-- The program's own directories. -/
inductive OwnDirectory where
  | config
  | cache
  | data
  deriving DecidableEq, Repr

structure Workspace where
  files : Tree := {}
  /-- The working directory. -/
  directory : Path
  environment : Named String := []
  layout : DirectoryLayout := .baseDirectories
  remote : Source.Remote
  /-- The fetched documents that are kept. -/
  kept : Named Source.Stored := []
  /-- What is left of the standard input. -/
  input : String := ""
  /-- The time of the run, as it stands in the name of a crash report. -/
  time : String := ""

namespace Workspace

/-- The name under which the program keeps its files. -/
def programName : String := "specbridge"

/-! ## Files -/

/-- A path as it is seen from the root. -/
def absolute (w : Workspace) (p : Path) : Path := w.directory.join p

def read? (w : Workspace) (p : Path) : Except Failure (Option String) :=
  w.files.read? (w.absolute p)

def exists? (w : Workspace) (p : Path) : Except Failure Bool := do
  return (← w.files.find? (w.absolute p)).isSome

def write (w : Workspace) (p : Path) (text : String) : Except Failure Workspace := do
  return { w with files := ← w.files.write (w.absolute p) text }

/-- Writes files one after the other. The workspace is that after the last one that is written;
the failure is that of the first one that is not. -/
def writeAll (w : Workspace) : List (Path × String) → Except Failure Unit × Workspace
  | [] => (.ok (), w)
  | (p, text) :: rest =>
    match w.write p text with
    | .ok w => w.writeAll rest
    | .error cause => (.error cause, w)

/-! ## Own directories -/

def home (w : Workspace) : Path := Path.ofString ((w.environment.get? "HOME").getD "/")

/-- The variable that moves a directory, and where the directory is without it. -/
def baseDirectory : OwnDirectory → String × String
  | .config => ("XDG_CONFIG_HOME", ".config")
  | .cache => ("XDG_CACHE_HOME", ".cache")
  | .data => ("XDG_DATA_HOME", ".local/share")

def ownDirectory (w : Workspace) (d : OwnDirectory) : Path :=
  match w.layout with
  | .baseDirectories =>
    let (name, usual) := baseDirectory d
    let base := match Config.valueOf w.environment name with
      | some moved => Path.ofString moved
      | none => w.home.child usual
    base.child programName
  | .singleDirectory =>
    let base := w.home.child ("." ++ programName)
    match d with
    | .config => base
    | .cache => base.child "cache"
    | .data => base.child "logs"

/-- One of the program's directories; no file may be in its way. -/
def openDirectory (w : Workspace) (d : OwnDirectory) : Except Failure Path := do
  let p := w.ownDirectory d
  let _ ← w.files.makeDirectories [] (w.absolute p).parts
  return p

/-! ## Configuration -/

def globalFile (w : Workspace) : Except Failure Path := do
  return (← w.openDirectory .config).child "config.json"

/-- The configuration of the user. -/
def globalConfig (w : Workspace) : Except Failure Config.Global := do
  let file ← w.globalFile
  Config.Global.ofFile file.text (← w.read? file)

def saveGlobalConfig (w : Workspace) (g : Config.Global) : Except Failure Workspace := do
  w.write (← w.globalFile) g.text

/-- Changes one setting of the user: the new configuration, and the workspace with it. -/
def setGlobalConfig (w : Workspace) (key text : String) :
    Except Failure (Config.Global × Workspace) := do
  let changed ← (← w.globalConfig).set key text
  return (changed, ← w.saveGlobalConfig changed)

def projectFile (w : Workspace) : Path := w.directory.child "specbridge.json"

/-- The configuration of the project in the working directory, if it has one. -/
def projectConfig (w : Workspace) : Except Failure (Option Config.Project) := do
  Config.Project.ofFile w.projectFile.text (← w.read? w.projectFile)

def saveProjectConfig (w : Workspace) (p : Config.Project) : Except Failure Workspace :=
  w.write w.projectFile p.text

/-- The configuration that holds for a run. -/
def config (w : Workspace) (overrides : Config.Overrides) : Except Failure Config.Effective := do
  let user ← w.globalConfig
  let project ← w.projectConfig
  Config.effective user project w.environment overrides

/-! ## Registries -/

/-- The registries of a file; `shown` is how messages name the file. The file is JSON if its name
says so. -/
def registries (w : Workspace) (p : Path) (shown : String) :
    Except Failure Contract.Registries := do
  let some text ← w.read? p | throw (.config (.registryMissing shown))
  let value ←
    if Text.lower p.suffix = ".json" then
      match Json.read text with
      | .ok v => pure v
      | .error (.tooManyDigits _) => throw .unexpected
      | .error error => throw (.config (.registryNotJson shown error))
    else
      match Yaml.read text with
      | .ok v => pure v
      | .error .malformed => throw (.config (.registryNotYaml shown))
      | .error .noSuchValue => throw .unexpected
  if !value.isMap then throw (.config (.registryNotMapping shown))
  Contract.Registries.ofValue value

/-! ## Documents -/

/-- A text that was asked for, and the workspace after that. -/
structure Retrieval where
  text : Except Failure String
  requested : List String := []
  isHit : Bool := false
  after : Workspace

/-- The text behind the name of a document. The standard input can be had once. -/
def retrieve (w : Workspace) (settings : Config.CacheSettings) (patience : Source.Patience)
    (name : String) : Retrieval :=
  match Source.Origin.ofString name with
  | .url url =>
    let got := Source.fetchThrough ⟨settings, w.kept⟩ w.remote patience url
    { text := got.fetched.result
      requested := got.fetched.requested
      isHit := got.isHit
      after := { w with kept := got.cache.entries } }
  | .standardInput => { text := .ok w.input, after := { w with input := "" } }
  | .file path =>
    let text := do
      let some text ← w.read? (Path.ofString path) | throw (.document (.fileMissing path))
      return text
    { text, after := w }

end Workspace

end ApiContract
