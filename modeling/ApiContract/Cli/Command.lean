import ApiContract.Cli.Arguments
import ApiContract.Console

/-!
# Commands

What a command line asks for. A line that asks for nothing that there is has no invocation; this is
the only way in which reading it can fail, so a command finds its arguments complete.
-/

namespace ApiContract.Cli

structure ImportArguments where
  source : String
  outputDir : Option String
  dialect : Option String
  namePrefix : Option String
  tags : Option (List String)
  included : Option (List String)
  excluded : List String
  includeDeprecated : Bool
  dryRun : Bool
  deriving DecidableEq, Repr

structure ExportArguments where
  registryFile : String
  output : Option String
  asYaml : Bool
  title : String
  version : String
  description : Option String
  servers : List String
  registryCode : Option String
  deriving DecidableEq, Repr

structure DiffArguments where
  old : String
  new : String
  namePrefix : Option String
  ignoreDescriptions : Bool
  ignoreTags : Bool
  ignoreTransport : Bool
  policy : String
  deriving DecidableEq, Repr

structure ValidateArguments where
  registryFile : String
  source : String
  isStrict : Bool
  ignoreDescriptions : Bool
  ignoreTags : Bool
  deriving DecidableEq, Repr

structure InitArguments where
  outputDir : Option String
  dialect : Option String
  namePrefix : Option String
  owners : Option (List String)
  force : Bool
  deriving DecidableEq, Repr

inductive Command where
  | importDocument (arguments : ImportArguments)
  | exportRegistries (arguments : ExportArguments)
  | diff (arguments : DiffArguments)
  | validate (arguments : ValidateArguments)
  | inspectPaths (source : String)
  | inspectSchemas (source : String)
  | showConfig (resolved : Bool)
  | setConfig (key value : String)
  | resetConfig (force : Bool)
  | initProject (arguments : InitArguments)
  deriving DecidableEq, Repr

inductive Invocation where
  | run (settings : Console.Settings) (command : Command)
  | version
  | help
  deriving DecidableEq, Repr

/-! ## Rules -/

def flag (name : String) (letter : Option Char) : OptionRule := ⟨name, letter, false⟩

def valued (name : String) (letter : Option Char) : OptionRule := ⟨name, letter, true⟩

def helpRule : OptionRule := flag "help" none

/-- The options in front of the command. -/
def commonRules : List OptionRule := [
  flag "version" none, flag "json" none, flag "plain" none, flag "no-color" none,
  flag "quiet" (some 'q'), flag "verbose" (some 'v'), flag "dry-run" (some 'n'), helpRule]

def importRules : List OptionRule := [
  valued "out" (some 'o'), valued "format" (some 'F'), valued "prefix" none,
  valued "tag" (some 't'), valued "include" none, valued "exclude" none,
  flag "include-deprecated" none, flag "dry-run" (some 'n'), helpRule]

def exportRules : List OptionRule := [
  valued "output" (some 'o'), flag "yaml" none, valued "title" none, valued "version" none,
  valued "description" none, valued "server" none, valued "registry-code" none, helpRule]

def diffRules : List OptionRule := [
  valued "prefix" none, flag "ignore-descriptions" none, flag "ignore-tags" none,
  flag "ignore-transport" none, valued "match" none, helpRule]

def validateRules : List OptionRule := [
  flag "strict" none, flag "ignore-descriptions" none, flag "ignore-tags" none, helpRule]

def initRules : List OptionRule := [
  valued "output-dir" none, valued "format" (some 'F'), valued "prefix" none,
  valued "owner" none, flag "force" (some 'f'), helpRule]

/-! ## Reading -/

/-- What stands behind the name of a command: help, or the command that its options and words
make. -/
def readCommand (rules : List OptionRule) (settings : Console.Settings)
    (make : Given → Option Command) (words : List String) : Option Invocation := do
  let given ← parseWords rules true words
  if given.has "help" then return .help
  return .run settings (← make given)

def importCommand (dryRun : Bool) (g : Given) : Option Command :=
  match g.words with
  | [source] => some <| .importDocument {
      source
      outputDir := g.value? "out"
      dialect := g.value? "format"
      namePrefix := g.value? "prefix"
      tags := g.values? "tag"
      included := g.values? "include"
      excluded := g.values "exclude"
      includeDeprecated := g.has "include-deprecated"
      dryRun := dryRun || g.has "dry-run" }
  | _ => none

def exportCommand (g : Given) : Option Command :=
  match g.words with
  | [registryFile] => some <| .exportRegistries {
      registryFile
      output := g.value? "output"
      asYaml := g.has "yaml"
      title := (g.value? "title").getD "ContractSpec API"
      version := (g.value? "version").getD "1.0.0"
      description := g.value? "description"
      servers := g.values "server"
      registryCode := g.value? "registry-code" }
  | _ => none

def diffCommand (g : Given) : Option Command :=
  match g.words with
  | [old, new] => some <| .diff {
      old
      new
      namePrefix := g.value? "prefix"
      ignoreDescriptions := g.has "ignore-descriptions"
      ignoreTags := g.has "ignore-tags"
      ignoreTransport := g.has "ignore-transport"
      policy := (g.value? "match").getD "exact" }
  | _ => none

def validateCommand (g : Given) : Option Command :=
  match g.words with
  | [registryFile, source] => some <| .validate {
      registryFile
      source
      isStrict := g.has "strict"
      ignoreDescriptions := g.has "ignore-descriptions"
      ignoreTags := g.has "ignore-tags" }
  | _ => none

def sourceCommand (make : String → Command) (g : Given) : Option Command :=
  match g.words with
  | [source] => some (make source)
  | _ => none

def setCommand (g : Given) : Option Command :=
  match g.words with
  | [key, value] => some (.setConfig key value)
  | _ => none

/-- A command that takes no words. -/
def wordlessCommand (make : Given → Command) (g : Given) : Option Command :=
  if g.words.isEmpty then some (make g) else none

def initCommand (g : Given) : Command :=
  .initProject {
    outputDir := g.value? "output-dir"
    dialect := g.value? "format"
    namePrefix := g.value? "prefix"
    owners := g.values? "owner"
    force := g.has "force" }

/-- A command of a group, by its name. -/
def readGroup (member : String → List String → Option Invocation) (words : List String) :
    Option Invocation := do
  let given ← parseWords [helpRule] false words
  if given.has "help" then return .help
  match given.words with
  | name :: rest => member name rest
  | [] => none

def readInspection (settings : Console.Settings) (name : String) (words : List String) :
    Option Invocation :=
  match name with
  | "paths" => readCommand [helpRule] settings (sourceCommand .inspectPaths) words
  | "schemas" => readCommand [helpRule] settings (sourceCommand .inspectSchemas) words
  | _ => none

def readConfiguration (settings : Console.Settings) (name : String) (words : List String) :
    Option Invocation :=
  let wordless (rules : List OptionRule) (make : Given → Command) :=
    readCommand (rules ++ [helpRule]) settings (wordlessCommand make) words
  match name with
  | "show" => wordless [flag "resolved" none] fun g => .showConfig (g.has "resolved")
  | "set" => readCommand [helpRule] settings setCommand words
  | "reset" => wordless [flag "force" (some 'f')] fun g => .resetConfig (g.has "force")
  | "init" => readCommand initRules settings (wordlessCommand initCommand) words
  | _ => none

/-- What a command line asks for. -/
def Invocation.ofWords? (words : List String) : Option Invocation := do
  let given ← parseWords commonRules false words
  match given.options.find? fun (name, _) => name == "version" || name == "help" with
  | some (name, _) => return if name = "version" then .version else .help
  | none =>
    let settings : Console.Settings :=
      { format := if given.has "json" then .json else .plain
        isQuiet := given.has "quiet"
        isVerbose := given.has "verbose" }
    match given.words with
    | [] => none
    | name :: rest =>
      match name with
      | "import" =>
        readCommand importRules settings (importCommand (given.has "dry-run")) rest
      | "export" => readCommand exportRules settings exportCommand rest
      | "diff" => readCommand diffRules settings diffCommand rest
      | "validate" => readCommand validateRules settings validateCommand rest
      | "inspect" => readGroup (readInspection settings) rest
      | "config" => readGroup (readConfiguration settings) rest
      | _ => none

end ApiContract.Cli
