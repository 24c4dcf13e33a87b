import ApiContract.Config.Project
import ApiContract.Named
import ApiContract.Number.Reading

/-!
# The configuration of a run

What holds for a run is the first thing said about it by: the options of the command, the
environment, the project, the user. An empty variable of the environment says nothing.
-/

namespace ApiContract.Config

open Codegen (Conventions Dialect)

structure Effective where
  dialect : Dialect
  outputDir : String
  conventions : Conventions
  timeout : Double
  cache : CacheSettings
  importDefaults : ImportDefaults
  deriving DecidableEq, Repr

def Effective.toValue (e : Effective) : Value :=
  .map [member "schema_format" (.str e.dialect.name), member "output_dir" (.str e.outputDir),
    member "conventions" (conventionsValue e.conventions), member "timeout" (.float e.timeout),
    member "cache" e.cache.toValue, member "import_defaults" e.importDefaults.toValue]

/-- What the options of a command say. -/
structure Overrides where
  dialect : Option String := none
  outputDir : Option String := none
  timeout : Option Double := none
  deriving DecidableEq, Repr, Inhabited

def defaultOutputDir : String := "./src/contracts"

namespace Variable

def dialect : String := "SPECBRIDGE_SCHEMA_FORMAT"
def outputDir : String := "SPECBRIDGE_OUTPUT_DIR"
def timeout : String := "SPECBRIDGE_TIMEOUT"

end Variable

/-- The dialect of a name; `origin` says in messages where the name comes from. -/
def dialectOf (name origin : String) : Except Failure Dialect :=
  match Dialect.ofName? name with
  | some dialect => .ok dialect
  | none => .error (.config (.unknownFormat (Text.quoted name) origin))

def timeoutOf (s : String) : Except Failure Double :=
  match Number.double? s with
  | some x => .ok x
  | none => .error (.config (.notANumber Variable.timeout (Text.quoted s)))

/-- The import defaults of a user as a project changes them. -/
def ImportDefaults.overriddenBy (d : ImportDefaults) (p : Project) : ImportDefaults where
  namePrefix := p.namePrefix.or d.namePrefix
  owners := p.owners.getD d.owners
  stability := p.stability.getD d.stability
  auth := p.auth.getD d.auth

/-- Something that is said, checked; otherwise what holds already. -/
def override {α β : Type} (said : Option α) (read : α → Except Failure β) (current : β) :
    Except Failure β :=
  match said with
  | some a => read a
  | none => .ok current

/-- The variable of an environment, if it is set and not empty. -/
def valueOf (environment : Named String) (name : String) : Option String :=
  (environment.get? name).filter (· ≠ "")

def effective (user : Global) (project : Option Project) (environment : Named String)
    (overrides : Overrides) : Except Failure Effective := do
  let settings := project.getD {}
  let said := valueOf environment
  let dialect ← override (said Variable.dialect) (dialectOf · Variable.dialect)
    (settings.dialect.getD user.dialect)
  let timeout ← override (said Variable.timeout) timeoutOf user.timeout
  let dialect ← override overrides.dialect (dialectOf · "--format") dialect
  return {
    dialect
    outputDir := ((overrides.outputDir.or (said Variable.outputDir)).or settings.outputDir).getD
      defaultOutputDir
    conventions := settings.conventions
    timeout := overrides.timeout.getD timeout
    cache := user.cache
    importDefaults := user.importDefaults.overriddenBy settings }

end ApiContract.Config
