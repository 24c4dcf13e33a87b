import ApiContract.Codegen.Dialect
import ApiContract.Contract.Projection
import ApiContract.Json.Reader
import ApiContract.Json.Writer
import ApiContract.Number.Double

/-!
# The global configuration

The settings of a user, kept as a JSON file. A member that the file does not have has its default,
and members that are no settings are left out.

`Global.set` changes one setting by its key, a path of member names with dots between them. The new
value is checked together with all others, so what is written can always be read.
-/

namespace ApiContract.Config

open Contract (Stability AuthLevel)

/-- Whether fetched documents are kept, and for how long. -/
structure CacheSettings where
  enabled : Bool := false
  ttlSeconds : Int := 300
  deriving DecidableEq, Repr, Inhabited

/-- What imported specs get unless a run says otherwise. -/
structure ImportDefaults where
  namePrefix : Option String := none
  owners : List String := []
  stability : Stability := .stable
  auth : AuthLevel := .user
  deriving DecidableEq, Repr, Inhabited

/-- The seconds that a fetch may take when nothing is set. -/
def defaultTimeout : Double := .ofInt 30

structure Global where
  dialect : Codegen.Dialect := .declaration
  outputFormat : String := "auto"
  cache : CacheSettings := {}
  timeout : Double := defaultTimeout
  importDefaults : ImportDefaults := {}
  deriving DecidableEq, Repr, Inhabited

/-! ## Reading and writing -/

namespace CacheSettings

open Check in
def check : Check CacheSettings := model fun v =>
  CacheSettings.mk <$> withDefault bool false "enabled" v
    <*> withDefault int 300 "ttl_seconds" v

def toValue (s : CacheSettings) : Value :=
  .map [member "enabled" (.bool s.enabled), member "ttl_seconds" (.int s.ttlSeconds)]

end CacheSettings

namespace ImportDefaults

open Check in
def check : Check ImportDefaults := model fun v =>
  ImportDefaults.mk <$> perhaps text "prefix" v
    <*> withDefault (list text) [] "default_owners" v
    <*> withDefault Stability.check .stable "default_stability" v
    <*> withDefault AuthLevel.check .user "default_auth" v

def toValue (d : ImportDefaults) : Value :=
  .map [member "prefix" (orNull .str d.namePrefix), member "default_owners" (texts d.owners),
    member "default_stability" (.str d.stability.name), member "default_auth" (.str d.auth.name)]

end ImportDefaults

namespace Global

/-- The name of the type in messages. -/
def modelName : String := "GlobalConfig"

/-- A group of one setting. -/
def group {α : Type} (check : Check α) (default : α) (name : String) : Check α :=
  Check.model (Check.withDefault check default name)

open Check in
def check : Check Global := model fun v =>
  Global.mk <$> withDefault Codegen.Dialect.check .declaration "schema_format" v
    <*> withDefault (group text "auto" "format") "auto" "output" v
    <*> withDefault CacheSettings.check {} "cache" v
    <*> withDefault (group double defaultTimeout "timeout") defaultTimeout "request" v
    <*> withDefault ImportDefaults.check {} "import_defaults" v

def toValue (g : Global) : Value :=
  .map [member "schema_format" (.str g.dialect.name),
    member "output" (.map [member "format" (.str g.outputFormat)]),
    member "cache" g.cache.toValue,
    member "request" (.map [member "timeout" (.float g.timeout)]),
    member "import_defaults" g.importDefaults.toValue]

end Global

/-- The text of a configuration file. -/
def fileText (v : Value) : String := (Json.write? .document v).getD "" ++ "\n"

/-- Reads a configuration file; `scope` and `path` say in messages which one it is. -/
def readFile {α : Type} (check : Check α) (scope modelName path text : String) :
    Except Failure α :=
  match Json.read text with
  | .error error => .error (.config (.fileNotJson scope path error))
  | .ok v =>
    match check v with
    | .ok a => .ok a
    | .wrong errors => .error (.config (.fileInvalid scope path modelName errors))

namespace Global

def text (g : Global) : String := fileText g.toValue

/-- The configuration that a file has; without a file everything has its default. -/
def ofFile (path : String) : Option String → Except Failure Global
  | some text => readFile check "global" modelName path text
  | none => .ok {}

/-! ## Changing a setting -/

/-- Puts a value at a place that is there. Every name but the last leads to a mapping. -/
def replaceAt (new : Value) : List String → Value → Option Value
  | [], _ => none
  | name :: rest, .map members => do
    let old ← Members.get? members name
    let inner ← if rest.isEmpty then some new else replaceAt new rest old
    some (.map (Members.insert members (.str name) inner))
  | _ :: _, _ => none

/-- The value that a text stands for: a JSON text for its value, any other for itself. -/
def settingOf (text : String) : Except Failure Value :=
  match Json.read text with
  | .ok v => .ok v
  | .error (.malformed _ _ _ _) => .ok (.str text)
  | .error (.tooManyDigits _) => .error .unexpected

/-- The names in a key. -/
def keyParts (key : String) : List String := (key.toList.splitOn '.').map String.ofList

/-- The configuration with the setting of a key changed. -/
def set (g : Global) (key text : String) : Except Failure Global := do
  if (replaceAt .null (keyParts key) g.toValue).isNone then throw (.config (.unknownKey key))
  let new ← settingOf text
  match replaceAt new (keyParts key) g.toValue with
  | none => throw (.config (.unknownKey key))
  | some v =>
    match check v with
    | .ok changed => return changed
    | .wrong errors => throw (.config (.invalidValue key modelName errors))

end Global

end ApiContract.Config
