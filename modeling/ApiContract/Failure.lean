import ApiContract.Json.Error

/-!
# Failures

Why an operation gives no result. Each kind carries its cause; the wording is in `Failure.message`
alone, and `Failure.exitCode` is the status that the program ends with. A failure inside one part of
a document is not raised but quoted in a report of the whole: `Failure.quoted` is what it says there.
-/

namespace ApiContract

/-- Why a document is refused as a whole. -/
inductive DocumentFault where
  | notJson (error : Json.ReadError)
  | notYaml
  | notObject (kind : String)
  | notMapping (kind : String)
  | swagger (version : String)
  | versionMissing
  | versionUnsupported (version : String)
  | operationNotMapping
  | empty (source : String)
  | fileMissing (path : String)
  deriving DecidableEq, Repr

/-- Why a configuration or a registry file is refused. -/
inductive ConfigFault where
  | registryEntry (surface model : String) (errors : Nat)
  | registryMissing (path : String)
  | registryNotJson (path : String) (error : Json.ReadError)
  | registryNotYaml (path : String)
  | registryNotMapping (path : String)
  | fileNotJson (scope path : String) (error : Json.ReadError)
  | fileInvalid (scope path model : String) (errors : Nat)
  | unknownKey (key : String)
  | invalidValue (key model : String) (errors : Nat)
  | invalidProject (model : String) (errors : Nat)
  | notANumber (setting quotedValue : String)
  | unknownFormat (quotedValue origin : String)
  deriving DecidableEq, Repr

/-- Why a command is refused before it starts. -/
inductive UsageFault where
  | unknownMatchPolicy (quotedValue : String)
  | fileExists (path : String)
  deriving DecidableEq, Repr

/-- Why a remote document cannot be had. -/
inductive FetchFault where
  | status (code : Nat) (reason : String)
  | transport (text : String)
  | timeout (seconds : String)
  deriving DecidableEq, Repr

inductive Failure where
  | document (cause : DocumentFault)
  /-- A chain of references that comes back to one it has followed. -/
  | circularReference (chain : List String)
  /-- A value does not have the shape of a model; the number of wrong leaves. -/
  | invalid (model : String) (errors : Nat)
  | config (cause : ConfigFault)
  | usage (cause : UsageFault)
  | fetch (url : String) (cause : FetchFault)
  | duplicateSpec (key : String)
  | generation (model : String) (cause : Failure)
  | drift (drifted total : Nat) (source : String)
  /-- A term of a document is of a kind that a step cannot work on. -/
  | unexpected
  deriving DecidableEq, Repr

/-- The first line of a report on a value that does not have the shape of a model. -/
def invalidMessage (model : String) (errors : Nat) : String :=
  if errors = 1 then s!"1 validation error for {model}"
  else s!"{errors} validation errors for {model}"

def DocumentFault.message : DocumentFault → String
  | .notJson error => s!"Invalid JSON: {error.message}"
  | .notYaml => "Invalid YAML"
  | .notObject kind => s!"OpenAPI document must be a JSON/YAML object (got {kind})"
  | .notMapping kind => s!"OpenAPI document must be a mapping (got {kind})"
  | .swagger version =>
    s!"Swagger {version} is not supported. Only OpenAPI 3.0.x and 3.1.x are supported. " ++
      "Consider converting with https://converter.swagger.io"
  | .versionMissing => "Missing 'openapi' field. Is this an OpenAPI 3.x document?"
  | .versionUnsupported version =>
    s!"Unsupported OpenAPI version: {version}. Only OpenAPI 3.0.x and 3.1.x are supported."
  | .operationNotMapping => "operation object must be a mapping"
  | .empty source => s!"OpenAPI document is empty: {source}"
  | .fileMissing path => s!"OpenAPI file not found: {path}"

def ConfigFault.message : ConfigFault → String
  | .registryEntry surface model errors =>
    s!"Invalid {surface} entry: {invalidMessage model errors}"
  | .registryMissing path => s!"Registry file not found: {path}"
  | .registryNotJson path error => s!"Cannot parse registry file {path}: {error.message}"
  | .registryNotYaml path => s!"Cannot parse registry file {path}"
  | .registryNotMapping path => s!"Registry file {path} must contain a mapping of surfaces"
  | .fileNotJson scope path error => s!"Invalid {scope} config at {path}: {error.message}"
  | .fileInvalid scope path model errors =>
    s!"Invalid {scope} config at {path}: {invalidMessage model errors}"
  | .unknownKey key => s!"Unknown config key: {key}"
  | .invalidValue key model errors => s!"Invalid value for {key}: {invalidMessage model errors}"
  | .invalidProject model errors => s!"Invalid project config: {invalidMessage model errors}"
  | .notANumber setting quotedValue => s!"{setting} must be a number, got {quotedValue}"
  | .unknownFormat quotedValue origin =>
    s!"Unknown schema format {quotedValue} from {origin} " ++
      "(choose: contractspec, zod, json-schema, graphql)"

def UsageFault.message : UsageFault → String
  | .unknownMatchPolicy quotedValue =>
    s!"Unknown match policy {quotedValue} (choose: exact, contains)"
  | .fileExists path => s!"{path} already exists (use --force to overwrite)"

def FetchFault.message (url : String) : FetchFault → String
  | .status code reason => s!"HTTP {code}: {reason} fetching {url}"
  | .transport text => s!"Failed to fetch {url}: {text}"
  | .timeout seconds => s!"Timed out after {seconds}s fetching {url}"

namespace Failure

/-- What a report says in place of a cause that has no wording of its own. -/
def unexplained : String := "<python error>"

/-- What a failure says where it is quoted. -/
def quoted : Failure → String
  | .document .operationNotMapping => DocumentFault.operationNotMapping.message
  | .circularReference chain => "Circular $ref chain: " ++ " -> ".intercalate chain
  | .invalid model errors => invalidMessage model errors
  | .generation model cause => s!"Cannot generate model {model}: {cause.quoted}"
  | _ => unexplained

def message : Failure → String
  | .document cause => cause.message
  | .circularReference chain => quoted (.circularReference chain)
  | .invalid model errors => invalidMessage model errors
  | .config cause => cause.message
  | .usage cause => cause.message
  | .fetch url cause => cause.message url
  | .duplicateSpec key => s!"Spec '{key}' is already registered"
  | .generation model cause => quoted (.generation model cause)
  | .drift drifted total source => s!"{drifted} of {total} operation(s) drifted from {source}"
  | .unexpected => unexplained

/-- The exit status: usage 2, fetching 6, documents 7, drift 8, all others 1. -/
def exitCode : Failure → Nat
  | .usage _ => 2
  | .fetch _ _ => 6
  | .document _ | .circularReference _ => 7
  | .drift _ _ _ => 8
  | .invalid _ _ | .config _ | .duplicateSpec _ | .generation _ _ | .unexpected => 1

end Failure

end ApiContract
