import ApiContract.Contract.Projection
import ApiContract.Contract.Registry

/-!
# Surfaces

The kinds of specs and their registries. `Registries.ofValue` reads the registries of a file:
a surface that the file does not name has none.
-/

namespace ApiContract.Contract

/-- The kinds of specs, in the order in which they are read and written. -/
inductive Surface where
  | operations
  | events
  | features
  | presentations
  | forms
  | dataViews
  | workflows
  deriving DecidableEq, Repr

namespace Surface

/-- The name of a surface in a registry file. -/
def name : Surface → String
  | .operations => "operations"
  | .events => "events"
  | .features => "features"
  | .presentations => "presentations"
  | .forms => "forms"
  | .dataViews => "data_views"
  | .workflows => "workflows"

def all : List Surface :=
  [.operations, .events, .features, .presentations, .forms, .dataViews, .workflows]

def ofName? (s : String) : Option Surface := all.find? (·.name == s)

/-- The specs of a surface. -/
abbrev Spec : Surface → Type
  | .operations => OperationSpec
  | .events => EventSpec
  | .features => FeatureSpec
  | .presentations => PresentationSpec
  | .forms => FormSpec
  | .dataViews => DataViewSpec
  | .workflows => WorkflowSpec

/-- The name of the type of a surface's specs in messages. -/
def model : Surface → String
  | .operations => "OperationSpec"
  | .events => "EventSpec"
  | .features => "FeatureSpec"
  | .presentations => "PresentationSpec"
  | .forms => "FormSpec"
  | .dataViews => "DataViewSpec"
  | .workflows => "WorkflowSpec"

def check : (s : Surface) → Check s.Spec
  | .operations => OperationSpec.check
  | .events => EventSpec.check
  | .features => FeatureSpec.check
  | .presentations => PresentationSpec.check
  | .forms => FormSpec.check
  | .dataViews => DataViewSpec.check
  | .workflows => WorkflowSpec.check

def header : (s : Surface) → s.Spec → Header
  | .operations, spec => Keyed.header spec
  | .events, spec => spec.header
  | .features, spec => spec.header
  | .presentations, spec => spec.header
  | .forms, spec => spec.header
  | .dataViews, spec => spec.header
  | .workflows, spec => spec.header

def toValue : (s : Surface) → s.Spec → Value
  | .operations => OperationSpec.toValue
  | .events => EventSpec.toValue
  | .features => FeatureSpec.toValue
  | .presentations => PresentationSpec.toValue
  | .forms => FormSpec.toValue
  | .dataViews => DataViewSpec.toValue
  | .workflows => WorkflowSpec.toValue

instance (s : Surface) : Keyed s.Spec := ⟨s.header⟩

end Surface

/-- A spec of any surface. -/
structure AnySpec where
  surface : Surface
  spec : surface.Spec

instance : Keyed AnySpec := ⟨fun s => s.surface.header s.spec⟩

/-- At most one registry per surface. -/
structure Registries where
  registry : (s : Surface) → Option (Registry s.Spec)

namespace Registries

instance : Inhabited Registries := ⟨⟨fun _ => none⟩⟩

def operations (r : Registries) : Option (Registry OperationSpec) :=
  (r.registry .operations).map fun registry => ⟨registry.specs, registry.keys_nodup⟩

/-- The registry of a surface from the value that a file has for it. Each entry is checked before
any is registered, and the first bad one refuses all. -/
def readSurface (s : Surface) (entries : Value) : Except Failure (Option (Registry s.Spec)) := do
  if entries.isNull then return none
  let some entries := entries.elements? | throw .unexpected
  let specs ← entries.mapM fun entry =>
    match s.check entry with
    | .ok spec => .ok spec
    | .wrong errors => .error (.config (.registryEntry s.name s.model errors))
  return some (← Registry.ofList specs)

/-- The entries of a surface. Data views have a second name, for when the first is absent. -/
def entriesOf (file : Value) (s : Surface) : Value :=
  match s, file.get? s.name with
  | .dataViews, none => file.field "dataViews"
  | _, found => found.getD .null

/-- The registries of a mapping from surfaces to lists of specs. -/
def ofValue (file : Value) : Except Failure Registries := do
  if !file.isMap then throw .unexpected
  let read (s : Surface) := readSurface s (entriesOf file s)
  let operations ← read .operations
  let events ← read .events
  let features ← read .features
  let presentations ← read .presentations
  let forms ← read .forms
  let dataViews ← read .dataViews
  let workflows ← read .workflows
  return ⟨fun
    | .operations => operations
    | .events => events
    | .features => features
    | .presentations => presentations
    | .forms => forms
    | .dataViews => dataViews
    | .workflows => workflows⟩

end Registries

end ApiContract.Contract
