import ApiContract.Codegen.Conventions
import ApiContract.Codegen.Lines
import ApiContract.Contract.Surface

/-!
# Registry files

For every registry there is a generated file that imports each spec under its own symbol and
registers it.
-/

namespace ApiContract.Export

open Codegen Contract

structure GeneratedFile where
  fileName : String
  code : String
  deriving DecidableEq, Repr

/-- The class of a surface's registry. -/
def registryClass : Surface → String
  | .operations => "OperationSpecRegistry"
  | .events => "EventRegistry"
  | .features => "FeatureRegistry"
  | .presentations => "PresentationRegistry"
  | .forms => "FormRegistry"
  | .dataViews => "DataViewRegistry"
  | .workflows => "WorkflowRegistry"

/-- The constant that holds a surface's registry. -/
def registryConstant : Surface → String
  | .operations => "operationsRegistry"
  | .events => "eventsRegistry"
  | .features => "featuresRegistry"
  | .presentations => "presentationsRegistry"
  | .forms => "formsRegistry"
  | .dataViews => "dataViewsRegistry"
  | .workflows => "workflowsRegistry"

/-- The directory of a surface's specs. -/
def directory (conventions : Conventions) : Surface → String
  | .operations => conventions.operations
  | .events => conventions.events
  | s => Naming.kebabCase s.name

/-- The symbol of a spec. -/
def symbol (h : Header) : String := Naming.exportName h.name h.version

/-- The code of the registry file for some specs. -/
def registryCode (conventions : Conventions) (s : Surface) (specs : List Header) : String :=
  let class_ := registryClass s
  let source (h : Header) : String :=
    "./" ++ directory conventions s ++ "/" ++ Naming.kebabCase h.name
  let comment := ["/**", s!" * {class_} with {specs.length} spec(s)", " *",
    " * Generated by specbridge. Do not edit by hand.", " */"]
  let imports := specs.map fun h => importLine [symbol h] (source h)
  let constant := registryConstant s
  let registrations := specs.map fun h => constant ++ ".register(" ++ symbol h ++ ");"
  joinLines (comment ++ [importLine [class_] contractLibrary] ++ imports ++
    ["", s!"export const {constant} = new {class_}();"] ++ registrations) ++ "\n"

/-- The registry files of all registries. -/
def registryFiles (registries : Registries) (conventions : Conventions) : List GeneratedFile :=
  Surface.all.filterMap fun s =>
    (registries.registry s).map fun registry =>
      { fileName := Naming.fileName (s.name ++ "Registry")
        code := registryCode conventions s (registry.toList.map s.header) }

end ApiContract.Export
