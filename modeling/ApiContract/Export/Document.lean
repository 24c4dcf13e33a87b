import ApiContract.Contract.Surface
import ApiContract.Export.Components
import ApiContract.Export.Operation
import ApiContract.Json.Writer
import ApiContract.Named
import ApiContract.OpenApi.Api
import ApiContract.Yaml.Writer

/-!
# Exported documents

`openApi` lays the specs of a registry out over paths and methods, in the order of their keys: of
two specs in one place the first is exported and the second left out (`Layout`). Their models become
components. The surfaces other than operations are no part of the paths and stand under names of
their own.
-/

namespace ApiContract.Export

open Contract

/-! ## Options -/

/-- What an exported document says about itself. -/
structure Options where
  title : String := "ContractSpec API"
  version : String := "1.0.0"
  description : Option String := none
  servers : List OpenApi.Server := []
  /-- Generate the source code of the registries as well. -/
  includeRegistryCode : Bool := true
  deriving DecidableEq, Repr, Inhabited

open Check in
def Options.check : Check Options := model fun v =>
  Options.mk <$> withDefault text "ContractSpec API" "title" v
    <*> withDefault text "1.0.0" "version" v
    <*> perhaps text "description" v
    <*> withDefault (list OpenApi.Server.check) [] "servers" v
    <*> withDefault bool true "include_registry_code" v

/-! ## Layout -/

/-- A spec that is left out because another one has its place. -/
structure Collision where
  spec : OperationSpec
  /-- The spec that is exported in the place. -/
  winner : OperationSpec

/-- The specs that are exported, in order, and those that are left out. A path stands where its first
spec does. -/
structure Layout where
  placed : List OperationSpec := []
  collisions : List Collision := []

/-- The name of a spec's method in a path item. -/
def methodKey (spec : OperationSpec) : String := Text.lower spec.verb

def samePlace (a b : OperationSpec) : Bool := a.path == b.path && methodKey a == methodKey b

def Layout.add (layout : Layout) (spec : OperationSpec) : Layout :=
  match layout.placed.find? (samePlace spec) with
  | some winner => { layout with collisions := layout.collisions ++ [⟨spec, winner⟩] }
  | none => { layout with placed := layout.placed ++ [spec] }

/-- The layout of the specs of a registry. -/
def layout (registry : Registry OperationSpec) : Layout := registry.toList.foldl Layout.add {}

/-- The path items, with the references of the specs as they are. -/
def pathItems (placed : List OperationSpec) : Members :=
  let item (path : String) : Value :=
    .map ((placed.filter (·.path == path)).map fun spec =>
      member (methodKey spec) (operationObject spec))
  (Distinct.ofList (placed.map (·.path))).map fun path => member path (item path)

/-! ## Components -/

/-- The paths and components of some specs, with every reference leading to a component. The
references that do not are `dropped`. -/
structure Body where
  paths : Value
  schemas : Named Value
  dropped : List Value

/-- All models of some specs by name; the first of a name counts. -/
def knownModels (placed : List OperationSpec) : Named SchemaModel :=
  placed.flatMap fun spec => (spec.input.toList ++ spec.output.toList).flatMap modelsOf

def body (placed : List OperationSpec) : Body :=
  let paths := Value.map (pathItems placed)
  let own := Named.ofList (placed.flatMap ownComponents)
  let others := (knownModels placed).filter fun (name, _) => !own.contains name
  let pending := (own.map (·.2)).reverse ++ [paths]
  let closure := close others pending
  let names := own.names ++ closure.added.names
  { paths := settle names paths
    schemas := (own ++ closure.added).map fun (name, tree) => (name, settle names tree)
    dropped := closure.visited.filter fun target => !leadsTo names target }

/-! ## Documents -/

def openApiVersion : String := "3.1.0"

def serverValue (s : OpenApi.Server) : Value :=
  .map <| [member "url" (.str s.url)] ++ memberIf "description" .str s.description ++
    memberIf "variables" id s.choices

/-- The schemes that the operations of a document need. -/
def securitySchemes (placed : List OperationSpec) : Members :=
  if placed.any (·.auth ≠ .anonymous) then
    [member "securitySchemes" (.map [member bearerScheme
      (.map [member "type" (.str "http"), member "scheme" (.str "bearer")])])]
  else []

/-- The OpenAPI document of the specs of a registry. -/
def openApi (registry : Registry OperationSpec) (options : Options) : Members :=
  let placed := (layout registry).placed
  let body := body placed
  [member "openapi" (.str openApiVersion),
    member "info" (.map <| [member "title" (.str options.title),
      member "version" (.str options.version)] ++ memberIfText "description" options.description)] ++
  memberUnlessEmpty "servers" (options.servers.map serverValue) ++
  [member "paths" body.paths,
    member "components" (.map <|
      member "schemas" (.map (body.schemas.map fun (name, tree) => member name tree)) ::
        securitySchemes placed)]

/-- The name under which a document holds the specs of a surface; operations are in its paths. -/
def extension? : Surface → Option String
  | .operations => none
  | .events => some "x-contractspec-events"
  | .features => some "x-contractspec-features"
  | .presentations => some "x-contractspec-presentations"
  | .forms => some "x-contractspec-forms"
  | .dataViews => some "x-contractspec-dataviews"
  | .workflows => some "x-contractspec-workflows"

/-- The specs of a surface in a document, if there is a registry. -/
def extensionMember (registries : Registries) (s : Surface) : Members :=
  match extension? s, registries.registry s with
  | some name, some registry => [member name (.list (registry.toList.map s.toValue))]
  | _, _ => []

/-- The document of all registries. -/
def document (registries : Registries) (options : Options) : Value :=
  .map <| openApi (registries.operations.getD .empty) options ++
    Surface.all.flatMap (extensionMember registries)

/-- The JSON text of a document. -/
def jsonText? (document : Value) : Option String :=
  (Json.write? .document document).map (· ++ "\n")

def yamlText (document : Value) : String := Yaml.write document

end ApiContract.Export
