import ApiContract.Contract.Model

/-!
# Specs

A spec describes one part of a product whatever its wire format: an operation, an event, a form.
All specs have a header with a name and a version, which together are the key of the spec in its
registry.
-/

namespace ApiContract.Contract

/-- Commands change state, queries only read it. -/
inductive OpKind where
  | command
  | query
  deriving DecidableEq, Repr

namespace OpKind

def name : OpKind → String
  | .command => "command"
  | .query => "query"

def ofName? : String → Option OpKind
  | "command" => some .command
  | "query" => some .query
  | _ => none

def check : Check OpKind := Check.word [("command", .command), ("query", .query)]

end OpKind

inductive Stability where
  | experimental
  | beta
  | stable
  | deprecated
  deriving DecidableEq, Repr

namespace Stability

def name : Stability → String
  | .experimental => "experimental"
  | .beta => "beta"
  | .stable => "stable"
  | .deprecated => "deprecated"

def all : List Stability := [.experimental, .beta, .stable, .deprecated]

def check : Check Stability := Check.word (all.map fun s => (s.name, s))

end Stability

/-- Who may call an operation. -/
inductive AuthLevel where
  | anonymous
  | user
  | admin
  deriving DecidableEq, Repr

namespace AuthLevel

def name : AuthLevel → String
  | .anonymous => "anonymous"
  | .user => "user"
  | .admin => "admin"

def all : List AuthLevel := [.anonymous, .user, .admin]

def check : Check AuthLevel := Check.word (all.map fun a => (a.name, a))

end AuthLevel

/-- What every spec begins with. -/
structure Header where
  name : String
  version : Int
  stability : Stability
  owners : List String
  tags : List String
  description : Option String
  deriving DecidableEq, Repr

/-- The key of a spec in its registry. -/
def Header.key (h : Header) : String := s!"{h.name}.v{h.version}"

/-- Types of specs. -/
class Keyed (α : Type) where
  header : α → Header

/-- The key of a spec in its registry. -/
def Keyed.key {α : Type} [Keyed α] (spec : α) : String := (header spec).key

structure OperationHeader extends Header where
  kind : OpKind
  goal : Option String
  context : Option String
  deriving DecidableEq, Repr

/-- The request that an operation is called with; a part that is absent follows from the kind and
the name. -/
structure RestTransport where
  method : Option String
  path : Option String
  deriving DecidableEq, Repr

structure GraphQlTransport where
  type : String
  fieldName : String
  deriving DecidableEq, Repr

structure Transport where
  rest : Option RestTransport
  graphQl : Option GraphQlTransport
  deriving DecidableEq, Repr

structure OperationSpec where
  header : OperationHeader
  input : Option SchemaModel
  output : Option SchemaModel
  auth : AuthLevel
  transport : Option Transport

structure EventSpec where
  header : Header
  payload : Option SchemaModel

/-- A feature groups operations, events and presentations by their keys. -/
structure FeatureSpec where
  header : Header
  operations : List String
  events : List String
  presentations : List String

structure PresentationSpec where
  header : Header
  target : String
  props : Option SchemaModel

structure FormSpec where
  header : Header
  model : Option SchemaModel
  submitOperation : Option String

structure DataViewSpec where
  header : Header
  view : String
  sourceOperation : Option String
  fields : List String

structure WorkflowStep where
  id : String
  operation : Option String
  next : List String
  deriving DecidableEq, Repr

structure WorkflowSpec where
  header : Header
  steps : List WorkflowStep

namespace OperationSpec

instance : Keyed OperationSpec := ⟨fun spec => spec.header.toHeader⟩

def key (spec : OperationSpec) : String := Keyed.key spec

def rest? (spec : OperationSpec) : Option RestTransport := spec.transport.bind (·.rest)

end OperationSpec

/-! ## Checking -/

open Check

def headerCheck (v : Value) : Checked Header :=
  Header.mk <$> required text "name" v
    <*> withDefault int 1 "version" v
    <*> withDefault Stability.check .stable "stability" v
    <*> withDefault (list text) [] "owners" v
    <*> withDefault (list text) [] "tags" v
    <*> perhaps text "description" v

def Header.check : Check Header := model headerCheck

def OperationHeader.check : Check OperationHeader := model fun v =>
  OperationHeader.mk <$> headerCheck v
    <*> withDefault OpKind.check .command "kind" v
    <*> perhaps text "goal" v
    <*> perhaps text "context" v

def RestTransport.check : Check RestTransport := model fun v =>
  RestTransport.mk <$> perhaps text "method" v <*> perhaps text "path" v

def GraphQlTransport.check : Check GraphQlTransport := model fun v =>
  GraphQlTransport.mk <$> required text "type" v <*> required text "field_name" v

def Transport.check : Check Transport := model fun v =>
  Transport.mk <$> perhaps RestTransport.check "rest" v <*> perhaps GraphQlTransport.check "graphql" v

/-- Input and output of an operation. -/
def modelsCheck : Check (Option SchemaModel × Option SchemaModel) := model fun v =>
  Prod.mk <$> perhaps SchemaModel.check "input" v <*> perhaps SchemaModel.check "output" v

/-- The policy of an operation. -/
def policyCheck : Check AuthLevel := model fun v =>
  withDefault AuthLevel.check .user "auth" v

def OperationSpec.check : Check OperationSpec := model fun v =>
  (fun header (input, output) auth transport => ⟨header, input, output, auth, transport⟩)
    <$> required OperationHeader.check "meta" v
    <*> withDefault modelsCheck (none, none) "io" v
    <*> withDefault policyCheck .user "policy" v
    <*> perhaps Transport.check "transport" v

def EventSpec.check : Check EventSpec := model fun v =>
  EventSpec.mk <$> required Header.check "meta" v <*> perhaps SchemaModel.check "payload" v

def FeatureSpec.check : Check FeatureSpec := model fun v =>
  FeatureSpec.mk <$> required Header.check "meta" v
    <*> withDefault (list text) [] "operations" v
    <*> withDefault (list text) [] "events" v
    <*> withDefault (list text) [] "presentations" v

def PresentationSpec.check : Check PresentationSpec := model fun v =>
  PresentationSpec.mk <$> required Header.check "meta" v
    <*> withDefault text "web_component" "target" v
    <*> perhaps SchemaModel.check "props" v

def FormSpec.check : Check FormSpec := Check.model fun v =>
  FormSpec.mk <$> required Header.check "meta" v
    <*> perhaps SchemaModel.check "model" v
    <*> perhaps text "submit_operation" v

def DataViewSpec.check : Check DataViewSpec := model fun v =>
  DataViewSpec.mk <$> required Header.check "meta" v
    <*> withDefault text "list" "view" v
    <*> perhaps text "source_operation" v
    <*> withDefault (list text) [] "fields" v

def WorkflowStep.check : Check WorkflowStep := model fun v =>
  WorkflowStep.mk <$> required text "id" v
    <*> perhaps text "operation" v
    <*> withDefault (list text) [] "next" v

def WorkflowSpec.check : Check WorkflowSpec := model fun v =>
  WorkflowSpec.mk <$> required Header.check "meta" v
    <*> withDefault (list WorkflowStep.check) [] "steps" v

end ApiContract.Contract
