import ApiContract.Codegen.Dialect
import ApiContract.Contract.Spec
import ApiContract.Naming
import ApiContract.OpenApi.Operation
import ApiContract.Value.Display

/-!
# The identity of an imported operation

An operation that carries the identity of a contract keeps it; the parts that it does not carry
follow from its id and its method. The options of an import say which operations are imported, and
what their specs get where the document says nothing.
-/

namespace ApiContract.Import

open Contract OpenApi

/-! ## Options -/

structure Options where
  /-- Stands before the name of every spec. -/
  namePrefix : Option String := none
  /-- When there are any, only operations with one of these tags. -/
  tags : Option (List String) := none
  /-- When there are any, only these operations, and `excluded` does not count. -/
  included : Option (List String) := none
  excluded : List String := []
  includeDeprecated : Bool := false
  defaultStability : Stability := .stable
  defaultOwners : List String := []
  defaultAuth : AuthLevel := .user
  dialect : Codegen.Dialect := .declaration
  /-- Build specs beside the code. -/
  buildSpecs : Bool := true
  sourceUrl : Option String := none
  sourceFile : Option String := none
  deriving DecidableEq, Repr, Inhabited

open Check in
def Options.check : Check Options := model fun v =>
  Options.mk <$> perhaps text "prefix" v
    <*> perhaps (list text) "tags" v
    <*> perhaps (list text) "include" v
    <*> withDefault (list text) [] "exclude" v
    <*> withDefault bool false "include_deprecated" v
    <*> withDefault Stability.check .stable "default_stability" v
    <*> withDefault (list text) [] "default_owners" v
    <*> withDefault AuthLevel.check .user "default_auth" v
    <*> withDefault Codegen.Dialect.check .declaration "schema_format" v
    <*> withDefault bool true "build_specs" v
    <*> perhaps text "source_url" v
    <*> perhaps text "source_file" v

/-! ## Identity -/

/-- What a version in a document says. -/
inductive DeclaredVersion where
  | number (value : Int)
  | unreadable
  | unbounded
  deriving DecidableEq, Repr

/-- The version that a value declares: a number without its fraction, or the number in a text. -/
def DeclaredVersion.of : Value → DeclaredVersion
  | .int n => .number n
  | .bool b => .number (if b then 1 else 0)
  | .float (.infinite _) => .unbounded
  | .float x => (x.truncate?.map number).getD .unreadable
  | .str s => ((Number.int? s).map number).getD .unreadable
  | .scalar (.bytes b) =>
    ((Number.int? (String.ofList (b.map fun x => Char.ofNat x.toNat))).map number).getD .unreadable
  | _ => .unreadable

structure Identity where
  name : String
  version : Int
  kind : OpKind
  deriving DecidableEq, Repr

/-- Methods that change state make commands. -/
def kindOf : Method → OpKind
  | .post | .put | .delete | .patch => .command
  | .get | .head | .options | .trace => .query

/-- The identity of an operation. A version that is absent, zero or cannot be read is the first. -/
def identityOf (operation : Operation) (namePrefix : Option String) : Except Failure Identity := do
  let declared := operation.identity.getD .null
  let given := declared.field "name"
  let name := if given.isTruthy then given.text else Naming.specName operation.id namePrefix
  let given := declared.field "version"
  let version ←
    if given.isTruthy then
      match DeclaredVersion.of given with
      | .number n => pure n
      | .unreadable => pure 1
      | .unbounded => throw .unexpected
    else pure 1
  let kind := ((declared.field "kind").str?.bind OpKind.ofName?).getD (kindOf operation.method)
  return ⟨name, version, kind⟩

/-- Who may call an operation: anyone if one alternative of its security requires nothing. -/
def authOf (operation : Operation) (default : AuthLevel) : AuthLevel :=
  match operation.security with
  | none | some [] => default
  | some requirements => if requirements.any (·.isEmpty) then .anonymous else .user

def stabilityOf (operation : Operation) (default : Stability) : Stability :=
  if operation.deprecated then .deprecated else default

/-- The summary of an operation, or its id if there is none. -/
def titleOf (operation : Operation) : String :=
  (operation.summary.filter (!·.isEmpty)).getD operation.id

/-- What an operation is for. -/
def goalOf (operation : Operation) : String :=
  (operation.description.filter (!·.isEmpty)).getD "Imported from OpenAPI"

/-- Where an operation comes from. -/
def contextOf (operation : Operation) : String :=
  s!"Imported from OpenAPI: {operation.method.verb} {operation.path}"

end ApiContract.Import
