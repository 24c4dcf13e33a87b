import ApiContract.Drift.Change
import ApiContract.Export.Address
import ApiContract.Import.Result

/-!
# Pairing

Which operation of a document a spec stands for, and which imported spec belongs to which existing
one. Existing specs are given away in order: each imported spec takes the first one that it matches
and that is still free.
-/

namespace ApiContract.Drift

open Contract OpenApi

/-! ## Specs and operations -/

/-- Whether an operation carries the identity of a spec. The version of an operation with the
spec's name must be readable. -/
def hasIdentity (spec : OperationSpec) (operation : Operation) : Except Failure Bool :=
  let declared := operation.identity.getD .null
  if declared.field "name" ≠ .str spec.header.name then .ok false
  else
    match Import.DeclaredVersion.of ((declared.get? "version").getD (.int 1)) with
    | .number n => .ok (n = spec.header.version)
    | .unreadable | .unbounded => .error .unexpected

/-- The first operation that carries the identity of a spec. -/
def findByIdentity (spec : OperationSpec) : List Operation → Except Failure (Option Operation)
  | [] => .ok none
  | operation :: rest => do
    if ← hasIdentity spec operation then return some operation else findByIdentity spec rest

/-- The operation that a spec stands for: by identity, else by id, else by method and path. -/
def findOperation (spec : OperationSpec) (operations : List Operation) :
    Except Failure (Option Operation) := do
  if let some operation ← findByIdentity spec operations then return some operation
  let byId := operations.find? (·.id == spec.operationId)
  let verb := Text.lower spec.verb
  return byId.or (operations.find? fun o => o.method.name == verb && o.path == spec.path)

/-! ## Existing and imported specs -/

/-- Whether a text stands somewhere in another. -/
def occursIn (part whole : List Char) : Bool :=
  part.isPrefixOf whole ||
    match whole with
    | [] => false
    | _ :: rest => occursIn part rest

/-- Whether an imported spec matches an existing one. -/
def isMatch (policy : MatchPolicy) (key : String) (spec : OperationSpec) (item : Import.Imported) :
    Bool :=
  let id := item.source.id
  let byName :=
    match item.spec with
    | some imported => imported.header.name == spec.header.name
    | none => item.fileName == Naming.fileName spec.header.name
  key == id || spec.key == id || byName ||
    (policy == .contains && occursIn id.toList spec.header.name.toList)

/-- An existing spec that is still free, and its key. -/
abbrev Entry := String × OperationSpec

/-- Takes the first free entry that an imported spec matches. -/
def takeMatch (policy : MatchPolicy) (item : Import.Imported) :
    List Entry → Option OperationSpec × List Entry
  | [] => (none, [])
  | (key, spec) :: rest =>
    if isMatch policy key spec item then (some spec, rest)
    else
      let (found, left) := takeMatch policy item rest
      (found, (key, spec) :: left)

/-- What pairing gives: every imported spec with its partner, and the entries left over. -/
structure Pairing where
  pairs : List (Import.Imported × Option OperationSpec) := []
  unmatched : List Entry := []

def pairUp (policy : MatchPolicy) (existing : List Entry) : List Import.Imported → Pairing
  | [] => { unmatched := existing }
  | item :: rest =>
    let (found, left) := takeMatch policy item existing
    let more := pairUp policy left rest
    { more with pairs := (item, found) :: more.pairs }

end ApiContract.Drift
