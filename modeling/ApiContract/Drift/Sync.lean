import ApiContract.Drift.Pairing
import ApiContract.Drift.Spec
import ApiContract.Text.Blank

/-!
# Synchronising specs with a document

`diffAll` gives one diff per imported spec, in order, and then one per existing spec that no
imported one matches. `SyncResult.ofDiffs` puts each diff into one of four groups, as its changes
and the user's decision require.
-/

namespace ApiContract.Drift

open Contract

/-- The user's decision on a diff. -/
inductive Resolution where
  | keepExisting
  | useIncoming
  | merge
  | skip
  deriving DecidableEq, Repr

namespace Resolution

def name : Resolution → String
  | .keepExisting => "keep_existing"
  | .useIncoming => "use_incoming"
  | .merge => "merge"
  | .skip => "skip"

def all : List Resolution := [.keepExisting, .useIncoming, .merge, .skip]

def ofName? (s : String) : Option Resolution := all.find? (·.name == s)

end Resolution

/-- What a diff is between. -/
inductive Sides where
  | new (incoming : Import.Imported)
  | both (existing : OperationSpec) (incoming : Import.Imported)
  | gone (existing : OperationSpec)

structure SpecDiff where
  id : String
  sides : Sides
  changes : List Change
  resolution : Option Resolution := none

namespace Sides

def existing? : Sides → Option OperationSpec
  | .new _ => none
  | .both existing _ | .gone existing => some existing

def incoming? : Sides → Option Import.Imported
  | .new incoming | .both _ incoming => some incoming
  | .gone _ => none

/-- The changes between two sides. Without a spec on the incoming side only the code is known. -/
def changes (options : Options) : Sides → List Change
  | .new incoming =>
    let value := (incoming.spec.map OperationSpec.toValue).getD (.str incoming.code)
    [⟨"", .added, .null, value, "New spec imported from OpenAPI"⟩]
  | .both existing incoming =>
    match incoming.spec with
    | some spec => compareSpecs options existing spec
    | none =>
      [⟨"", .modified, .str existing.key, .str incoming.fileName,
        "Spec code imported from OpenAPI (runtime comparison not available)"⟩]
  | .gone existing =>
    [⟨"", .removed, .str existing.key, .null, "Spec no longer exists in OpenAPI source"⟩]

/-- Whether only code can be compared. -/
def isCodeOnly : Sides → Bool
  | .both _ incoming => incoming.spec.isNone
  | .new _ | .gone _ => false

def isGone : Sides → Bool
  | .gone _ => true
  | .new _ | .both _ _ => false

end Sides

namespace SpecDiff

def ofSides (options : Options) (id : String) (sides : Sides) : SpecDiff :=
  { id, sides, changes := sides.changes options }

def isEquivalent (d : SpecDiff) : Bool := d.changes.isEmpty

def resolve (d : SpecDiff) (resolution : Resolution) : SpecDiff :=
  { d with resolution := some resolution }

end SpecDiff

/-- The diffs of imported specs against existing ones, which stand under their keys. -/
def diffAll (options : Options) (existing : Named OperationSpec) (imported : List Import.Imported) :
    List SpecDiff :=
  let pairing := pairUp options.policy existing imported
  let diffs := pairing.pairs.map fun (item, found) =>
    SpecDiff.ofSides options item.source.id
      (match found with
        | some spec => .both spec item
        | none => .new item)
  diffs ++ pairing.unmatched.map fun (key, spec) => SpecDiff.ofSides options key (.gone spec)

/-! ## Groups -/

inductive Group where
  | added
  | updated
  | unchanged
  | conflict
  deriving DecidableEq, Repr

/-- The group of a diff. A decision of the user settles it; without one, a breaking change, a spec
that is gone and one of which only code is known are conflicts. -/
def SpecDiff.group (d : SpecDiff) : Group :=
  match d.sides with
  | .new _ => .added
  | sides =>
    match d.resolution with
    | some .keepExisting | some .skip => .unchanged
    | some .useIncoming | some .merge => .updated
    | none =>
      if d.isEquivalent then .unchanged
      else if sides.isGone || sides.isCodeOnly || d.changes.any (·.kind.isBreaking) then .conflict
      else .updated

/-- The diffs of a run. -/
structure SyncResult where
  diffs : List SpecDiff

namespace SyncResult

def ofDiffs (diffs : List SpecDiff) : SyncResult := ⟨diffs⟩

/-- The diffs of a group, in order. -/
def inGroup (r : SyncResult) (g : Group) : List SpecDiff := r.diffs.filter (·.group == g)

def idsIn (r : SyncResult) (g : Group) : List String := (r.inGroup g).map (·.id)

def countIn (r : SyncResult) (g : Group) : Nat := (r.inGroup g).length

/-- The report on a run: the sizes of the groups, the ids, and the changes of the conflicts. -/
def report (r : SyncResult) : Except Failure String := do
  let counts := s!"Total: {r.diffs.length}  added: {r.countIn .added}  " ++
    s!"updated: {r.countIn .updated}  unchanged: {r.countIn .unchanged}  " ++
    s!"conflicts: {r.countIn .conflict}"
  let conflicts ← (r.inGroup .conflict).mapM fun d => do
    let text ← Drift.report d.changes
    return s!"Conflict: {d.id}" :: (Text.lines text).map ("  " ++ ·)
  return "\n".intercalate (counts :: (r.idsIn .added).map ("Added: " ++ ·) ++
    (r.idsIn .updated).map ("Updated: " ++ ·) ++ conflicts.flatten)

end SyncResult

end ApiContract.Drift
