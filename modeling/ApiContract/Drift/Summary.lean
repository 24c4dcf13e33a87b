import ApiContract.Drift.Sync
import ApiContract.Value.Record

/-!
# The result of a synchronisation as a value

The ids of each group, the changes of every conflict, and the sizes of the groups.
-/

namespace ApiContract.Drift

def Change.toValue (c : Change) : Value :=
  .map [member "path" (.str c.path), member "type" (.str c.kind.name),
    member "old_value" c.old, member "new_value" c.new,
    member "description" (.str c.description)]

def SpecDiff.toValue (d : SpecDiff) : Value :=
  let resolution := (d.resolution.map fun r => Value.str r.name).getD .null
  .map [member "operation_id" (.str d.id),
    member "changes" (.list (d.changes.map Change.toValue)), member "resolution" resolution,
    member "is_equivalent" (.bool d.isEquivalent)]

namespace SyncResult

/-- The sizes of the groups. -/
def summary (r : SyncResult) : Value :=
  let count (g : Group) : Value := .int (r.countIn g)
  .map [member "total" (.int r.diffs.length), member "added" (count .added),
    member "updated" (count .updated), member "unchanged" (count .unchanged),
    member "conflicts" (count .conflict)]

def toValue (r : SyncResult) : Value :=
  .map [member "added" (texts (r.idsIn .added)), member "updated" (texts (r.idsIn .updated)),
    member "unchanged" (texts (r.idsIn .unchanged)),
    member "conflicts" (.list ((r.inGroup .conflict).map SpecDiff.toValue)),
    member "summary" r.summary]

end SyncResult

end ApiContract.Drift
