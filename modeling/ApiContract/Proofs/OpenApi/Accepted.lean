import ApiContract.OpenApi.Api
import ApiContract.Proofs.Checked
import Mathlib.Data.List.Forall2

/-!
# Accepted documents

What an accepted document gives, section by section. Its operations are read slot by slot
(`readSlot`), and only the ids depend on the operations before:

* **`harvest_operations`** — the operations of a harvest are those that can be read, renumbered.
* **`Api.ofDocument_eq_ok`** — a document is accepted exactly if every section can be read.
-/

namespace ApiContract.OpenApi

/-! ## The operations before renaming -/

/-- The operation of an entry, with the id that the document gives, if it can be read. -/
def PathEntry.operation? (document : Value) : PathEntry → Option Operation
  | .skipped _ => none
  | .slot place => (readSlot document place).result.toOption

/-- The operations of the entries that can be read, in order. -/
def readable (document : Value) (entries : List PathEntry) : List Operation :=
  entries.filterMap (·.operation? document)

/-- Gives each operation the number of its id among the ids `seen`. -/
def renumber (seen : List String) : List Operation → List Operation
  | [] => []
  | operation :: rest =>
    (numbered operation (seen.count operation.id)).1 :: renumber (operation.id :: seen) rest

/-- Renumbering changes ids alone. -/
theorem renumber_forall₂ (seen : List String) (operations : List Operation) :
    List.Forall₂ (fun o o' => ∃ id, o' = { o with id }) operations (renumber seen operations) := by
  induction operations generalizing seen with
  | nil => exact .nil
  | cons operation rest ih =>
    refine .cons ?_ (ih _)
    unfold numbered
    split
    · exact ⟨operation.id, rfl⟩
    · exact ⟨_, rfl⟩

/-- **The operations of a harvest.** Induction on the entries; the ids seen so far vary. -/
theorem harvest_operations (document : Value) (seen : List String) (entries : List PathEntry) :
    (harvest document seen entries).operations = renumber seen (readable document entries) := by
  induction entries generalizing seen with
  | nil => rfl
  | cons entry rest ih =>
    cases entry with
    | skipped path => exact ih seen
    | slot slot =>
      rw [harvest, readable, List.filterMap_cons, PathEntry.operation?]
      cases (readSlot document slot).result with
      | error cause => exact ih seen
      | ok operation =>
        show _ :: (harvest document (operation.id :: seen) rest).operations = _
        rw [ih]
        rfl

/-- The entries under the paths of a document. -/
def entriesOfPaths (document : Value) : List PathEntry :=
  match document.field "paths" with
  | .map members => pathEntries members
  | _ => []

theorem harvestPaths_operations (document : Value) :
    (harvestPaths document).operations
      = renumber [] (readable document (entriesOfPaths document)) := by
  unfold harvestPaths entriesOfPaths
  cases document.field "paths" with
  | map members => exact harvest_operations document [] _
  | scalar leaf =>
    dsimp only
    split <;> rfl
  | list items =>
    dsimp only
    split <;> rfl
  | set items =>
    dsimp only
    split <;> rfl

/-- **What an accepted document gives.** Every section is read, and the document and its component
schemas have texts as keys. -/
theorem Api.ofDocument_eq_ok {document : Value} {api : Api} :
    Api.ofDocument document = .ok api ↔
      document.isMap = true
      ∧ detectVersion document = .ok api.version
      ∧ readInfo document = .ok api.info
      ∧ readServers document = .ok api.servers
      ∧ api.operations = (harvestPaths document).operations
      ∧ api.warnings = (harvestPaths document).warnings
      ∧ Check.object document = .ok api.document
      ∧ ∃ schemas, readSchemas document = .ok schemas
        ∧ schemas.map (fun entry => (entry.1, ·) <$> Check.object entry.2)
            = api.schemas.map Checked.ok := by
  unfold Api.ofDocument
  cases document.isMap with
  | false =>
    constructor
    · intro h
      cases h
    · rintro ⟨h, -⟩
      cases h
  | true =>
    simp only [Bool.not_true, Bool.false_eq_true, if_false, bind_eq_ok, Checked.toExcept_eq_ok,
      Checked.seq_eq_ok, Checked.map_eq_ok, Checked.all_eq_ok]
    constructor
    · rintro ⟨version, hversion, info, hinfo, schemas, hschemas, servers, hservers,
        _, schemas', ⟨document', hdocument, rfl⟩, hall, rfl⟩
      exact ⟨trivial, hversion, hinfo, hservers, rfl, rfl, hdocument, schemas, hschemas, hall⟩
    · rintro ⟨-, hversion, hinfo, hservers, hoperations, hwarnings, hdocument, schemas, hschemas,
        hall⟩
      refine ⟨_, hversion, _, hinfo, schemas, hschemas, _, hservers, _, _,
        ⟨_, hdocument, rfl⟩, hall, ?_⟩
      rw [← hoperations, ← hwarnings]

end ApiContract.OpenApi
