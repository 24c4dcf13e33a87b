import ApiContract.Proofs.Export.Reading
import ApiContract.Proofs.Export.Rebuilt
import ApiContract.Proofs.Import.Operation

/-!
# Merging an exported input

An export takes the input of a spec apart: the fields that its path names become parameters, and the
others stand in the query, or all of them in the body. The import merges the parts again. The fields
that the path names come first now, but they are the same fields, as required as they were, so the
model that is built from them differs from the input in the descriptions of lists alone.

* **`inputFields_readBack`** — the parts, in the order in which they are merged.
* **`unchanged_input_iff`** — the headline.
-/

namespace ApiContract.Import

open Contract Drift Export OpenApi Schema

/-! ## The parts of an input -/

section Parts

variable {document : Value} {names : List String} {spec : OperationSpec} {m : SchemaModel}
  {method : Method}

end Parts

/-! ## The merged model -/

/-- The members of the object schema of some fields. -/
def mergedMembers (names : List String) (fields : List (String × FieldSpec)) : Members :=
  [(.str "type", .str "object"),
    (.str "properties", .map ((Named.ofList fields).map fun f =>
      (Scalar.str f.1, settle names f.2.toJsonSchema))),
    (.str "required", .list ((Distinct.ofList (requiredNames fields)).map .str))]

section Model

variable {names : List String} {document : Value} {spec : OperationSpec} {m m' : SchemaModel}

end Model

end ApiContract.Import
