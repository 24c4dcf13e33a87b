import ApiContract.Codegen.Dialect
import ApiContract.Proofs.Codegen.Reads.Declaration
import ApiContract.Proofs.Codegen.Reads.Zod

/-!
# What generators can read

Every generator is lenient about what it does not know: an unknown type becomes a type of any kind.
What it goes through or keeps as it is has to be well-formed all the same, and which parts of which
nodes that are differs from dialect to dialect. A schema that is a tree of JSON is generated if and
only if all of them are well-formed; the dialect that keeps the schema as it is reads none.

* **`SchemaConstant.generateModel_succeeds`** — constants.
* **`generation_succeeds_iff_readable`** — the headline, over all dialects and the builder of models.
-/

namespace ApiContract.Codegen

open Schema (Part)

variable {schema given : Value}

/-! ## Constants -/

/-- A tree with more members is a tree. -/
theorem tree_foldl_insert {own start : Members} (hstart : Json.Tree (.map start))
    (hown : Json.Tree (.map own)) :
    Json.Tree (.map (own.foldl (fun ms (k, v) => Members.insert ms k v) start)) := by
  induction own generalizing start with
  | nil => exact hstart
  | cons m rest ih =>
    cases hown with
    | map keys values =>
      obtain ⟨name, hname⟩ := keys m List.mem_cons_self
      obtain ⟨k, v⟩ := m
      cases hname
      refine ih (hstart.insert name (values _ List.mem_cons_self)) (.map ?_ ?_)
      · exact fun m hm => keys m (List.mem_cons_of_mem _ hm)
      · exact fun m hm => values m (List.mem_cons_of_mem _ hm)

/-- **The schema itself is always written out.** -/
theorem SchemaConstant.generateModel_succeeds (name : String) (hgiven : IsGiven given)
    (h : Json.Tree schema) : Succeeds (SchemaConstant.generateModel schema name given) := by
  have habout := tree_chooseDescription hgiven h
  have htitled (symbol : String) : Json.Tree
      (SchemaConstant.titled symbol schema (chooseDescription given schema)) := by
    have hstart : Json.Tree (.map [(.str "$schema", .str SchemaConstant.schemaVersion),
        (.str "title", .str symbol)]) := by
      refine .map ?_ ?_
      · exact List.forall_mem_cons.mpr ⟨⟨_, rfl⟩, List.forall_mem_singleton.mpr ⟨_, rfl⟩⟩
      · exact List.forall_mem_cons.mpr ⟨.str _, List.forall_mem_singleton.mpr (.str _)⟩
    obtain ⟨own, hown, htitled⟩ : ∃ own, Json.Tree (.map own)
        ∧ SchemaConstant.titled symbol schema (chooseDescription given schema)
          = SchemaConstant.titled symbol (.map own) (chooseDescription given schema) := by
      cases schema with
      | map members => exact ⟨members, h, rfl⟩
      | _ => exact ⟨[], .map nofun nofun, rfl⟩
    have hmembers := tree_foldl_insert hstart hown
    rw [htitled]
    unfold SchemaConstant.titled
    dsimp only
    split
    · exact hmembers.insert "description" habout
    · exact hmembers
  obtain ⟨text, htext⟩ := Json.exists_write? .document (htitled (Naming.modelName name))
  unfold SchemaConstant.generateModel
  dsimp only
  rw [htext]
  exact succeeds_pure _

/-! ## All dialects -/

/-- The part of the node is read where code of the dialect is generated of the schema. -/
def Dialect.Reads (given : Value) : Dialect → (part : Part) → (node schema : Value) → Prop
  | .declaration => Declaration.Reads given
  | .zod => Zod.ModelReads
  | .jsonSchema => fun _ _ _ => False
  | .graphQl => GraphQl.Reads

/-- **Generation succeeds exactly on readable schemas.**

Of a tree of JSON, whatever stands under whatever keyword at any depth, a generator gives code if and
only if every part that its dialect reads is well-formed: enumerations and lists of required names
can be gone through, the names are leaves, formats are leaves, and descriptions are texts. Without a
document the builder of models gives a model under the same condition on what it reads, of any
schema. Neither depends on the name, and the dialect that keeps the schema reads nothing. -/
theorem generation_succeeds_iff_readable (schema : Value) (name : String) (hgiven : IsGiven given) :
    (Json.Tree schema → ∀ (dialect : Dialect) conventions,
      (Succeeds (dialect.generateModel conventions schema name given)
        ↔ ∀ part node, dialect.Reads given part node schema → part.isReadable node = true))
    ∧ (Succeeds (Schema.modelOf schema name (.map []))
      ↔ ∀ part node, Schema.Reads part node schema → part.isReadable node = true) := by
  refine ⟨fun h dialect conventions => ?_, Schema.modelOf_succeeds_iff_readable schema name⟩
  cases dialect with
  | declaration => exact Declaration.generateModel_succeeds_iff conventions name hgiven h
  | zod => exact Zod.generateModel_succeeds_iff conventions name hgiven h
  | jsonSchema => exact iff_of_true (SchemaConstant.generateModel_succeeds name hgiven h) nofun
  | graphQl => exact GraphQl.generateModel_succeeds_iff schema name given

/-- An object with one property and what it says of the required ones. -/
def requiringSchema (required : Value) : Value :=
  .map [(.str "type", .str "object"), (.str "required", required),
    (.str "properties", .map [(.str "id", .map [(.str "type", .str "string")])])]

theorem tree_requiringSchema {required : Value} (h : Json.Tree required) :
    Json.Tree (requiringSchema required) := by
  have hproperty : Json.Tree (.map [(.str "type", .str "string")]) :=
    .map (List.forall_mem_singleton.mpr ⟨_, rfl⟩) (List.forall_mem_singleton.mpr (.str _))
  have hproperties : Json.Tree (.map [(.str "id", .map [(.str "type", .str "string")])]) :=
    .map (List.forall_mem_singleton.mpr ⟨_, rfl⟩) (List.forall_mem_singleton.mpr hproperty)
  refine .map ?_ ?_
  · exact List.forall_mem_cons.mpr ⟨⟨_, rfl⟩, List.forall_mem_cons.mpr ⟨⟨_, rfl⟩,
      List.forall_mem_singleton.mpr ⟨_, rfl⟩⟩⟩
  · exact List.forall_mem_cons.mpr ⟨.str _, List.forall_mem_cons.mpr ⟨h,
      List.forall_mem_singleton.mpr hproperties⟩⟩

/-- A text is gone through as well as a list: it names a property for every letter. -/
theorem generation_succeeds_of_text :
    Succeeds (Dialect.generateModel .graphQl {} (requiringSchema (.str "id")) "Pet" .null)
    ∧ Succeeds (Schema.modelOf (requiringSchema (.str "id")) "Pet" (.map []))
    ∧ Part.required.isReadable (requiringSchema (.str "id")) = true := by
  obtain ⟨hdialects, hmodel⟩ :=
    generation_succeeds_iff_readable (requiringSchema (.str "id")) "Pet" (.inl rfl)
  have hsucceeds : Succeeds (Schema.modelOf (requiringSchema (.str "id")) "Pet" (.map [])) := ⟨_, rfl⟩
  refine ⟨?_, hsucceeds, hmodel.mp hsucceeds _ _ (.required rfl)⟩
  refine (hdialects (tree_requiringSchema (.str "id")) .graphQl {}).mpr ?_
  intro part node hreads
  cases hreads with
  | required => decide
  | format found member names =>
    cases found
    cases List.mem_singleton.mp member
    cases names with
    | single _ _ => decide
    | item _ array _ _ => exact absurd array (by decide)

/-- **A flag in the place of the required names** ends every reading but that of constants. -/
theorem generation_fails_of_flag :
    Json.Tree (requiringSchema (.bool true))
    ∧ (∀ dialect : Dialect, dialect ≠ .jsonSchema →
      ¬Succeeds (dialect.generateModel {} (requiringSchema (.bool true)) "Pet" .null))
    ∧ ¬Succeeds (Schema.modelOf (requiringSchema (.bool true)) "Pet" (.map [])) := by
  have htree : Json.Tree (requiringSchema (.bool true)) := tree_requiringSchema (.leaf trivial)
  have hgiven : IsGiven .null := .inl rfl
  refine ⟨htree, fun dialect hother hok => ?_, fun hok => ?_⟩
  · cases dialect with
    | declaration =>
      rw [Dialect.generateModel, Declaration.generateModel_succeeds_iff _ _ hgiven htree] at hok
      exact absurd (hok _ _ (.required rfl rfl rfl)) (by decide)
    | zod =>
      rw [Dialect.generateModel, Zod.generateModel_succeeds_iff _ _ hgiven htree] at hok
      exact absurd (hok _ _ (.required rfl)) (by decide)
    | jsonSchema => exact hother rfl
    | graphQl =>
      rw [Dialect.generateModel, GraphQl.generateModel_succeeds_iff] at hok
      exact absurd (hok _ _ .required) (by decide)
  · rw [Schema.modelOf_succeeds_iff_readable] at hok
    exact absurd (hok _ _ (.required rfl)) (by decide)

end ApiContract.Codegen
