import ApiContract.Export.Document
import ApiContract.Proofs.Export.Settle
import ApiContract.Proofs.Named
import ApiContract.Proofs.OpenApi.Accepted
import ApiContract.Proofs.Schema.Canonical
import ApiContract.Proofs.Text.Marks

/-!
# The exported document

Every component of an exported document is the settled schema of a model: the input or the output of
a spec, or a model inside one that a reference leads to. So the document supplies every reference
that is left in it.

A reader finds the components under the names that references carry, and all of them are objects.

* **`mem_added_of_close`** — the closure adds models that remain, and nothing else.
* **`mem_components`** — where a component comes from.
* **`supplies_document`** — the exported document supplies its components.
* **`component?_document`** — the components are looked up by the names of references.
-/

namespace ApiContract.Export

open Contract Schema
open Reference (IsPlain)

/-! ## The closure -/

/-- What is taken, and what is left, was there. -/
theorem mem_of_take (remaining : Named SchemaModel) (names : List String) :
    ∀ e, e ∈ (take remaining names).1 ∨ e ∈ (take remaining names).2 → e ∈ remaining := by
  fun_induction take remaining names with
  | case1 remaining =>
    rintro e (he | he)
    · cases he
    · exact he
  | case2 remaining name rest model h taken left heq ih =>
    rw [heq] at ih
    rintro e (he | he)
    · rcases List.mem_cons.mp he with rfl | he
      · exact Named.mem_of_get? h
      · exact (List.mem_filter.mp (ih e (.inl he))).1
    · exact (List.mem_filter.mp (ih e (.inr he))).1
  | case3 remaining name rest h ih => exact ih

/-- What the closure adds are schemas of models that remain. -/
theorem mem_added_of_close {remaining : Named SchemaModel} {pending : List Value}
    {e : String × Value} (h : e ∈ (close remaining pending).added) :
    ∃ m, (e.1, m) ∈ remaining ∧ e.2 = m.toJsonSchema := by
  fun_induction close remaining pending with
  | case1 remaining => cases h
  | case2 remaining tree rest names taken left heq added more ih =>
    have hmem := mem_of_take remaining names
    rw [heq] at hmem
    rcases List.mem_append.mp h with h | h
    · obtain ⟨⟨name, model⟩, he, rfl⟩ := List.mem_map.mp h
      exact ⟨model, hmem _ (.inl he), rfl⟩
    · obtain ⟨m, hm, heq⟩ := ih h
      exact ⟨m, hmem _ (.inr hm), heq⟩

/-! ## The components -/

/-- The components of some specs, before they are settled: their own, and those that references
lead to. -/
def components (placed : List OperationSpec) : Named Value :=
  let own := Named.ofList (placed.flatMap ownComponents)
  let others := (knownModels placed).filter fun (name, _) => !own.contains name
  own ++ (close others ((own.map (·.2)).reverse ++ [Value.map (pathItems placed)])).added

/-- The names of the components. -/
def componentNames (placed : List OperationSpec) : List String := (components placed).names

variable {placed : List OperationSpec}

/-- The names as the export collects them. -/
theorem componentNames_eq (placed : List OperationSpec) :
    componentNames placed
      = (Named.ofList (placed.flatMap ownComponents)).names
        ++ (close ((knownModels placed).filter fun (name, _) =>
              !(Named.ofList (placed.flatMap ownComponents)).contains name)
            (((Named.ofList (placed.flatMap ownComponents)).map (·.2)).reverse
              ++ [Value.map (pathItems placed)])).added.names :=
  List.map_append

theorem body_paths (placed : List OperationSpec) :
    (body placed).paths = settle (componentNames placed) (.map (pathItems placed)) := by
  rw [componentNames_eq]
  rfl

theorem body_schemas (placed : List OperationSpec) :
    (body placed).schemas
      = (components placed).map fun e => (e.1, settle (componentNames placed) e.2) := by
  rw [componentNames_eq]
  rfl

/-- The input and the output of a spec. -/
def ownModels (spec : OperationSpec) : List SchemaModel := spec.input.toList ++ spec.output.toList

theorem mem_ownComponents {spec : OperationSpec} {e : String × Value} (h : e ∈ ownComponents spec) :
    (e.1 = inputName spec.operationId ∨ e.1 = outputName spec.operationId)
      ∧ ∃ m ∈ ownModels spec, e.2 = m.toJsonSchema := by
  unfold ownComponents at h
  unfold ownModels
  rcases List.mem_append.mp h with h | h
  · obtain ⟨m, hm, rfl⟩ := Option.map_eq_some_iff.mp (Option.mem_toList.mp h)
    exact ⟨.inl rfl, m, List.mem_append_left _ (Option.mem_toList.mpr hm), rfl⟩
  · obtain ⟨m, hm, rfl⟩ := Option.map_eq_some_iff.mp (Option.mem_toList.mp h)
    exact ⟨.inr rfl, m, List.mem_append_right _ (Option.mem_toList.mpr hm), rfl⟩

/-- **Where a component comes from**: it is the input or the output of a spec, or a known model under
its own name. -/
theorem mem_components {e : String × Value} (h : e ∈ components placed) :
    (∃ spec ∈ placed, (e.1 = inputName spec.operationId ∨ e.1 = outputName spec.operationId)
        ∧ ∃ m ∈ ownModels spec, e.2 = m.toJsonSchema)
      ∨ ∃ m, (e.1, m) ∈ knownModels placed ∧ e.2 = m.toJsonSchema := by
  rcases List.mem_append.mp h with h | h
  · obtain ⟨spec, hspec, he⟩ := List.mem_flatMap.mp (Named.mem_of_mem_ofList h)
    exact .inl ⟨spec, hspec, mem_ownComponents he⟩
  · obtain ⟨m, hm, heq⟩ := mem_added_of_close h
    exact .inr ⟨m, (List.mem_filter.mp hm).1, heq⟩

/-- Every component is the schema of a model. -/
theorem exists_model_of_mem_components {e : String × Value} (h : e ∈ components placed) :
    ∃ m : SchemaModel, e.2 = m.toJsonSchema := by
  rcases mem_components h with ⟨spec, -, -, m, -, heq⟩ | ⟨m, -, heq⟩
  · exact ⟨m, heq⟩
  · exact ⟨m, heq⟩

/-- The input and the output of a spec have components. -/
theorem mem_componentNames {spec : OperationSpec} (hspec : spec ∈ placed) :
    (spec.input.isSome → inputName spec.operationId ∈ componentNames placed)
      ∧ (spec.output.isSome → outputName spec.operationId ∈ componentNames placed) := by
  have hown : ∀ e ∈ ownComponents spec, e.1 ∈ componentNames placed := by
    intro e he
    have hname : e.1 ∈ (Named.ofList (placed.flatMap ownComponents)).names :=
      Named.mem_names_ofList.mpr (List.mem_map_of_mem (List.mem_flatMap.mpr ⟨spec, hspec, he⟩))
    unfold componentNames components
    dsimp only
    unfold Named.names at hname ⊢
    rw [List.map_append]
    exact List.mem_append_left _ hname
  constructor
  · intro h
    obtain ⟨m, hm⟩ := Option.isSome_iff_exists.mp h
    refine hown (inputName spec.operationId, m.toJsonSchema) ?_
    unfold ownComponents
    rw [hm]
    exact List.mem_append_left _ (List.mem_singleton.mpr rfl)
  · intro h
    obtain ⟨m, hm⟩ := Option.isSome_iff_exists.mp h
    refine hown (outputName spec.operationId, m.toJsonSchema) ?_
    unfold ownComponents
    rw [hm]
    exact List.mem_append_right _ (List.mem_singleton.mpr rfl)

theorem inputName_inj {a b : String} (h : inputName a = inputName b) : a = b :=
  (String.append_right_inj _).mp h

theorem outputName_inj {a b : String} (h : outputName a = outputName b) : a = b :=
  (String.append_right_inj _).mp h

theorem inputName_ne_outputName (a b : String) : inputName a ≠ outputName b := by
  intro h
  have hlist := congrArg String.toList h
  unfold inputName outputName at hlist
  rw [String.toList_append, String.toList_append] at hlist
  have hhead := congrArg List.head? hlist
  exact absurd hhead (by simp)

/-- Where the operations have ids of their own, the components of a spec are its own models. -/
theorem get?_components (hids : (placed.map (·.operationId)).Nodup) {spec : OperationSpec}
    (hspec : spec ∈ placed) :
    (∀ m ∈ spec.input, Named.get? (components placed) (inputName spec.operationId)
        = some m.toJsonSchema)
      ∧ ∀ m ∈ spec.output, Named.get? (components placed) (outputName spec.operationId)
        = some m.toJsonSchema := by
  have hsame : ∀ other ∈ placed, other.operationId = spec.operationId → other = spec :=
    fun other hother heq => List.inj_on_of_nodup_map hids hother hspec heq
  constructor
  · intro m hm
    refine Named.get?_append (Named.get?_ofList (List.mem_flatMap.mpr ⟨spec, hspec, ?_⟩) ?_)
    · exact List.mem_append_left _ (Option.mem_toList.mpr (Option.mem_def.mp hm ▸ rfl))
    · intro v hv
      obtain ⟨other, hother, hv⟩ := List.mem_flatMap.mp hv
      rcases List.mem_append.mp hv with hv | hv
      · obtain ⟨m', hm', heq⟩ := Option.map_eq_some_iff.mp (Option.mem_toList.mp hv)
        obtain ⟨hname, rfl⟩ := Prod.mk.inj heq
        cases hsame other hother (inputName_inj hname)
        cases hm'.symm.trans hm
        rfl
      · obtain ⟨m', -, heq⟩ := Option.map_eq_some_iff.mp (Option.mem_toList.mp hv)
        exact absurd (Prod.mk.inj heq).1.symm (inputName_ne_outputName _ _)
  · intro m hm
    refine Named.get?_append (Named.get?_ofList (List.mem_flatMap.mpr ⟨spec, hspec, ?_⟩) ?_)
    · exact List.mem_append_right _ (Option.mem_toList.mpr (Option.mem_def.mp hm ▸ rfl))
    · intro v hv
      obtain ⟨other, hother, hv⟩ := List.mem_flatMap.mp hv
      rcases List.mem_append.mp hv with hv | hv
      · obtain ⟨m', -, heq⟩ := Option.map_eq_some_iff.mp (Option.mem_toList.mp hv)
        exact absurd (Prod.mk.inj heq).1 (inputName_ne_outputName _ _)
      · obtain ⟨m', hm', heq⟩ := Option.map_eq_some_iff.mp (Option.mem_toList.mp hv)
        obtain ⟨hname, rfl⟩ := Prod.mk.inj heq
        cases hsame other hother (outputName_inj hname)
        cases hm'.symm.trans hm
        rfl

/-! ## Names -/

theorem mem_withoutPoints {name : String} {x c : Char}
    (h : c ∈ (OperationSpec.withoutPoints name x).toList) : c ∈ name.toList ∨ c = x := by
  unfold OperationSpec.withoutPoints at h
  rw [String.toList_ofList] at h
  obtain ⟨d, hd, rfl⟩ := List.mem_map.mp h
  split
  · exact .inr rfl
  · exact .inl hd

/-- An operation id has the characters of the name, and a few more. -/
theorem mem_operationId {spec : OperationSpec} {c : Char} (h : c ∈ spec.operationId.toList) :
    c ∈ spec.header.name.toList ∨ c = '_' ∨ c = 'v' ∨ c.isDigit = true ∨ c = '-' := by
  have hid : spec.operationId
      = OperationSpec.withoutPoints spec.header.name '_' ++ ("_v" ++ toString spec.header.version) := by
    rfl
  rw [hid, String.toList_append, String.toList_append, List.mem_append, List.mem_append] at h
  rcases h with h | h | h
  · rcases mem_withoutPoints h with h | h
    · exact .inl h
    · exact .inr (.inl h)
  · have : c = '_' ∨ c = 'v' := by simpa using h
    rcases this with h | h
    · exact .inr (.inl h)
    · exact .inr (.inr (.inl h))
  · exact .inr (.inr (.inr (Text.mem_toString_int h)))

theorem isPlain_operationId {spec : OperationSpec} (h : IsPlain spec.header.name) :
    IsPlain spec.operationId := by
  constructor
  · intro hc
    rcases mem_operationId hc with hc | hc | hc | hc | hc
    · exact h.1 hc
    all_goals exact absurd hc (by decide)
  · intro hc
    rcases mem_operationId hc with hc | hc | hc | hc | hc
    · exact h.2 hc
    all_goals exact absurd hc (by decide)

/-! ## Models inside models -/

mutual

/-- The models inside a model have no others inside them. -/
theorem modelsOf_trans : (m : SchemaModel) → ∀ e ∈ modelsOf m, ∀ e' ∈ modelsOf e.2, e' ∈ modelsOf m
  | ⟨name, description, fields⟩ => by
    intro e he e' he'
    rw [modelsOf] at he ⊢
    rcases List.mem_cons.mp he with rfl | he
    · rwa [modelsOf] at he'
    · exact List.mem_cons_of_mem _ (modelsOfFields_trans fields e he e' he')

theorem modelsOfFields_trans : (fields : List (String × FieldSpec)) →
    ∀ e ∈ modelsOfFields fields, ∀ e' ∈ modelsOf e.2, e' ∈ modelsOfFields fields
  | [] => by
    intro e he
    rw [modelsOfFields] at he
    cases he
  | (name, field) :: rest => by
    intro e he e' he'
    rw [modelsOfFields] at he ⊢
    rcases List.mem_append.mp he with he | he
    · exact List.mem_append_left _ (modelsOfField_trans field e he e' he')
    · exact List.mem_append_right _ (modelsOfFields_trans rest e he e' he')

theorem modelsOfField_trans : (field : FieldSpec) →
    ∀ e ∈ modelsOfField field, ∀ e' ∈ modelsOf e.2, e' ∈ modelsOfField field
  | ⟨_, _, some model, _, _, _, _⟩ => by
    intro e he e' he'
    rw [modelsOfField] at he ⊢
    exact modelsOf_trans model e he e' he'
  | ⟨_, _, none, _, _, _, _⟩ => by
    intro e he
    rw [modelsOfField] at he
    cases he

end

/-! ## The document -/

/-- The document of a registry of operations alone. -/
def documentOf (registry : Registry OperationSpec) : Value := .map (openApi registry {})

/-- The specs that the document holds. -/
def placedOf (registry : Registry OperationSpec) : List OperationSpec := (layout registry).placed

/-- A spec that is alone is exported. -/
theorem placedOf_singleton (spec : OperationSpec) (h : ([spec].map Keyed.key).Nodup) :
    placedOf ⟨[spec], h⟩ = [spec] := by
  have hlist : Registry.toList ⟨[spec], h⟩ = [spec] := List.mergeSort_singleton _
  unfold placedOf layout
  rw [hlist]
  rfl

variable {registry : Registry OperationSpec}

theorem get?_documentOf_paths (registry : Registry OperationSpec) :
    (documentOf registry).get? "paths"
      = some (settle (componentNames (placedOf registry)) (.map (pathItems (placedOf registry)))) := by
  rw [← body_paths]
  rfl

/-- The component schemas of the document. -/
def exportedSchemas (registry : Registry OperationSpec) : Named Value :=
  (components (placedOf registry)).map fun e => (e.1, settle (componentNames (placedOf registry)) e.2)

theorem get?_documentOf_components (registry : Registry OperationSpec) :
    (documentOf registry).get? "components"
      = some (.map (member "schemas" (.map ((exportedSchemas registry).map fun (n, v) => member n v))
          :: securitySchemes (placedOf registry))) := by
  unfold exportedSchemas
  rw [← body_schemas]
  rfl

/-- A component is looked up by its name. -/
theorem component?_documentOf (registry : Registry OperationSpec) (name : String) :
    Reference.component? (documentOf registry) name
      = ((components (placedOf registry)).get? name).map
          (settle (componentNames (placedOf registry))) := by
  unfold Reference.component?
  rw [get?_documentOf_components, Option.bind_some]
  show Members.get? ((exportedSchemas registry).map fun (n, v) => member n v) name = _
  rw [Members.get?_members, exportedSchemas, Named.get?_map]

theorem isTruthy_documentOf (registry : Registry OperationSpec) :
    (documentOf registry).isTruthy = true := rfl

/-- The document is larger than the number of its components. -/
theorem length_componentNames_le (registry : Registry OperationSpec) :
    (componentNames (placedOf registry)).length ≤ (documentOf registry).size := by
  have hmembers : ∀ members : Members, members.length ≤ membersSize members := by
    intro members
    induction members with
    | nil => exact Nat.le_refl 0
    | cons m rest ih =>
      have := Value.size_pos m.2
      rw [List.length_cons, membersSize]
      omega
  have hschemas : ((Value.map (member "schemas"
      (.map ((exportedSchemas registry).map fun (n, v) => member n v))
        :: securitySchemes (placedOf registry))).get? "schemas")
      = some (.map ((exportedSchemas registry).map fun (n, v) => member n v)) := rfl
  have h₁ := Value.size_lt_of_get? (get?_documentOf_components registry)
  have h₂ := Value.membersSize_lt_of_get? hschemas
  have h₃ := hmembers ((exportedSchemas registry).map fun (n, v) => member n v)
  have hlength : (componentNames (placedOf registry)).length
      = ((exportedSchemas registry).map fun (n, v) => member n v).length := by
    unfold componentNames Named.names exportedSchemas
    simp only [List.length_map]
  omega

/-- What an export relies on: names that pointers need not escape, and texts as descriptions. -/
structure Exportable (placed : List OperationSpec) : Prop where
  specs : ∀ spec ∈ placed, IsPlain spec.header.name
  models : ∀ e ∈ knownModels placed, IsPlain e.1
  texts : HasTexts (knownModels placed)

theorem mem_knownModels {placed : List OperationSpec} {spec : OperationSpec} (hspec : spec ∈ placed)
    {m : SchemaModel} (hm : m ∈ ownModels spec) {e : String × SchemaModel} (he : e ∈ modelsOf m) :
    e ∈ knownModels placed :=
  List.mem_flatMap.mpr ⟨spec, hspec, List.mem_flatMap.mpr ⟨m, hm, he⟩⟩

theorem Exportable.ownTexts {placed : List OperationSpec} (h : Exportable placed)
    {spec : OperationSpec} (hspec : spec ∈ placed) {m : SchemaModel} (hm : m ∈ ownModels spec) :
    HasTexts (modelsOf m) :=
  fun e he => h.texts e (mem_knownModels hspec hm he)

theorem Exportable.knownTexts {placed : List OperationSpec} (h : Exportable placed)
    {e : String × SchemaModel} (he : e ∈ knownModels placed) : HasTexts (modelsOf e.2) := by
  obtain ⟨spec, hspec, he⟩ := List.mem_flatMap.mp he
  obtain ⟨m, hm, he⟩ := List.mem_flatMap.mp he
  exact fun e' he' => h.texts e' (mem_knownModels hspec hm (modelsOf_trans m e he e' he'))

/-- A component is the schema of a model that can be exported. -/
theorem Exportable.component {placed : List OperationSpec} (h : Exportable placed)
    {e : String × Value} (he : e ∈ components placed) :
    ∃ m : SchemaModel, HasTexts (modelsOf m) ∧ e.2 = m.toJsonSchema := by
  rcases mem_components he with ⟨spec, hspec, -, m, hm, heq⟩ | ⟨m, hm, heq⟩
  · exact ⟨m, h.ownTexts hspec hm, heq⟩
  · exact ⟨m, h.knownTexts hm, heq⟩

/-- **The exported document supplies its components**: all of them are objects. -/
theorem supplies_documentOf (h : Exportable (placedOf registry)) :
    Supplies (documentOf registry) (componentNames (placedOf registry)) where
  length := length_componentNames_le registry
  plain := by
    intro name hname
    obtain ⟨e, he, rfl⟩ := List.mem_map.mp hname
    rcases mem_components he with ⟨spec, hspec, hid, -⟩ | ⟨m, hm, -⟩
    · have hplain := isPlain_operationId (h.specs spec hspec)
      rcases hid with hid | hid
      · rw [hid]
        exact IsPlain.append (by decide) hplain
      · rw [hid]
        exact IsPlain.append (by decide) hplain
    · exact h.models _ hm
  component := by
    intro name hname
    obtain ⟨tree, htree⟩ := Option.isSome_iff_exists.mp (Named.get?_isSome_iff.mpr hname)
    obtain ⟨m, htexts, rfl⟩ := h.component (Named.mem_of_get? htree)
    refine ⟨settle (componentNames (placedOf registry)) m.toJsonSchema, ?_, ?_, ?_⟩
    · rw [component?_documentOf, htree]
      rfl
    · rw [settle_model]
      exact .object (objectNode_model m) (exported_properties m htexts)
    · rw [settle_model, (objectNode_model m).properties?]
      rfl

end ApiContract.Export
