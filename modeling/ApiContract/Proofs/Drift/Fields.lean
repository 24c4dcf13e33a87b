import ApiContract.Proofs.Drift.Alike
import ApiContract.Proofs.Drift.Reported

/-!
# Fields that differ

Two models differ at a field if only one of them has it, if the types of the field differ, or if it
is required in only one. A comparison reports each of these at any depth, also one that leaves out
descriptions: that hides the fields called `description`, with all that is in them, but still tells
whether they are required.

* **`reportsKeyword_of_modelAt?`** — from two models to those around them.
* **`reportsKeyword_of_missing`** — only one side has a model at some place.
* **`field_difference_reported`** — the headline.
-/

namespace ApiContract.Contract

/-- The model that is reached through the fields with some names. -/
def SchemaModel.modelAt? : List String → SchemaModel → Option SchemaModel
  | [], m => some m
  | name :: rest, m => ((Named.get? m.fields name).bind (·.model)).bind (modelAt? rest)

end ApiContract.Contract

namespace ApiContract.Drift

open Contract Export Schema
open SchemaModel (modelAt?)

variable {quiet : Bool} {kinds : ChangeKind → Bool} {name : String} {path : List String}
  {m m' : SchemaModel} {f f' : FieldSpec}

/-! ## Fields of a model -/

/-- The schema of the field with a name, or null. -/
def fieldSchema (m : SchemaModel) (name : String) : Value :=
  ((Named.get? m.fields name).map FieldSpec.toJsonSchema).getD .null

theorem field_properties (m : SchemaModel) :
    m.toJsonSchema.field "properties" = .map (fieldSchemas m.fields) := by
  rw [toJsonSchema_eq, Value.field_map, (get?_modelMembers m).2.1]
  rfl

theorem names?_field_required (m : SchemaModel) :
    names? (m.toJsonSchema.field "required") = some (requiredNames m.fields) := by
  rw [toJsonSchema_eq, Value.field_map, get?_modelMembers_required]
  exact names?_required _

/-- What is reported of the fields with a name is reported of the models. -/
theorem reportsKeyword_of_field (hname : ¬ IsHidden quiet name)
    (h : Reports quiet kinds name (fieldSchema m name) (fieldSchema m' name)) :
    ReportsKeyword quiet kinds m.toJsonSchema m'.toJsonSchema := by
  refine ⟨"properties", by decide, ?_⟩
  rw [field_properties, field_properties]
  refine reports_map hname ?_
  rw [Value.field_map, Value.field_map, get?_fieldSchemas, get?_fieldSchemas]
  exact h

theorem fieldSchema_of_get? (h : Named.get? m.fields name = some f) :
    fieldSchema m name = f.toJsonSchema := by
  unfold fieldSchema
  rw [h]
  rfl

theorem fieldSchema_eq_null (h : Named.get? m.fields name = none) : fieldSchema m name = .null := by
  unfold fieldSchema
  rw [h]
  rfl

/-! ## Nodes of types -/

theorem typeNode_of_model (h : f.model = some m) : typeNode f = m.toJsonSchema := by
  obtain ⟨scalar, values, model, ref, isOptional, isArray, description⟩ := f
  cases h
  rfl

/-- What stands under a keyword other than those of models: a word, a switch or a list of words. -/
inductive IsWord : Value → Prop where
  | null : IsWord .null
  | text (s : String) : IsWord (.str s)
  | switch (b : Bool) : IsWord (.bool b)
  | texts (items : List String) : IsWord (.list (items.map .str))

theorem isWord_field {members : Members} (h : ∀ m ∈ members, IsWord m.2) (name : String) :
    IsWord ((Value.map members).field name) := by
  rw [Value.field_map]
  cases hget : Members.get? members name with
  | none => exact .null
  | some v => exact h _ (Members.mem_of_get? hget)

theorem isWord_schema (s : ScalarType) : ∀ m ∈ s.schema, IsWord m.2 := by
  cases s <;> simp [ScalarType.schema, ScalarType.typeNode, ScalarType.textNode, IsWord.text,
    IsWord.switch]

/-- The keywords that hold schemas, names of fields or texts for a reader. -/
def structural : List String := ["description", "properties", "required"]

theorem isWord_typeNode (f : FieldSpec) (hname : name ∉ structural) :
    IsWord ((typeNode f).field name) := by
  refine typeNode_cases (p := fun node => IsWord (node.field name)) (fun m _ => ?_)
    (fun values => ?_) (fun r => ?_) (fun s => isWord_field (isWord_schema s) name)
  · rw [Value.field_map]
    by_cases htype : name = "type"
    · rw [htype, (get?_modelMembers m).1]
      exact .text _
    · simp only [structural, List.mem_cons, List.not_mem_nil, or_false, not_or] at hname
      rw [get?_modelMembers_other m htype hname.1 hname.2.1 hname.2.2]
      exact .null
  · refine isWord_field ?_ name
    simp [enumMembers, IsWord.text, IsWord.texts]
  · refine isWord_field ?_ name
    simp [IsWord.text]

/-- Only models have properties. -/
theorem field_properties_typeNode (h : f.model = none) : (typeNode f).field "properties" = .null := by
  refine typeNode_cases (p := fun node => node.field "properties" = .null) (fun m hm => ?_)
    (fun _ => rfl) (fun _ => rfl) (fun s => ?_)
  · cases h.symm.trans hm
  · rw [Value.field_map, (leafNode_scalar s).properties]
    rfl

/-- The node of a type is no list. -/
theorem field_items_typeNode (f : FieldSpec) : (typeNode f).field "items" = .null := by
  refine typeNode_cases (p := fun node => node.field "items" = .null) (fun m _ => ?_)
    (fun _ => rfl) (fun _ => rfl) (fun s => ?_)
  · rw [Value.field_map, (get?_modelMembers m).2.2.2.1]
    rfl
  · rw [Value.field_map, (leafNode_scalar s).items]
    rfl

theorem IsWord.jsonTree {v : Value} (h : IsWord v) : JsonTree v := by
  cases h with
  | null | text _ | switch _ => exact .leaf trivial
  | texts items => exact jsonTree_texts items

/-- Words that are the same are equal. -/
theorem IsWord.eq_of_same {v w : Value} (hv : IsWord v) (hw : IsWord w) (h : same v w = true) :
    v = w := by
  rw [same_iff_equal hv.jsonTree hw.jsonTree] at h
  cases h with
  | @leaf a b hsame =>
    have hnumber : number? a = none := by cases hv <;> rfl
    rcases hsame with rfl | ⟨q, hq, -⟩
    · rfl
    · cases hnumber.symm.trans hq
  | list length items =>
    cases hv
    cases hw
    rw [eq_of_equal_texts (.list length items)]
  | map _ _ => cases hv

theorem IsWord.isMap {v : Value} (h : IsWord v) : v.isMap = false := by cases h <;> rfl

/-- Other words are reported. -/
theorem reports_words {v w : Value} (hv : IsWord v) (hw : IsWord w) (hne : v ≠ w)
    (hname : name ≠ "required") : Reports quiet (fun _ => true) name v w :=
  reports_values (.inl hv.isMap) (Bool.eq_false_iff.mpr fun h => hne (hv.eq_of_same hw h))
    (fun h => absurd h hname) rfl

/-! ## Types of fields -/

/-- Two fields have the same type, as far as it is no model: both are lists or none is, and the
nodes of their types agree in every keyword but those that hold fields. -/
def SameOutline (f f' : FieldSpec) : Prop :=
  f.isArray = f'.isArray
    ∧ ∀ name, name ∉ structural → (typeNode f).field name = (typeNode f').field name

theorem field_items_list (node : Value) : (listOf true node).field "items" = node := rfl

theorem field_properties_list (node : Value) : (listOf true node).field "properties" = .null := rfl

/-- A list against a single value. -/
theorem reportsKeyword_of_isArray_ne (h : f.isArray ≠ f'.isArray) :
    ReportsKeyword quiet (fun _ => true) f.toJsonSchema f'.toJsonSchema := by
  refine ⟨"items", by decide, ?_⟩
  rw [field_toJsonSchema (by decide), field_toJsonSchema (by decide)]
  cases hlist : f.isArray with
  | true =>
    have hlist' : f'.isArray = false := by simpa [hlist] using h
    rw [hlist', field_items_list]
    show Reports quiet _ "items" _ ((typeNode f').field "items")
    rw [field_items_typeNode]
    exact reports_removed (isMap_typeNode f) (fun h => absurd h (by decide)) rfl
  | false =>
    have hlist' : f'.isArray = true := by simpa [hlist] using h
    rw [hlist', field_items_list]
    show Reports quiet _ "items" ((typeNode f).field "items") _
    rw [field_items_typeNode]
    exact reports_added (isMap_typeNode f') (fun h => absurd h (by decide)) rfl

/-- A model against another type. -/
theorem reportsKeyword_of_model_isSome (h : f.model.isSome ≠ f'.model.isSome) :
    ReportsKeyword quiet (fun _ => true) f.toJsonSchema f'.toJsonSchema := by
  by_cases harray : f.isArray = f'.isArray
  · refine ReportsKeyword.field harray ⟨"properties", by decide, ?_⟩
    cases hm : f.model with
    | some m =>
      have hm' : f'.model = none := by simpa [hm] using h
      rw [typeNode_of_model hm, field_properties, field_properties_typeNode hm']
      exact reports_removed rfl (fun h => absurd h (by decide)) rfl
    | none =>
      have hm' : f'.model ≠ none := by simpa [hm] using h
      obtain ⟨m', hm'⟩ := Option.ne_none_iff_exists'.mp hm'
      rw [typeNode_of_model hm', field_properties, field_properties_typeNode hm]
      exact reports_added rfl (fun h => absurd h (by decide)) rfl
  · exact reportsKeyword_of_isArray_ne harray

/-- **Fields of other types are reported.** -/
theorem reportsKeyword_of_outline (h : ¬ SameOutline f f') :
    ReportsKeyword quiet (fun _ => true) f.toJsonSchema f'.toJsonSchema := by
  by_cases harray : f.isArray = f'.isArray
  · obtain ⟨name, hname, hne⟩ : ∃ name, name ∉ structural
        ∧ (typeNode f).field name ≠ (typeNode f').field name := by
      simpa [SameOutline, harray] using h
    have hkeyword : name ≠ "description" ∧ name ≠ "required" := by
      simp only [structural, List.mem_cons, List.not_mem_nil, or_false, not_or] at hname
      exact ⟨hname.1, hname.2.2⟩
    exact ReportsKeyword.field harray ⟨name, hkeyword.1,
      reports_words (isWord_typeNode f hname) (isWord_typeNode f' hname) hne hkeyword.2⟩
  · exact reportsKeyword_of_isArray_ne harray

/-! ## Models around a difference -/

/-- The step from two models to the fields that have them as types. -/
theorem reportsKeyword_of_models (removed : kinds .removed = true) (hm : f.model = some m)
    (hm' : f'.model = some m') (h : ReportsKeyword quiet kinds m.toJsonSchema m'.toJsonSchema) :
    ReportsKeyword quiet kinds f.toJsonSchema f'.toJsonSchema := by
  have hnode := typeNode_of_model hm
  by_cases harray : f.isArray = f'.isArray
  · refine ReportsKeyword.field harray ?_
    rw [hnode, typeNode_of_model hm']
    exact h
  · cases hlist : f.isArray with
    | true =>
      -- the items of the list are gone
      have hlist' : f'.isArray = false := by simpa [hlist] using harray
      refine ⟨"items", by decide, ?_⟩
      rw [field_toJsonSchema (by decide), field_toJsonSchema (by decide), hlist, hlist',
        field_items_list]
      show Reports quiet kinds "items" _ ((typeNode f').field "items")
      rw [field_items_typeNode]
      exact reports_removed (isMap_typeNode f) (fun h => absurd h (by decide)) removed
    | false =>
      -- the properties of the single value are gone
      have hlist' : f'.isArray = true := by simpa [hlist] using harray
      refine ⟨"properties", by decide, ?_⟩
      rw [field_toJsonSchema (by decide), field_toJsonSchema (by decide), hlist, hlist',
        field_properties_list]
      show Reports quiet kinds "properties" ((typeNode f).field "properties") _
      rw [hnode, field_properties]
      exact reports_removed rfl (fun h => absurd h (by decide)) removed

theorem modelAt?_cons_eq_some {rest : List String} {n : SchemaModel}
    (h : modelAt? (name :: rest) m = some n) :
    ∃ f k, Named.get? m.fields name = some f ∧ f.model = some k ∧ modelAt? rest k = some n := by
  rw [modelAt?] at h
  obtain ⟨k, hk, hn⟩ := Option.bind_eq_some_iff.mp h
  obtain ⟨f, hf, hmodel⟩ := Option.bind_eq_some_iff.mp hk
  exact ⟨f, k, hf, hmodel, hn⟩

/-- **What is reported of two models is reported of those around them.** Induction on the path. -/
theorem reportsKeyword_of_modelAt? {n n' : SchemaModel} (removed : kinds .removed = true)
    (hpath : ∀ name ∈ path, ¬ IsHidden quiet name)
    (h : ReportsKeyword quiet kinds n.toJsonSchema n'.toJsonSchema)
    (hn : modelAt? path m = some n) (hn' : modelAt? path m' = some n') :
    ReportsKeyword quiet kinds m.toJsonSchema m'.toJsonSchema := by
  induction path generalizing m m' with
  | nil =>
    cases hn
    cases hn'
    exact h
  | cons name rest ih =>
    obtain ⟨f, k, hf, hk, hn⟩ := modelAt?_cons_eq_some hn
    obtain ⟨f', k', hf', hk', hn'⟩ := modelAt?_cons_eq_some hn'
    rw [List.forall_mem_cons] at hpath
    refine reportsKeyword_of_field hpath.1 ?_
    rw [fieldSchema_of_get? hf, fieldSchema_of_get? hf']
    exact (reportsKeyword_of_models removed hk hk' (ih hpath.2 hn hn')).reports
      (isMap_toJsonSchema f) (isMap_toJsonSchema f')

/-- The schema of a field with a model is not empty. -/
theorem toJsonSchema_ne_nil (hm : f.model = some m) : f.toJsonSchema ≠ .map [] := by
  intro h
  have htype : (listOf f.isArray (typeNode f)).field "type" = .null := by
    rw [← field_toJsonSchema (by decide), h]
    rfl
  rw [typeNode_of_model hm, toJsonSchema_eq] at htype
  cases hlist : f.isArray with
  | true =>
    rw [hlist] at htype
    cases htype
  | false =>
    rw [hlist] at htype
    have htype : (Members.get? (modelMembers m) "type").getD .null = .null := htype
    rw [(get?_modelMembers m).1] at htype
    cases htype

/-- **A model that only one side has is reported.** Induction on the path, up to the first field at
which the sides differ. -/
theorem reportsKeyword_of_missing (hpath : ∀ name ∈ path, ¬ IsHidden quiet name)
    (h : (modelAt? path m).isSome ≠ (modelAt? path m').isSome) :
    ReportsKeyword quiet (fun _ => true) m.toJsonSchema m'.toJsonSchema := by
  induction path generalizing m m' with
  | nil => exact absurd rfl h
  | cons name rest ih =>
    rw [List.forall_mem_cons] at hpath
    refine reportsKeyword_of_field hpath.1 ?_
    rw [modelAt?, modelAt?] at h
    cases hf : Named.get? m.fields name with
    | none =>
      rw [fieldSchema_eq_null hf]
      cases hf' : Named.get? m'.fields name with
      | none => simp [hf, hf'] at h
      | some f' =>
        rw [fieldSchema_of_get? hf']
        obtain ⟨k', hk'⟩ : ∃ k', f'.model = some k' := by
          cases hk' : f'.model with
          | none => simp [hf, hf', hk'] at h
          | some k' => exact ⟨k', rfl⟩
        exact reports_added (isMap_toJsonSchema f') (fun _ => toJsonSchema_ne_nil hk') rfl
    | some f =>
      rw [fieldSchema_of_get? hf]
      cases hf' : Named.get? m'.fields name with
      | none =>
        rw [fieldSchema_eq_null hf']
        obtain ⟨k, hk⟩ : ∃ k, f.model = some k := by
          cases hk : f.model with
          | none => simp [hf, hf', hk] at h
          | some k => exact ⟨k, rfl⟩
        exact reports_removed (isMap_toJsonSchema f) (fun _ => toJsonSchema_ne_nil hk) rfl
      | some f' =>
        rw [fieldSchema_of_get? hf']
        refine ReportsKeyword.reports ?_ (isMap_toJsonSchema f) (isMap_toJsonSchema f')
        -- if both fields have models, the difference is further down
        by_cases hmodel : f.model.isSome = f'.model.isSome
        · cases hk : f.model with
          | none =>
            have hk' : f'.model = none := by simpa [hk] using hmodel.symm
            simp [hf, hf', hk, hk'] at h
          | some k =>
            obtain ⟨k', hk'⟩ := Option.isSome_iff_exists.mp (hmodel.symm.trans (by rw [hk]; rfl))
            refine reportsKeyword_of_models rfl hk hk' (ih hpath.2 ?_)
            simpa [hf, hf', hk, hk'] using h
        · exact reportsKeyword_of_model_isSome hmodel

/-! ## Differences at a field -/

/-- The field with a name, in the model at a place. -/
def fieldAt? (path : List String) (name : String) (m : Option SchemaModel) : Option FieldSpec :=
  (m.bind (modelAt? path)).bind fun n => Named.get? n.fields name

/-- In the model at a place, a field with the name is required. -/
def IsRequiredAt (path : List String) (name : String) (m : Option SchemaModel) : Prop :=
  ∃ n ∈ m.bind (modelAt? path), ∃ f, (name, f) ∈ n.fields ∧ f.isOptional = false

/-- Models differ at a field: only one has it, its type is another one, or only one requires it. A
field that is called `description` only counts in the last case. An optional one that is called
`required` and of any type does not count as one that only one side has: its schema is empty and
taken for no names. -/
inductive FieldsDiffer (path : List String) (name : String) (m m' : Option SchemaModel) : Prop where
  | removed {f : FieldSpec} (old : fieldAt? path name m = some f)
      (new : fieldAt? path name m' = none) (noText : name ≠ "description") (noNames : name = "required" → f.toJsonSchema ≠ .map [])
  | added {f : FieldSpec} (old : fieldAt? path name m = none)
      (new : fieldAt? path name m' = some f) (noText : name ≠ "description") (noNames : name = "required" → f.toJsonSchema ≠ .map [])
  | retyped {f f' : FieldSpec} (old : fieldAt? path name m = some f)
      (new : fieldAt? path name m' = some f') (noText : name ≠ "description")
      (type : ¬ SameOutline f f')
  | required (h : ¬ (IsRequiredAt path name m ↔ IsRequiredAt path name m'))

section Optional

variable {key : String} {m m' : Option SchemaModel} {n n' : SchemaModel}

/-- What is reported of two models is reported of input or output around them. -/
theorem reports_optionalSchema (removed : kinds .removed = true)
    (hpath : ∀ name ∈ path, ¬ IsHidden quiet name) (hn : m.bind (modelAt? path) = some n)
    (hn' : m'.bind (modelAt? path) = some n')
    (h : ReportsKeyword quiet kinds n.toJsonSchema n'.toJsonSchema) :
    Reports quiet kinds key (optionalSchema m) (optionalSchema m') := by
  obtain ⟨k, rfl, hn⟩ := Option.bind_eq_some_iff.mp hn
  obtain ⟨k', rfl, hn'⟩ := Option.bind_eq_some_iff.mp hn'
  refine (reportsKeyword_of_modelAt? removed hpath h hn hn').reports ?_ ?_
  · exact congrArg Value.isMap (toJsonSchema_eq k)
  · exact congrArg Value.isMap (toJsonSchema_eq k')

/-- A model that only one side has is reported, also if it is the whole of input or output. -/
theorem reports_optionalSchema_of_missing (hkey : key ≠ "required")
    (hpath : ∀ name ∈ path, ¬ IsHidden quiet name)
    (h : (m.bind (modelAt? path)).isSome ≠ (m'.bind (modelAt? path)).isSome) :
    Reports quiet (fun _ => true) key (optionalSchema m) (optionalSchema m') := by
  have hmap : ∀ k : SchemaModel, k.toJsonSchema.isMap = true :=
    fun k => congrArg Value.isMap (toJsonSchema_eq k)
  cases m with
  | none =>
    cases m' with
    | none => exact absurd rfl h
    | some k' => exact reports_added (hmap k') (fun h => absurd h hkey) rfl
  | some k =>
    cases m' with
    | none => exact reports_removed (hmap k) (fun h => absurd h hkey) rfl
    | some k' => exact (reportsKeyword_of_missing hpath h).reports (hmap k) (hmap k')

theorem fieldAt?_eq (hn : m.bind (modelAt? path) = some n) :
    fieldAt? path name m = Named.get? n.fields name := by
  unfold fieldAt?
  rw [hn]
  rfl

theorem isRequiredAt_iff (hn : m.bind (modelAt? path) = some n) :
    IsRequiredAt path name m ↔ name ∈ requiredNames n.fields := by
  unfold IsRequiredAt requiredNames
  rw [hn]
  simp

/-- The step: two models that differ at one of their own fields. -/
theorem FieldsDiffer.reportsKeyword (h : FieldsDiffer path name m m')
    (hn : m.bind (modelAt? path) = some n) (hn' : m'.bind (modelAt? path) = some n') :
    ReportsKeyword quiet (fun _ => true) n.toJsonSchema n'.toJsonSchema := by
  cases h with
  | @removed f hold hnew noText noNames =>
    rw [fieldAt?_eq hn] at hold
    rw [fieldAt?_eq hn'] at hnew
    refine reportsKeyword_of_field (fun hidden => noText hidden.2) ?_
    rw [fieldSchema_of_get? hold, fieldSchema_eq_null hnew]
    exact reports_removed (isMap_toJsonSchema f) noNames rfl
  | @added f hold hnew noText noNames =>
    rw [fieldAt?_eq hn] at hold
    rw [fieldAt?_eq hn'] at hnew
    refine reportsKeyword_of_field (fun hidden => noText hidden.2) ?_
    rw [fieldSchema_eq_null hold, fieldSchema_of_get? hnew]
    exact reports_added (isMap_toJsonSchema f) noNames rfl
  | @retyped f f' hold hnew noText type =>
    rw [fieldAt?_eq hn] at hold
    rw [fieldAt?_eq hn'] at hnew
    refine reportsKeyword_of_field (fun hidden => noText hidden.2) ?_
    rw [fieldSchema_of_get? hold, fieldSchema_of_get? hnew]
    exact (reportsKeyword_of_outline type).reports (isMap_toJsonSchema f) (isMap_toJsonSchema f')
  | required h =>
    -- the required names stand beside the fields, so it does not matter what the field is called
    rw [isRequiredAt_iff hn, isRequiredAt_iff hn'] at h
    have hmap : ∀ k : SchemaModel, (k.toJsonSchema.field "required").isMap = false := by
      intro k
      rw [toJsonSchema_eq, Value.field_map, get?_modelMembers_required]
      split <;> rfl
    exact ⟨"required", by decide, reports_names (.inl (hmap n)) (names?_field_required n)
      (names?_field_required n') (fun hall => h (hall name)) rfl⟩

theorem FieldsDiffer.exists_model (h : FieldsDiffer path name m m') :
    (m.bind (modelAt? path)).isSome = true ∨ (m'.bind (modelAt? path)).isSome = true := by
  have hfield : ∀ {m : Option SchemaModel} {f : FieldSpec}, fieldAt? path name m = some f →
      (m.bind (modelAt? path)).isSome = true := by
    intro m f h
    obtain ⟨n, hn, -⟩ := Option.bind_eq_some_iff.mp h
    rw [hn]
    rfl
  cases h with
  | removed hold _ _ _ => exact .inl (hfield hold)
  | added _ hnew _ _ => exact .inr (hfield hnew)
  | retyped hold _ _ _ => exact .inl (hfield hold)
  | required h =>
    by_contra hnone
    rw [not_or, Bool.not_eq_true, Bool.not_eq_true, Option.isSome_eq_false_iff,
      Option.isSome_eq_false_iff, Option.isNone_iff_eq_none, Option.isNone_iff_eq_none] at hnone
    refine h (iff_of_false ?_ ?_) <;> rintro ⟨n, hn, -⟩
    · rw [hnone.1] at hn
      cases hn
    · rw [hnone.2] at hn
      cases hn

/-- Models that differ at a field are reported, from wherever they are compared. -/
theorem FieldsDiffer.reports (h : FieldsDiffer path name m m') (hkey : key ≠ "required")
    (hpath : ∀ name ∈ path, ¬ IsHidden quiet name) :
    Reports quiet (fun _ => true) key (optionalSchema m) (optionalSchema m') := by
  by_cases hsome : (m.bind (modelAt? path)).isSome = (m'.bind (modelAt? path)).isSome
  · -- both sides have a model there, so the field itself differs
    have hmodels : (m.bind (modelAt? path)).isSome = true := by
      rcases h.exists_model with hm | hm
      · exact hm
      · exact hsome.trans hm
    obtain ⟨n, hn⟩ := Option.isSome_iff_exists.mp hmodels
    obtain ⟨n', hn'⟩ := Option.isSome_iff_exists.mp (hsome.symm.trans hmodels)
    exact reports_optionalSchema rfl hpath hn hn' (h.reportsKeyword hn hn')
  · exact reports_optionalSchema_of_missing hkey hpath hsome

end Optional

/-- **A difference at a field is reported**, at any depth of input or output, also by a comparison
that leaves out descriptions, tags or transport. -/
theorem field_difference_reported {options : Options} (hpaths : options.ignorePaths = [])
    {old new : OperationSpec} {part : OperationSpec → Option SchemaModel}
    (hpart : part ∈ [OperationSpec.input, OperationSpec.output]) (hpath : "description" ∉ path)
    (h : FieldsDiffer path name (part old) (part new)) : compareSpecs options old new ≠ [] := by
  have hreports : ∀ key, key ≠ "required" → Reports options.ignoreDescriptions (fun _ => true) key
      (optionalSchema (part old)) (optionalSchema (part new)) := by
    intro key hkey
    refine h.reports hkey fun name hname hidden => hpath ?_
    rw [← hidden.2]
    exact hname
  obtain ⟨c, hc, -⟩ := exists_change_of_reports hpaths hpart hreports
  exact List.ne_nil_of_mem hc

/-- A model of a single field. -/
def oneField (name : String) (field : FieldSpec) : SchemaModel := ⟨"Shown", none, [(name, field)]⟩

/-- A query that gives a model. -/
def showing (output : SchemaModel) : OperationSpec :=
  { plainQuery "pets.show" 1 with output := some output }

/-- The name of an owner inside a pet becomes a number. -/
theorem retyped_owner_reported :
    let owner (s : ScalarType) : SchemaModel :=
      oneField "owner" { model := some (oneField "name" { scalar := some s }) }
    FieldsDiffer ["owner"] "name" (some (owner .string)) (some (owner .int))
      ∧ compareSpecs { ignoreDescriptions := true } (showing (owner .string))
          (showing (owner .int)) ≠ [] := by
  intro owner
  have hdiffer : FieldsDiffer ["owner"] "name" (some (owner .string)) (some (owner .int)) := by
    refine .retyped rfl rfl (by decide) fun h => ?_
    have htype := h.2 "type" (by decide)
    exact absurd htype (by decide)
  exact ⟨hdiffer, field_difference_reported rfl (List.mem_pair.mpr (.inr rfl)) (by decide) hdiffer⟩

/-- A field that is called `description` is left out like a text, whatever its type becomes. -/
theorem description_field_hidden :
    let old := oneField "description" { scalar := some .string, isOptional := true }
    let new := oneField "description" { scalar := some .int, isOptional := true }
    ((fieldAt? [] "description" (some old)).map fun f => f.toJsonSchema.field "type")
        = some (.str "string")
      ∧ ((fieldAt? [] "description" (some new)).map fun f => f.toJsonSchema.field "type")
        = some (.str "integer")
      ∧ compareSpecs { ignoreDescriptions := true } (showing old) (showing new) = [] := by
  refine ⟨rfl, rfl, ?_⟩
  decide +kernel

end ApiContract.Drift
