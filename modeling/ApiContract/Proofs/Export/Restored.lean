import ApiContract.Proofs.Drift.Schema

/-!
# What an export leaves of a model

An export settles the references of the schemas it writes, and in the schema of a model without
references by name the only place for one is the description of a list, which may be any value. So a
model comes back as it was but for those descriptions (`redescribedModel`), and a comparison with
what comes back finds a change exactly where one of them is not restored. A comparison with the model
itself is the case in which the descriptions stay.

* **`restored_iff_same`** — which descriptions are restored.
* **`unchanged_redescribedModel`** — a model under other descriptions, by recursion over its fields.
* **`unchanged_settledModel`** — a model and what comes back of it.
* **`unchanged_model_self_iff`** — a model against itself.
-/

namespace ApiContract.Export

open Contract Drift Schema
open Reference (IsPlain)

/-! ## Other descriptions -/

/-- The description of a field under `g`, which changes those of lists. -/
def redescription (g : Value → Value) (isArray : Bool) (description : Option Value) : Option Value :=
  if isArray then description.map g else description

mutual

/-- A model with other descriptions of its lists. -/
def redescribedModel (g : Value → Value) : SchemaModel → SchemaModel
  | ⟨name, description, fields⟩ => ⟨name, description, redescribedFields g fields⟩

def redescribedFields (g : Value → Value) : List (String × FieldSpec) → List (String × FieldSpec)
  | [] => []
  | (name, field) :: rest => (name, redescribedField g field) :: redescribedFields g rest

def redescribedField (g : Value → Value) : FieldSpec → FieldSpec
  | ⟨scalar, values, some model, ref, isOptional, isArray, description⟩ =>
    ⟨scalar, values, some (redescribedModel g model), ref, isOptional, isArray,
      redescription g isArray description⟩
  | ⟨scalar, values, none, ref, isOptional, isArray, description⟩ =>
    ⟨scalar, values, none, ref, isOptional, isArray, redescription g isArray description⟩

end

variable {g : Value → Value}

theorem redescribedFields_eq_map (fields : List (String × FieldSpec)) :
    redescribedFields g fields = fields.map fun f => (f.1, redescribedField g f.2) := by
  induction fields with
  | nil => rfl
  | cons f rest ih =>
    obtain ⟨name, field⟩ := f
    rw [redescribedFields, ih]
    rfl

theorem isOptional_redescribedField (f : FieldSpec) :
    (redescribedField g f).isOptional = f.isOptional := by
  obtain ⟨scalar, values, model, ref, isOptional, isArray, description⟩ := f
  cases model with
  | none => rw [redescribedField]
  | some model => rw [redescribedField]

theorem requiredNames_redescribedFields (fields : List (String × FieldSpec)) :
    requiredNames (redescribedFields g fields) = requiredNames fields := by
  unfold requiredNames
  rw [redescribedFields_eq_map, List.filter_map, List.map_map]
  simp only [Function.comp_def, isOptional_redescribedField]

theorem redescription_id (isArray : Bool) (description : Option Value) :
    redescription id isArray description = description := by
  unfold redescription
  rw [Option.map_id, id, ite_self]

mutual

/-- With the descriptions that it has, a model is itself. -/
theorem redescribedModel_id : (m : SchemaModel) → redescribedModel id m = m
  | ⟨name, description, fields⟩ => by rw [redescribedModel, redescribedFields_id fields]

theorem redescribedFields_id :
    (fields : List (String × FieldSpec)) → redescribedFields id fields = fields
  | [] => rfl
  | (name, field) :: rest => by
    rw [redescribedFields, redescribedField_id field, redescribedFields_id rest]

theorem redescribedField_id : (f : FieldSpec) → redescribedField id f = f
  | ⟨_, _, some model, _, _, _, _⟩ => by
    rw [redescribedField, redescribedModel_id model, redescription_id]
  | ⟨_, _, none, _, _, _, _⟩ => by rw [redescribedField, redescription_id]

end

/-! ## The node of a field -/

/-- The node of a field's type: a single one, without the description of the field. -/
def typeNode : FieldSpec → Value
  | ⟨_, _, some model, _, _, _, _⟩ => model.toJsonSchema
  | ⟨_, some values, none, _, _, _, _⟩ => .map (enumMembers values)
  | ⟨_, none, none, some ref, _, _, _⟩ => componentReference ref
  | ⟨scalar, none, none, none, _, _, _⟩ => .map (scalar.getD .unknown).schema

theorem toJsonSchema_eq_typeNode (f : FieldSpec) :
    f.toJsonSchema = withDescription f.description (listOf f.isArray (typeNode f)) := by
  obtain ⟨scalar, values, model, ref, isOptional, isArray, description⟩ := f
  cases model with
  | some m => rw [FieldSpec.toJsonSchema, typeNode]
  | none =>
    cases values with
    | some values =>
      rw [FieldSpec.toJsonSchema]
      rfl
    | none =>
      cases ref with
      | some ref => rw [FieldSpec.toJsonSchema, typeNode]
      | none => rw [FieldSpec.toJsonSchema, typeNode]

theorem typeNode_eq (f : FieldSpec) (isOptional isArray : Bool) (description : Option Value) :
    typeNode { f with isOptional, isArray, description } = typeNode f := by
  obtain ⟨scalar, values, model, ref, -, -, -⟩ := f
  cases model with
  | some m => rfl
  | none =>
    cases values with
    | some values => rfl
    | none => cases ref <;> rfl

/-- The node of a type is the schema of the single field of that type. -/
theorem toJsonSchema_single {scalar : Option ScalarType} {values : Option (List String)}
    {model : Option SchemaModel} {ref : Option String} {isOptional isOptional' isArray : Bool}
    {description : Option Value} :
    (FieldSpec.mk scalar values model ref isOptional false none).toJsonSchema
      = typeNode ⟨scalar, values, model, ref, isOptional', isArray, description⟩ := by
  have hnone : ∀ node, withDescription none node = node := by
    intro node
    cases node <;> rfl
  rw [toJsonSchema_eq_typeNode, hnone]
  exact (typeNode_eq ⟨scalar, values, model, ref, isOptional', isArray, description⟩ _ _ _)

/-! ## Sound models -/

/-- What holds of the fields that are built from schemas. -/
structure SoundField (f : FieldSpec) : Prop where
  text : HasText f
  enum : ∀ values, f.enumValues = some values → values ≠ []
  model : ∀ m, f.model = some m →
    f.isArray = true ∨ f.description = none ∨ f.description = m.description.map .str

/-- What holds of the models that are built from schemas. -/
def Sound (models : List (String × SchemaModel)) : Prop :=
  ∀ e ∈ models, IsPlain e.1 ∧ (e.2.fields.map (·.1)).Nodup ∧ ∀ f ∈ e.2.fields, SoundField f.2

/-- A description of a list in one of the models. -/
def ListDescription (models : List (String × SchemaModel)) (d : Value) : Prop :=
  ∃ e ∈ models, ∃ f ∈ e.2.fields, f.2.isArray = true ∧ f.2.description = some d

theorem Sound.field {m : SchemaModel} (h : Sound (modelsOf m)) {f : String × FieldSpec}
    (hf : f ∈ m.fields) : SoundField f.2 ∧ Sound (modelsOfField f.2) :=
  ⟨(h _ (mem_modelsOf.mpr (.inl rfl))).2.2 f hf, fun e he => h e (mem_modelsOf.mpr (.inr ⟨f, hf, he⟩))⟩

theorem Sound.nodup {m : SchemaModel} (h : Sound (modelsOf m)) : (m.fields.map (·.1)).Nodup :=
  (h _ (mem_modelsOf.mpr (.inl rfl))).2.1

/-- The list descriptions of a model are those of its fields. -/
theorem forall_listDescription_iff {m : SchemaModel} {p : Value → Prop} :
    (∀ d, ListDescription (modelsOf m) d → p d)
      ↔ ∀ f ∈ m.fields, (f.2.isArray = true → ∀ d ∈ f.2.description, p d)
          ∧ ∀ d, ListDescription (modelsOfField f.2) d → p d := by
  constructor
  · intro h f hf
    constructor
    · intro harray d hd
      exact h d ⟨_, mem_modelsOf.mpr (.inl rfl), f, hf, harray, hd⟩
    · rintro d ⟨e, he, f', hf'⟩
      exact h d ⟨e, mem_modelsOf.mpr (.inr ⟨f, hf, he⟩), f', hf'⟩
  · rintro h d ⟨e, he, f', hf', harray, hd⟩
    rcases mem_modelsOf.mp he with rfl | ⟨f, hf, he⟩
    · exact (h f' hf').1 harray d hd
    · exact (h f hf).2 d ⟨e, he, f', hf', harray, hd⟩

/-- The node of a single model says what its field says. -/
theorem withDescription_model {m : SchemaModel} {description : Option Value}
    (h : description = none ∨ description = m.description.map .str) :
    withDescription description m.toJsonSchema = m.toJsonSchema := by
  rw [toJsonSchema_eq]
  rcases h with rfl | rfl
  · rfl
  · have href : Members.contains (modelMembers m) (.str "$ref") = false := by
      rw [Members.contains_str, (get?_modelMembers m).2.2.1]
      rfl
    cases hdescription : m.description with
    | none => rfl
    | some text =>
      cases hempty : text.isEmpty with
      | true =>
        have hfalsy : (Value.str text).isTruthy = false := by simp [Value.isTruthy, hempty]
        unfold withDescription
        rw [Option.map_some]
        dsimp only
        rw [hfalsy]
        rfl
      | false =>
        have htruthy : (Value.str text).isTruthy = true := by simp [Value.isTruthy, hempty]
        unfold withDescription
        rw [Option.map_some]
        dsimp only
        rw [htruthy, href, if_pos (by decide)]
        -- the model has the same description, in the same place
        have hfilter : (some text).filter (!·.isEmpty) = some text := by
          rw [Option.filter_some, hempty]
          rfl
        unfold modelMembers
        rw [hdescription, hfilter]
        simp [Members.insert]

/-! ## Kept descriptions -/

/-- A comparison finds no change between a description of a list and the one that `g` makes of it. A
description that is empty is not written at all. -/
def Kept (g : Value → Value) (d : Value) : Prop :=
  d.isTruthy = true →
    Unchanged (.str "description") d (if (g d).isTruthy then g d else .null)

theorem kept_id_iff {d : Value} :
    Kept id d ↔ (d.isTruthy = true → Unchanged (.str "description") d d) := by
  refine forall_congr' fun h => ?_
  rw [id, if_pos h]

/-- What is empty stays empty. -/
def KeepsEmpty (g : Value → Value) : Prop := ∀ d, d.isTruthy = false → (g d).isTruthy = false

theorem kept_iff (hg : KeepsEmpty g) (description : Option Value) :
    Unchanged (.str "description") ((description.filter Value.isTruthy).getD .null)
        (((description.map g).filter Value.isTruthy).getD .null)
      ↔ ∀ d ∈ description, Kept g d := by
  cases description with
  | none =>
    refine iff_of_true (unchanged_null _) ?_
    intro d hd
    cases hd
  | some d =>
    have hforall : (∀ e ∈ some d, Kept g e) ↔ Kept g d := by simp
    rw [hforall, Option.map_some, Option.filter_some, Option.filter_some]
    unfold Kept
    cases h : d.isTruthy with
    | false =>
      rw [hg d h]
      exact iff_of_true (unchanged_null _) nofun
    | true =>
      cases (g d).isTruthy with
      | false => exact ⟨fun h _ => h, fun h => h rfl⟩
      | true => exact ⟨fun h _ => h, fun h => h rfl⟩

/-! ## Restored descriptions -/

variable {names : List String}

/-- An export leaves nothing of what is empty. -/
theorem isTruthy_settle : KeepsEmpty (settle names) := by
  intro d h
  cases d with
  | scalar leaf =>
    rw [settle_scalar]
    exact h
  | list items =>
    have hnil : items = [] := by simpa [Value.isTruthy] using h
    rw [hnil]
    rfl
  | map members =>
    have hnil : members = [] := by simpa [Value.isTruthy] using h
    rw [hnil]
    rfl
  | set items => exact h

theorem typeNode_redescribedField_of_none {f : FieldSpec} (h : f.model = none) :
    typeNode (redescribedField g f) = typeNode f := by
  obtain ⟨scalar, values, model, ref, isOptional, isArray, description⟩ := f
  dsimp only at h
  subst h
  rw [redescribedField]
  cases values with
  | some values => rfl
  | none =>
    cases ref with
    | some ref => rfl
    | none => rfl

theorem description_redescribedModel (m : SchemaModel) :
    (redescribedModel g m).description = m.description := by
  obtain ⟨name, description, fields⟩ := m
  rw [redescribedModel]

theorem redescribedField_parts (g : Value → Value) (f : FieldSpec) :
    (redescribedField g f).isArray = f.isArray
      ∧ (redescribedField g f).description = redescription g f.isArray f.description := by
  obtain ⟨scalar, values, model, ref, isOptional, isArray, description⟩ := f
  cases model with
  | none => rw [redescribedField]; exact ⟨rfl, rfl⟩
  | some model => rw [redescribedField]; exact ⟨rfl, rfl⟩

/-- The node of a type other than a model is unchanged against itself. -/
theorem unchanged_typeNode {f : FieldSpec} (h : f.model = none) :
    ∃ members, typeNode f = .map members ∧ TextKeys members
      ∧ ∀ key, Unchanged key (.map members) (.map members) := by
  obtain ⟨scalar, values, model, ref, isOptional, isArray, description⟩ := f
  dsimp only at h
  subst h
  have hself : ∀ members : Members, TextKeys members → (∀ m ∈ members, Unchanged m.1 m.2 m.2) →
      ∃ members', Value.map members = .map members' ∧ TextKeys members'
        ∧ ∀ key, Unchanged key (.map members') (.map members') :=
    fun members hkeys hmembers => ⟨members, rfl, hkeys, fun key => unchanged_map_self hkeys hmembers⟩
  cases values with
  | some values =>
    refine hself _ ⟨by simp [enumMembers], by simp [enumMembers]⟩ ?_
    simp [enumMembers, unchanged_str, unchanged_texts]
  | none =>
    cases ref with
    | some ref =>
      refine hself _ ⟨by simp, by simp⟩ ?_
      simp [unchanged_str]
    | none =>
      have hbool : ∀ key, Unchanged key (.bool true) (.bool true) :=
        fun key => (unchanged_self_of_not_map rfl).mpr rfl
      generalize hscalar : scalar.getD .unknown = s
      show ∃ members, Value.map (scalar.getD .unknown).schema = .map members ∧ _
      rw [hscalar]
      refine hself _ ⟨?_, ?_⟩ ?_
      · cases s <;> simp [ScalarType.schema, ScalarType.typeNode, ScalarType.textNode]
      · cases s <;> simp [ScalarType.schema, ScalarType.typeNode, ScalarType.textNode]
      · cases s <;> simp [ScalarType.schema, ScalarType.typeNode, ScalarType.textNode,
          unchanged_str, hbool]

/-- A node gets its description, or stays as it is. -/
theorem withDescription_cases (description : Option Value) (members : Members) :
    withDescription description (.map members) = .map members
      ∨ ∃ d ∈ description, withDescription description (.map members) = .map (describe members d) := by
  cases description with
  | none => exact .inl rfl
  | some d =>
    unfold withDescription
    dsimp only
    split
    · exact .inr ⟨d, rfl, rfl⟩
    · exact .inl rfl

/-- So is the node with a text as its description. -/
theorem unchanged_leaf {f : FieldSpec} (h : f.model = none)
    (htext : ∀ d ∈ f.description, ∃ s, d = .str s) (harray : f.isArray = false) (key : Scalar) :
    Unchanged key f.toJsonSchema f.toJsonSchema := by
  obtain ⟨members, hmembers, hkeys, hself⟩ := unchanged_typeNode h
  rw [toJsonSchema_eq_typeNode, harray, hmembers]
  show Unchanged key (withDescription f.description (.map members))
    (withDescription f.description (.map members))
  obtain heq | ⟨d, hd, heq⟩ := withDescription_cases f.description members
  · rw [heq]
    exact hself key
  · obtain ⟨s, rfl⟩ := htext d hd
    rw [heq]
    exact unchanged_describe hkeys hkeys (hself key) (unchanged_str _ s)

mutual

/-- **A field is unchanged** exactly if its list descriptions are kept. -/
theorem unchanged_redescribedField (hg : KeepsEmpty g) : (f : FieldSpec) → SoundField f → Sound (modelsOfField f) →
    ∀ key, Unchanged key f.toJsonSchema (redescribedField g f).toJsonSchema
      ↔ (f.isArray = true → ∀ d ∈ f.description, Kept g d)
        ∧ ∀ d, ListDescription (modelsOfField f) d → Kept g d
  | ⟨scalar, values, some m, ref, isOptional, isArray, description⟩, hsound, hmodels, key => by
    have hmodel := unchanged_redescribedModel hg m (by rwa [modelsOfField] at hmodels)
    rw [redescribedField, FieldSpec.toJsonSchema, FieldSpec.toJsonSchema, modelsOfField]
    cases isArray with
    | true =>
      show Unchanged key (withDescription description (listOf true m.toJsonSchema))
        (withDescription (description.map g)
          (listOf true (redescribedModel g m).toJsonSchema)) ↔ _
      rw [unchanged_list_iff, hmodel, kept_iff hg, and_comm]
      exact and_congr_left fun _ => ⟨fun h _ => h, fun h => h rfl⟩
    | false =>
      have hdescription := (hsound.model m rfl).resolve_left (by simp)
      show Unchanged key (withDescription description m.toJsonSchema)
        (withDescription description (redescribedModel g m).toJsonSchema) ↔ _
      rw [withDescription_model hdescription,
        withDescription_model (by rw [description_redescribedModel]; exact hdescription), hmodel]
      exact ⟨fun h => ⟨nofun, h⟩, fun h => h.2⟩
  | ⟨scalar, values, none, ref, isOptional, isArray, description⟩, hsound, _, key => by
    have hmodels : ∀ d, ListDescription (modelsOfField
        ⟨scalar, values, none, ref, isOptional, isArray, description⟩) d → Kept g d := by
      rintro d ⟨e, he, -⟩
      rw [modelsOfField] at he
      cases he
    cases isArray with
    | true =>
      have hnode : typeNode (redescribedField g
          ⟨scalar, values, none, ref, isOptional, true, description⟩)
          = typeNode ⟨scalar, values, none, ref, isOptional, true, description⟩ :=
        typeNode_redescribedField_of_none rfl
      obtain ⟨members, hmembers, -, hself⟩ := unchanged_typeNode
        (f := ⟨scalar, values, none, ref, isOptional, true, description⟩) rfl
      rw [toJsonSchema_eq_typeNode, toJsonSchema_eq_typeNode (redescribedField _ _), hnode, hmembers]
      show Unchanged key (withDescription description (listOf true (.map members)))
        (withDescription (description.map g) (listOf true (.map members))) ↔ _
      rw [unchanged_list_iff, kept_iff hg]
      exact ⟨fun h => ⟨fun _ => h.2, hmodels⟩, fun h => ⟨hself _, h.1 rfl⟩⟩
    | false =>
      have htext := hsound.text.resolve_left (by simp)
      rw [redescribedField]
      refine iff_of_true ?_ ⟨nofun, hmodels⟩
      exact unchanged_leaf rfl htext rfl key

/-- **A model is unchanged** exactly if the descriptions of its lists are kept. -/
theorem unchanged_redescribedModel (hg : KeepsEmpty g) : (m : SchemaModel) → Sound (modelsOf m) →
    ∀ key, Unchanged key m.toJsonSchema (redescribedModel g m).toJsonSchema
      ↔ ∀ d, ListDescription (modelsOf m) d → Kept g d
  | ⟨name, description, fields⟩, hsound, key => by
    have hfields := unchanged_redescribedFields hg fields fun f hf => hsound.field hf
    have hnodup : (fields.map (·.1)).Nodup := hsound.nodup
    have hnames : (redescribedFields g fields).map (·.1) = fields.map (·.1) := by
      rw [redescribedFields_eq_map, List.map_map]
      rfl
    have hget : ∀ f ∈ fields, Named.get? (redescribedFields g fields) f.1
        = some (redescribedField g f.2) := by
      intro f hf
      rw [redescribedFields_eq_map, Named.get?_map, Named.get?_of_mem hnodup hf]
      rfl
    have hcompare : Unchanged key (SchemaModel.mk name description fields).toJsonSchema
        (SchemaModel.mk name description (redescribedFields g fields)).toJsonSchema
          ↔ ∀ f ∈ fields, ∀ f', Named.get? (redescribedFields g fields) f.1 = some f' →
            Unchanged (.str f.1) f.2.toJsonSchema f'.toJsonSchema :=
      unchanged_model_iff rfl hnodup (by rwa [hnames]) (fun name => by rw [hnames])
        fun name => by rw [requiredNames_redescribedFields]
    rw [redescribedModel, hcompare, forall_listDescription_iff]
    refine forall_congr' fun f => forall_congr' fun hf => ?_
    rw [← hfields f hf (.str f.1)]
    constructor
    · intro h
      exact h _ (hget f hf)
    · intro h f' hf'
      cases (hget f hf).symm.trans hf'
      exact h

theorem unchanged_redescribedFields (hg : KeepsEmpty g) : (fields : List (String × FieldSpec)) →
    (∀ f ∈ fields, SoundField f.2 ∧ Sound (modelsOfField f.2)) →
    ∀ f ∈ fields, ∀ key, Unchanged key f.2.toJsonSchema (redescribedField g f.2).toJsonSchema
      ↔ (f.2.isArray = true → ∀ d ∈ f.2.description, Kept g d)
        ∧ ∀ d, ListDescription (modelsOfField f.2) d → Kept g d
  | [], _ => fun f hf => absurd hf List.not_mem_nil
  | (name, field) :: rest, hsound => by
    have hfield := unchanged_redescribedField hg field (hsound _ List.mem_cons_self).1
      (hsound _ List.mem_cons_self).2
    have hrest := unchanged_redescribedFields hg rest fun f hf => hsound f (List.mem_cons_of_mem _ hf)
    intro f hf
    rcases List.mem_cons.mp hf with rfl | hf
    · exact hfield
    · exact hrest f hf

end

/-- **A model is unchanged against itself** exactly if the descriptions of its lists are. -/
theorem unchanged_model_self_iff {m : SchemaModel} (h : Sound (modelsOf m)) (key : Scalar) :
    Unchanged key m.toJsonSchema m.toJsonSchema
      ↔ ∀ d, ListDescription (modelsOf m) d → d.isTruthy = true →
          Unchanged (.str "description") d d := by
  have hmodel := unchanged_redescribedModel (g := id) (fun _ hd => hd) m h key
  rw [redescribedModel_id] at hmodel
  rw [hmodel]
  exact forall_congr' fun d => forall_congr' fun _ => kept_id_iff

end ApiContract.Export
