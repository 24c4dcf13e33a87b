import ApiContract.Export.Components
import ApiContract.Proofs.Named
import ApiContract.Proofs.Reference
import ApiContract.Proofs.Schema.Exported

/-!
# Settled schemas

`settle` empties the references of a tree that lead to no component. It goes down the tree without
changing its shape, so a settled tree is read like the tree. The settled schema of a model is an
exported object, whatever its fields are:

* **`get?_settleMembers`** — looking up a member of a settled mapping.
* **`settle_componentReference`** — a reference stays if its component is there.
* **`exported_model`** / **`exported_field`** — settled schemas are exported schemas.
-/

namespace ApiContract.Export

open Contract Schema

variable {names : List String} {members : Members}

/-! ## Settling a tree -/

theorem settleMembers_eq_map (names : List String) (members : Members) :
    settleMembers names members = members.map fun m => (m.1, settle names m.2) := by
  induction members with
  | nil => rfl
  | cons m rest ih =>
    obtain ⟨k, v⟩ := m
    rw [settleMembers, ih]
    rfl

theorem settleItems_eq_map (names : List String) (items : List Value) :
    settleItems names items = items.map (settle names) := by
  induction items with
  | nil => rfl
  | cons v rest ih =>
    rw [settleItems, ih]
    rfl

theorem settle_map (h : Members.get? members "$ref" = none) :
    settle names (.map members) = .map (settleMembers names members) := by
  rw [settle, h]

theorem settle_list (items : List Value) :
    settle names (.list items) = .list (items.map (settle names)) := by
  rw [settle, settleItems_eq_map]

@[simp] theorem settle_scalar (s : Scalar) : settle names (.scalar s) = .scalar s := by
  rw [settle]
  · nofun
  · nofun

@[simp] theorem settle_texts (items : List String) :
    settle names (.list (items.map .str)) = .list (items.map .str) := by
  rw [settle_list, List.map_map]
  congr 1

mutual

/-- A value without references is settled. -/
theorem settle_eq_self : (v : Value) → targets v = [] → settle names v = v
  | .scalar leaf, _ => settle_scalar leaf
  | .set items, _ => by
    rw [settle]
    · nofun
    · nofun
  | .list items, h => by
    rw [targets] at h
    rw [settle, settleItems_eq_self items h]
  | .map members, h => by
    rw [targets] at h
    rw [settle]
    cases href : Members.get? members "$ref" with
    | some target =>
      rw [href] at h
      cases h
    | none =>
      rw [href] at h
      dsimp only
      rw [settleMembers_eq_self members h]

theorem settleMembers_eq_self : (members : List (Scalar × Value)) → targetsOfMembers members = [] →
    settleMembers names members = members
  | [], _ => rfl
  | (k, v) :: rest, h => by
    rw [targetsOfMembers, List.append_eq_nil_iff] at h
    rw [settleMembers, settle_eq_self v h.1, settleMembers_eq_self rest h.2]

theorem settleItems_eq_self : (items : List Value) → targetsOfItems items = [] →
    settleItems names items = items
  | [], _ => rfl
  | v :: rest, h => by
    rw [targetsOfItems, List.append_eq_nil_iff] at h
    rw [settleItems, settle_eq_self v h.1, settleItems_eq_self rest h.2]

end

theorem get?_settleMembers (members : Members) (name : String) :
    Members.get? (settleMembers names members) name
      = (Members.get? members name).map (settle names) := by
  induction members with
  | nil => rfl
  | cons m rest ih =>
    obtain ⟨k, v⟩ := m
    rw [settleMembers, Members.get?_cons, Members.get?_cons, ih]
    split <;> rfl

/-- A settled value is looked up like the value, unless it is a reference. -/
theorem get?_settle {v : Value} (h : v.get? "$ref" = none) (name : String) :
    (settle names v).get? name = (v.get? name).map (settle names) := by
  cases v with
  | map members =>
    rw [settle_map h]
    exact get?_settleMembers members name
  | scalar leaf =>
    rw [settle_scalar]
    rfl
  | list items =>
    rw [settle_list]
    rfl
  | set items => rfl

theorem isMap_settle {v : Value} (h : v.isMap = true) : (settle names v).isMap = true := by
  cases v with
  | map members =>
    rw [settle]
    split
    · split <;> rfl
    · rfl
  | scalar leaf => cases h
  | list items => cases h
  | set items => cases h

theorem settleMembers_insert (members : Members) (key : Scalar) (v : Value) :
    settleMembers names (Members.insert members key v)
      = Members.insert (settleMembers names members) key (settle names v) := by
  induction members with
  | nil => rfl
  | cons m rest ih =>
    obtain ⟨k, w⟩ := m
    rw [settleMembers, Members.insert, Members.insert]
    split
    · rfl
    · rw [settleMembers, ih]

/-! ## References -/

@[simp] theorem componentName?_component (name : String) :
    componentName? (.str (componentPath ++ name)) = some name := by
  unfold componentName?
  dsimp only
  rw [String.toList_append, if_pos (by simp), List.drop_left, String.ofList_toList]

/-- A reference stays exactly if its component is there. -/
theorem settle_componentReference (name : String) :
    settle names (componentReference name)
      = if name ∈ names then componentReference name else .map [] := by
  have hget : Members.get? [(.str "$ref", .str (componentPath ++ name))] "$ref"
      = some (.str (componentPath ++ name)) := rfl
  unfold componentReference
  rw [settle, hget]
  dsimp only
  unfold leadsTo
  rw [componentName?_component, Option.any_some, List.contains_eq_mem]
  simp only [decide_eq_true_eq]

/-! ## Schemas of models and fields -/

/-- A description is a text, except that of a list. -/
def HasText (f : FieldSpec) : Prop := f.isArray = true ∨ ∀ d ∈ f.description, ∃ s, d = .str s

theorem leafNode_nil : LeafNode [] where
  keys := by simp
  reference := rfl
  type := by simp
  properties := rfl
  items := rfl
  enum := by simp [MaybeTexts]
  description := by simp [MaybeText]

theorem leafNode_scalar (s : ScalarType) : LeafNode s.schema where
  keys := by cases s <;> simp [ScalarType.schema, ScalarType.typeNode, ScalarType.textNode]
  reference := by cases s <;> rfl
  type := by
    intro t ht
    cases s <;> cases ht <;> exact ⟨_, rfl, by decide⟩
  properties := by cases s <;> rfl
  items := by cases s <;> rfl
  enum := by
    intro v hv
    cases s <;> cases hv
  description := by
    intro v hv
    cases s <;> cases hv

theorem settleMembers_scalar (s : ScalarType) : settleMembers names s.schema = s.schema := by
  cases s <;> simp [ScalarType.schema, ScalarType.typeNode, ScalarType.textNode, settleMembers]

/-- The node of an enumeration. -/
def enumMembers (values : List String) : Members :=
  [(.str "type", .str "string"), (.str "enum", .list (values.map .str))]

theorem leafNode_enum (values : List String) : LeafNode (enumMembers values) where
  keys := by simp [enumMembers]
  reference := rfl
  type := by
    intro t ht
    cases ht
    exact ⟨_, rfl, by decide⟩
  properties := rfl
  items := rfl
  enum := by
    intro v hv
    cases hv
    exact ⟨values, rfl⟩
  description := by
    intro v hv
    cases hv

theorem settleMembers_enum (values : List String) :
    settleMembers names (enumMembers values) = enumMembers values := by
  simp [enumMembers, settleMembers]

/-- A node gets its description unless it has none. -/
theorem withDescription_map (h : Members.get? members "$ref" = none) (description : Option Value) :
    withDescription description (.map members) = .map members
      ∨ ∃ d ∈ description, withDescription description (.map members) = .map (describe members d) := by
  cases description with
  | none => exact .inl rfl
  | some d =>
    unfold withDescription
    dsimp only
    rw [Members.contains_str, h]
    cases d.isTruthy with
    | false => exact .inl rfl
    | true => exact .inr ⟨d, rfl, rfl⟩

theorem settle_describe (h : Members.get? members "$ref" = none) (d : Value) :
    settle names (.map (describe members d))
      = .map (describe (settleMembers names members) (settle names d)) := by
  rw [settle_map (by rw [get?_describe_of_ne (by decide)]; exact h)]
  exact congrArg Value.map (settleMembers_insert members (.str "description") d)

/-- The node of a list, with its description. -/
theorem exported_list {node : Value} (h : Exported names (settle names node))
    (description : Option Value) :
    Exported names (settle names (withDescription description (listOf true node))) := by
  have hsettle : settleMembers names [(.str "type", .str "array"), (.str "items", node)]
      = [(.str "type", .str "array"), (.str "items", settle names node)] := by
    simp [settleMembers]
  have hlist : ListNode [(.str "type", .str "array"), (.str "items", settle names node)]
      (settle names node) := ⟨⟨by simp, rfl⟩, rfl, rfl, rfl, rfl⟩
  have href : Members.get? [(.str "type", .str "array"), (.str "items", node)] "$ref" = none := rfl
  obtain heq | ⟨d, -, heq⟩ := withDescription_map href description
  · show Exported names (settle names (withDescription description (.map _)))
    rw [heq, settle_map href, hsettle]
    exact .list hlist h
  · show Exported names (settle names (withDescription description (.map _)))
    rw [heq, settle_describe href, hsettle]
    exact .list (hlist.describe _) h

/-- The node of a leaf, with its description. -/
theorem exported_leaf (h : LeafNode members) (hsettle : settleMembers names members = members)
    {description : Option Value} (htext : ∀ d ∈ description, ∃ s, d = .str s) :
    Exported names (settle names (withDescription description (.map members))) := by
  obtain heq | ⟨d, hd, heq⟩ := withDescription_map h.reference description
  · rw [heq, settle_map h.reference, hsettle]
    exact .leaf h
  · obtain ⟨s, rfl⟩ := htext d hd
    rw [heq, settle_describe h.reference, hsettle, settle_scalar]
    exact .leaf (h.describe s)

/-- The node of a reference takes no description. -/
theorem exported_reference (name : String) (description : Option Value) :
    Exported names (settle names (withDescription description (componentReference name))) := by
  have hnode : withDescription description (componentReference name) = componentReference name := by
    cases description with
    | none => rfl
    | some d =>
      unfold withDescription componentReference
      dsimp only
      rw [Members.contains_str]
      simp
  rw [hnode, settle_componentReference]
  split
  · next hname => exact .reference hname
  · exact .leaf leafNode_nil

/-- The members of the schema of a model. -/
def modelMembers (m : SchemaModel) : Members :=
  [(.str "type", .str "object")] ++
    ((m.description.filter (!·.isEmpty)).map fun d => (Scalar.str "description", Value.str d)).toList ++
    [(.str "properties", .map (fieldSchemas m.fields))] ++
    (if (requiredNames m.fields).isEmpty then []
      else [(.str "required", .list ((requiredNames m.fields).map .str))])

theorem toJsonSchema_eq (m : SchemaModel) : m.toJsonSchema = .map (modelMembers m) := by
  cases m
  rw [SchemaModel.toJsonSchema]
  rfl

/-- The members of a schema that every model has, and those that none has. -/
theorem get?_modelMembers (m : SchemaModel) :
    Members.get? (modelMembers m) "type" = some (.str "object")
      ∧ Members.get? (modelMembers m) "properties" = some (.map (fieldSchemas m.fields))
      ∧ Members.get? (modelMembers m) "$ref" = none
      ∧ Members.get? (modelMembers m) "items" = none
      ∧ Members.get? (modelMembers m) "enum" = none := by
  unfold modelMembers
  cases m.description.filter (!·.isEmpty) <;> cases (requiredNames m.fields).isEmpty <;> simp

theorem get?_modelMembers_required (m : SchemaModel) :
    Members.get? (modelMembers m) "required"
      = if (requiredNames m.fields).isEmpty then none
        else some (.list ((requiredNames m.fields).map .str)) := by
  unfold modelMembers
  cases m.description.filter (!·.isEmpty) <;> cases (requiredNames m.fields).isEmpty <;> simp

theorem get?_modelMembers_description (m : SchemaModel) :
    Members.get? (modelMembers m) "description"
      = (m.description.filter (!·.isEmpty)).map Value.str := by
  unfold modelMembers
  cases m.description.filter (!·.isEmpty) <;> cases (requiredNames m.fields).isEmpty <;> simp

theorem keys_modelMembers (m : SchemaModel) : ∀ e ∈ modelMembers m, ∃ s, e.1 = .str s := by
  unfold modelMembers
  cases m.description.filter (!·.isEmpty) <;> cases (requiredNames m.fields).isEmpty <;> simp

theorem fieldSchemas_eq_map (fields : List (String × FieldSpec)) :
    fieldSchemas fields = fields.map fun f => (.str f.1, f.2.toJsonSchema) := by
  induction fields with
  | nil => rfl
  | cons f rest ih =>
    obtain ⟨name, field⟩ := f
    rw [fieldSchemas, ih]
    rfl

theorem get?_fieldSchemas (fields : List (String × FieldSpec)) (name : String) :
    Members.get? (fieldSchemas fields) name = (Named.get? fields name).map FieldSpec.toJsonSchema := by
  rw [fieldSchemas_eq_map]
  have hget := Members.get?_members (fields.map fun f => (f.1, f.2.toJsonSchema)) name
  rw [List.map_map, Named.get?_map] at hget
  exact hget

/-- The schema of a field is a mapping. -/
theorem isMap_toJsonSchema (f : FieldSpec) : f.toJsonSchema.isMap = true := by
  have hlist : ∀ a node, node.isMap = true → (listOf a node).isMap = true := by
    intro a node h
    cases a with
    | false => exact h
    | true => rfl
  have hdescription : ∀ d node, node.isMap = true → (withDescription d node).isMap = true := by
    intro d node h
    unfold withDescription
    split
    · split <;> rfl
    · exact h
  obtain ⟨scalar, values, model, ref, isOptional, isArray, description⟩ := f
  cases model with
  | some m =>
    rw [FieldSpec.toJsonSchema, toJsonSchema_eq]
    exact hdescription _ _ (hlist _ _ rfl)
  | none =>
    cases values with
    | some values =>
      rw [FieldSpec.toJsonSchema]
      exact hdescription _ _ (hlist _ _ rfl)
    | none =>
      cases ref with
      | some ref =>
        rw [FieldSpec.toJsonSchema]
        exact hdescription _ _ (hlist _ _ rfl)
      | none =>
        rw [FieldSpec.toJsonSchema]
        exact hdescription _ _ (hlist _ _ rfl)

/-- The properties of a settled model: its fields, or none at all if one is named `$ref`. -/
def settledProperties (names : List String) (fields : List (String × FieldSpec)) : Members :=
  if (Members.get? (fieldSchemas fields) "$ref").isNone then
    fields.map fun f => (.str f.1, settle names f.2.toJsonSchema)
  else []

theorem settle_properties (fields : List (String × FieldSpec)) :
    settle names (.map (fieldSchemas fields)) = .map (settledProperties names fields) := by
  unfold settledProperties
  cases hget : Members.get? (fieldSchemas fields) "$ref" with
  | none =>
    rw [settle_map hget, settleMembers_eq_map, fieldSchemas_eq_map, List.map_map]
    rfl
  | some target =>
    rw [settle, hget]
    dsimp only
    -- what stands under the name is a schema, and no pointer
    have hmap : target.isMap = true := by
      obtain ⟨k, hk⟩ := Members.mem_of_find? hget
      rw [fieldSchemas_eq_map] at hk
      obtain ⟨f, -, hf⟩ := List.mem_map.mp hk
      rw [← (Prod.mk.inj hf).2]
      exact isMap_toJsonSchema f.2
    cases target with
    | map members => rfl
    | scalar leaf => cases hmap
    | list items => cases hmap
    | set items => cases hmap

/-- The settled schema of a model is an object. -/
theorem objectNode_model (m : SchemaModel) :
    ObjectNode (settleMembers names (modelMembers m)) (settledProperties names m.fields) := by
  obtain ⟨htype, hproperties, href, hitems, henum⟩ := get?_modelMembers m
  refine ⟨⟨?_, ?_⟩, ?_, ?_, ?_, ?_, ?_, ?_⟩
  · intro e he
    rw [settleMembers_eq_map] at he
    obtain ⟨e', he', rfl⟩ := List.mem_map.mp he
    exact keys_modelMembers m e' he'
  · rw [get?_settleMembers, href]
    rfl
  · rw [get?_settleMembers, htype]
    simp
  · rw [get?_settleMembers, hproperties, Option.map_some, settle_properties]
  · rw [get?_settleMembers, hitems]
    rfl
  · rw [get?_settleMembers, henum]
    rfl
  · intro v hv
    rw [get?_settleMembers, get?_modelMembers_required] at hv
    split at hv
    · cases hv
    · rw [Option.map_some, settle_texts] at hv
      exact ⟨_, (Option.some.inj hv).symm⟩
  · intro v hv
    rw [get?_settleMembers, get?_modelMembers_description, Option.map_map] at hv
    obtain ⟨s, -, hs⟩ := Option.map_eq_some_iff.mp hv
    exact ⟨s, by rw [← hs]; exact settle_scalar _⟩

theorem settle_model (m : SchemaModel) :
    settle names m.toJsonSchema = .map (settleMembers names (modelMembers m)) := by
  rw [toJsonSchema_eq, settle_map (get?_modelMembers m).2.2.1]

theorem mem_modelsOfFields {fields : List (String × FieldSpec)} {e : String × SchemaModel} :
    e ∈ modelsOfFields fields ↔ ∃ f ∈ fields, e ∈ modelsOfField f.2 := by
  induction fields with
  | nil =>
    rw [modelsOfFields]
    simp
  | cons f rest ih =>
    obtain ⟨name, field⟩ := f
    rw [modelsOfFields, List.mem_append, ih]
    simp

/-- A model holds itself, and the models of its fields. -/
theorem mem_modelsOf {m : SchemaModel} {e : String × SchemaModel} :
    e ∈ modelsOf m ↔ e = (m.name, m) ∨ ∃ f ∈ m.fields, e ∈ modelsOfField f.2 := by
  obtain ⟨name, description, fields⟩ := m
  rw [modelsOf, List.mem_cons, mem_modelsOfFields]

/-- The models in a model have texts as descriptions, except for those of lists. -/
def HasTexts (models : List (String × SchemaModel)) : Prop :=
  ∀ e ∈ models, ∀ f ∈ e.2.fields, HasText f.2

/-- The node of a leaf, of a single value or of a list. -/
theorem exported_listOf_leaf (h : LeafNode members)
    (hsettle : settleMembers names members = members) {isArray : Bool} {description : Option Value}
    (htext : isArray = true ∨ ∀ d ∈ description, ∃ s, d = .str s) :
    Exported names (settle names (withDescription description (listOf isArray (.map members)))) := by
  cases isArray with
  | true =>
    refine exported_list ?_ description
    rw [settle_map h.reference, hsettle]
    exact .leaf h
  | false => exact exported_leaf h hsettle (htext.resolve_left (by decide))

mutual

/-- **The settled schema of a field is an exported schema.** -/
theorem exported_field : (f : FieldSpec) → HasText f → HasTexts (modelsOfField f) →
    Exported names (settle names f.toJsonSchema)
  | ⟨_, _, some model, _, _, isArray, description⟩, htext, hmodels => by
    have hproperties := exported_properties model (by rwa [modelsOfField] at hmodels)
    have hobject : ObjectNode (settleMembers names (modelMembers model))
        (settledProperties names model.fields) := objectNode_model model
    rw [FieldSpec.toJsonSchema]
    cases isArray with
    | true =>
      refine exported_list ?_ description
      rw [settle_model]
      exact .object hobject hproperties
    | false =>
      have htext := htext.resolve_left (by simp)
      have href := (get?_modelMembers model).2.2.1
      rw [toJsonSchema_eq]
      obtain heq | ⟨d, hd, heq⟩ := withDescription_map href description
      · show Exported names (settle names (withDescription description (.map (modelMembers model))))
        rw [heq, settle_map href]
        exact .object hobject hproperties
      · obtain ⟨s, rfl⟩ := htext d hd
        show Exported names (settle names (withDescription description (.map (modelMembers model))))
        rw [heq, settle_describe href, settle_scalar]
        exact .object (hobject.describe s) hproperties
  | ⟨_, some values, none, _, _, isArray, description⟩, htext, _ => by
    rw [FieldSpec.toJsonSchema]
    exact exported_listOf_leaf (leafNode_enum values) (settleMembers_enum values) htext
  | ⟨_, none, none, some ref, _, isArray, description⟩, htext, _ => by
    rw [FieldSpec.toJsonSchema]
    cases isArray with
    | true =>
      refine exported_list ?_ description
      exact exported_reference ref none
    | false => exact exported_reference ref description
  | ⟨scalar, none, none, none, _, isArray, description⟩, htext, _ => by
    rw [FieldSpec.toJsonSchema]
    exact exported_listOf_leaf (leafNode_scalar _) (settleMembers_scalar _) htext

theorem exported_properties : (m : SchemaModel) → HasTexts (modelsOf m) →
    ∀ p ∈ settledProperties names m.fields, Exported names p.2
  | ⟨name, description, fields⟩, hmodels => by
    rw [modelsOf] at hmodels
    have htexts : ∀ f ∈ fields, HasText f.2 := hmodels _ List.mem_cons_self
    have hfields := exported_fields fields htexts fun e he => hmodels e (List.mem_cons_of_mem _ he)
    intro p hp
    unfold settledProperties at hp
    split at hp
    · obtain ⟨f, hf, rfl⟩ := List.mem_map.mp hp
      exact hfields f hf
    · cases hp

theorem exported_fields : (fields : List (String × FieldSpec)) →
    (∀ f ∈ fields, HasText f.2) → HasTexts (modelsOfFields fields) →
    ∀ f ∈ fields, Exported names (settle names f.2.toJsonSchema)
  | [], _, _ => fun f hf => absurd hf List.not_mem_nil
  | (name, field) :: rest, htext, hmodels => by
    rw [modelsOfFields] at hmodels
    have hfield := exported_field field (htext _ List.mem_cons_self)
      fun e he => hmodels e (List.mem_append_left _ he)
    have hrest := exported_fields rest (fun f hf => htext f (List.mem_cons_of_mem _ hf))
      fun e he => hmodels e (List.mem_append_right _ he)
    intro f hf
    rcases List.mem_cons.mp hf with rfl | hf
    · exact hfield
    · exact hrest f hf

end

end ApiContract.Export
