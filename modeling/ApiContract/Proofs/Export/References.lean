import ApiContract.Proofs.Export.Reading
import ApiContract.Proofs.Export.Worklist

/-!
# The reference nodes of an export

A mapping with a member `$ref` is taken for a reference, and what stands beside is not looked at. In
the trees of an export there are three kinds of such nodes: references to models, the properties of a
model that has a field of that name, and what is inside the descriptions of fields.

* **`mem_refNodes_map`** / **`mem_refNodes_withDescription`** — the nodes of a tree, part by part;
* **`refNodes_model`** / **`refNodes_field`** — where the nodes of a schema come from;
* **`refNodes_operation`** / **`refNodes_tree`** — and those of the whole document.
-/

namespace ApiContract.Export

open Contract Schema

mutual

/-- The nodes of a tree that are taken for references, in document order. -/
def refNodes : Value → List Members
  | .map members =>
    if (Members.get? members "$ref").isSome then [members] else refNodesOfMembers members
  | .list items => refNodesOfItems items
  | .scalar _ | .set _ => []

def refNodesOfMembers : List (Scalar × Value) → List Members
  | [] => []
  | (_, v) :: rest => refNodes v ++ refNodesOfMembers rest

def refNodesOfItems : List Value → List Members
  | [] => []
  | v :: rest => refNodes v ++ refNodesOfItems rest

end

variable {node members : Members}

@[simp] theorem refNodes_scalar (leaf : Scalar) : refNodes (.scalar leaf) = [] := by
  rw [refNodes]

theorem mem_refNodesOfMembers {members : Members} :
    node ∈ refNodesOfMembers members ↔ ∃ m ∈ members, node ∈ refNodes m.2 := by
  induction members with
  | nil => simp [refNodesOfMembers]
  | cons m rest ih =>
    obtain ⟨k, v⟩ := m
    rw [refNodesOfMembers, List.mem_append, ih, List.exists_mem_cons_iff]

theorem mem_refNodesOfItems {items : List Value} :
    node ∈ refNodesOfItems items ↔ ∃ v ∈ items, node ∈ refNodes v := by
  induction items with
  | nil => simp [refNodesOfItems]
  | cons v rest ih => rw [refNodesOfItems, List.mem_append, ih, List.exists_mem_cons_iff]

theorem mem_refNodes_list {items : List Value} :
    node ∈ refNodes (.list items) ↔ ∃ v ∈ items, node ∈ refNodes v := by
  rw [refNodes]
  exact mem_refNodesOfItems

/-- The nodes of a mapping without `$ref` are those of its members. -/
theorem refNodes_map (h : Members.get? members "$ref" = none) :
    refNodes (.map members) = refNodesOfMembers members := by
  rw [refNodes, h]
  rfl

/-- A node of a mapping is the mapping itself, or in one of its members. -/
theorem mem_refNodes_map (h : node ∈ refNodes (.map members)) :
    (node = members ∧ (Members.get? members "$ref").isSome)
      ∨ ∃ m ∈ members, node ∈ refNodes m.2 := by
  rw [refNodes] at h
  split at h
  · next href => exact .inl ⟨List.mem_singleton.mp h, href⟩
  · exact .inr (mem_refNodesOfMembers.mp h)

/-- A node of a mapping without `$ref` is in one of its members. -/
theorem mem_refNodes_of_none (href : Members.get? members "$ref" = none)
    (h : node ∈ refNodes (.map members)) : ∃ m ∈ members, node ∈ refNodes m.2 := by
  rw [refNodes_map href] at h
  exact mem_refNodesOfMembers.mp h

mutual

/-- What the references of a tree lead to is what stands under `$ref` in its nodes. -/
theorem targets_eq : (v : Value) →
    targets v = (refNodes v).filterMap fun node => Members.get? node "$ref"
  | .scalar leaf => by rw [targets, refNodes]; rfl
  | .set items => by rw [targets, refNodes]; rfl
  | .list items => by rw [targets, refNodes, targetsOfItems_eq items]
  | .map members => by
    rw [targets, refNodes]
    cases href : Members.get? members "$ref" with
    | some target =>
      simp [href]
    | none => exact targetsOfMembers_eq members

theorem targetsOfMembers_eq : (members : List (Scalar × Value)) → targetsOfMembers members
      = (refNodesOfMembers members).filterMap fun node => Members.get? node "$ref"
  | [] => rfl
  | (k, v) :: rest => by
    rw [targetsOfMembers, refNodesOfMembers, List.filterMap_append, targets_eq v,
      targetsOfMembers_eq rest]

theorem targetsOfItems_eq : (items : List Value) → targetsOfItems items
      = (refNodesOfItems items).filterMap fun node => Members.get? node "$ref"
  | [] => rfl
  | v :: rest => by
    rw [targetsOfItems, refNodesOfItems, List.filterMap_append, targets_eq v, targetsOfItems_eq rest]

end

/-! ## Parts of a schema -/

theorem mem_refNodes_insert {key : Scalar} {v : Value}
    (h : node ∈ refNodesOfMembers (Members.insert members key v)) :
    node ∈ refNodesOfMembers members ∨ node ∈ refNodes v := by
  induction members with
  | nil =>
    rw [Members.insert, refNodesOfMembers] at h
    exact (List.mem_append.mp h).symm
  | cons m rest ih =>
    obtain ⟨k, w⟩ := m
    rw [Members.insert] at h
    rw [refNodesOfMembers, List.mem_append]
    split at h
    · rw [refNodesOfMembers, List.mem_append] at h
      rcases h with h | h
      · exact .inr h
      · exact .inl (.inr h)
    · rw [refNodesOfMembers, List.mem_append] at h
      rcases h with h | h
      · exact .inl (.inl h)
      · exact (ih h).imp_left .inr

/-- What is written in the place of a value without nodes takes no node away. -/
theorem mem_insert_of_mem_refNodes {key : String} {v : Value}
    (hold : ∀ w, Members.get? members key = some w → refNodes w = [])
    (h : node ∈ refNodesOfMembers members) :
    node ∈ refNodesOfMembers (Members.insert members (.str key) v) := by
  induction members with
  | nil =>
    rw [refNodesOfMembers] at h
    cases h
  | cons m rest ih =>
    obtain ⟨k, w⟩ := m
    rw [refNodesOfMembers, List.mem_append] at h
    rw [Members.insert]
    split
    · next hkey =>
      have hw : refNodes w = [] := hold w (by rw [Members.get?_cons, if_pos hkey])
      rw [refNodesOfMembers, List.mem_append]
      rcases h with h | h
      · rw [hw] at h
        cases h
      · exact .inr h
    · next hkey =>
      rw [refNodesOfMembers, List.mem_append]
      refine h.imp_right (ih fun w hw => hold w ?_)
      rw [Members.get?_cons, if_neg hkey, hw]

/-- A mapping with a member `$ref` gets no description. -/
theorem withDescription_reference (h : (Members.get? members "$ref").isSome)
    (description : Option Value) :
    withDescription description (.map members) = .map members := by
  cases description with
  | none => rfl
  | some d =>
    unfold withDescription
    dsimp only
    rw [Members.contains_str, h, Bool.not_true, Bool.and_false]
    rfl

theorem refNodes_describe (h : Members.get? members "$ref" = none) (d : Value) :
    refNodes (.map (describe members d))
      = refNodesOfMembers (Members.insert members (.str "description") d) :=
  refNodes_map ((get?_describe_of_ne (by decide)).trans h)

/-- A description takes no node away, if there is none but a text before. -/
theorem mem_withDescription_of_mem_refNodes {description : Option Value}
    (hold : ∀ w, Members.get? members "description" = some w → refNodes w = [])
    (h : node ∈ refNodes (.map members)) :
    node ∈ refNodes (withDescription description (.map members)) := by
  cases href : Members.get? members "$ref" with
  | some target => rwa [withDescription_reference (by rw [href]; rfl)]
  | none =>
    obtain heq | ⟨d, -, heq⟩ := withDescription_map href description
    · rwa [heq]
    · rw [refNodes_map href] at h
      rw [heq, refNodes_describe href]
      exact mem_insert_of_mem_refNodes hold h

/-- A description adds its own nodes at most. -/
theorem mem_refNodes_withDescription {description : Option Value}
    (h : node ∈ refNodes (withDescription description (.map members))) :
    node ∈ refNodes (.map members) ∨ ∃ d ∈ description, node ∈ refNodes d := by
  cases href : Members.get? members "$ref" with
  | some target =>
    rw [withDescription_reference (by rw [href]; rfl)] at h
    exact .inl h
  | none =>
    obtain heq | ⟨d, hd, heq⟩ := withDescription_map href description
    · rw [heq] at h
      exact .inl h
    · rw [heq, refNodes_describe href] at h
      rw [refNodes_map href]
      exact (mem_refNodes_insert h).imp_right fun h => ⟨d, hd, h⟩

theorem refNodes_listOf (isArray : Bool) (v : Value) :
    refNodes (listOf isArray v) = refNodes v := by
  cases isArray with
  | false => rfl
  | true =>
    show refNodes (.map [(.str "type", .str "array"), (.str "items", v)]) = _
    rw [refNodes_map rfl]
    simp [refNodesOfMembers]

/-- Schemas are mappings, also of lists. -/
theorem mem_refNodes_described {isArray : Bool} {description : Option Value}
    (h : node ∈ refNodes (withDescription description (listOf isArray (.map members)))) :
    node ∈ refNodes (.map members) ∨ ∃ d ∈ description, node ∈ refNodes d := by
  rw [← refNodes_listOf isArray]
  cases isArray with
  | false => exact mem_refNodes_withDescription h
  | true => exact mem_refNodes_withDescription h

theorem refNodes_scalarType (s : ScalarType) : refNodes (.map s.schema) = [] := by
  cases s <;> rfl

@[simp] theorem refNodes_texts (items : List String) :
    refNodes (.list (items.map .str)) = [] := by
  rw [List.eq_nil_iff_forall_not_mem]
  intro node h
  obtain ⟨v, hv, h⟩ := mem_refNodes_list.mp h
  obtain ⟨s, -, rfl⟩ := List.mem_map.mp hv
  rw [refNodes_scalar] at h
  cases h

theorem refNodes_enum (values : List String) : refNodes (.map (enumMembers values)) = [] := by
  rw [refNodes_map rfl]
  simp [enumMembers, refNodesOfMembers]

/-- The nodes of a model's schema are those of its properties. -/
theorem refNodes_toJsonSchema (m : SchemaModel) :
    refNodes m.toJsonSchema = refNodes (.map (fieldSchemas m.fields)) := by
  rw [toJsonSchema_eq, refNodes_map (get?_modelMembers m).2.2.1]
  unfold modelMembers
  cases m.description.filter (!·.isEmpty) <;> cases (requiredNames m.fields).isEmpty <;>
    simp [refNodesOfMembers]

/-- The schema of a field has the nodes of its model. -/
theorem mem_refNodes_field_of_model {f : FieldSpec} {m : SchemaModel} (hmodel : f.model = some m)
    (h : node ∈ refNodes m.toJsonSchema) : node ∈ refNodes f.toJsonSchema := by
  obtain ⟨scalar, values, model, ref, isOptional, isArray, description⟩ := f
  dsimp only at hmodel
  subst hmodel
  rw [FieldSpec.toJsonSchema]
  rw [← refNodes_listOf isArray] at h
  cases isArray with
  | true => exact mem_withDescription_of_mem_refNodes nofun h
  | false =>
    have h : node ∈ refNodes m.toJsonSchema := h
    show node ∈ refNodes (withDescription description m.toJsonSchema)
    rw [toJsonSchema_eq] at h ⊢
    refine mem_withDescription_of_mem_refNodes (fun w hw => ?_) h
    rw [get?_modelMembers_description] at hw
    obtain ⟨s, -, rfl⟩ := Option.map_eq_some_iff.mp hw
    exact refNodes_scalar _

/-! ## Schemas of models -/

/-- Where a node in the schemas of some models comes from. -/
inductive Origin (models : List (String × SchemaModel)) (node : Members) : Prop where
  /-- A field names a model. -/
  | reference (name : String) (heq : node = [(.str "$ref", .str (componentPath ++ name))])
  /-- A model has a field named `$ref`. -/
  | properties (e : String × SchemaModel) (he : e ∈ models) (heq : node = fieldSchemas e.2.fields)
      (href : (Members.get? node "$ref").isSome)
  /-- A field has a description with the node in it. -/
  | description (e : String × SchemaModel) (he : e ∈ models) (f : String × FieldSpec)
      (hf : f ∈ e.2.fields) (d : Value) (hd : d ∈ f.2.description) (hnode : node ∈ refNodes d)

theorem Origin.mono {models more : List (String × SchemaModel)} (h : Origin models node)
    (hmore : ∀ e ∈ models, e ∈ more) : Origin more node := by
  cases h with
  | reference name heq => exact .reference name heq
  | properties e he heq href => exact .properties e (hmore e he) heq href
  | description e he f hf d hd hnode => exact .description e (hmore e he) f hf d hd hnode

mutual

theorem refNodes_field : (f : FieldSpec) → node ∈ refNodes f.toJsonSchema →
    Origin (modelsOfField f) node ∨ ∃ d ∈ f.description, node ∈ refNodes d
  | ⟨_, _, some model, _, _, isArray, description⟩, h => by
    rw [FieldSpec.toJsonSchema, toJsonSchema_eq] at h
    refine (mem_refNodes_described h).imp_left fun h => ?_
    rw [modelsOfField]
    exact refNodes_model model (toJsonSchema_eq model ▸ h)
  | ⟨_, some values, none, _, _, isArray, description⟩, h => by
    rw [FieldSpec.toJsonSchema] at h
    refine (mem_refNodes_described h).imp_left fun h => ?_
    have h : node ∈ refNodes (.map (enumMembers values)) := h
    rw [refNodes_enum] at h
    cases h
  | ⟨_, none, none, some ref, _, isArray, description⟩, h => by
    rw [FieldSpec.toJsonSchema] at h
    refine (mem_refNodes_described h).imp_left fun h => ?_
    exact .reference ref (List.mem_singleton.mp h)
  | ⟨scalar, none, none, none, _, isArray, description⟩, h => by
    rw [FieldSpec.toJsonSchema] at h
    refine (mem_refNodes_described h).imp_left fun h => ?_
    rw [refNodes_scalarType] at h
    cases h

/-- **Where a node in the schema of a model comes from.** -/
theorem refNodes_model : (m : SchemaModel) → node ∈ refNodes m.toJsonSchema →
    Origin (modelsOf m) node
  | ⟨name, description, fields⟩, h => by
    rw [refNodes_toJsonSchema] at h
    rw [modelsOf]
    rcases mem_refNodes_map h with ⟨heq, href⟩ | h
    · exact .properties _ List.mem_cons_self heq (heq ▸ href)
    · obtain h | ⟨f, hf, d, hd, h⟩ := refNodes_fields fields (mem_refNodesOfMembers.mpr h)
      · exact h.mono fun e he => List.mem_cons_of_mem _ he
      · exact .description _ List.mem_cons_self f hf d hd h

theorem refNodes_fields : (fields : List (String × FieldSpec)) →
    node ∈ refNodesOfMembers (fieldSchemas fields) →
    Origin (modelsOfFields fields) node ∨ ∃ f ∈ fields, ∃ d ∈ f.2.description, node ∈ refNodes d
  | [], h => by
    rw [fieldSchemas, refNodesOfMembers] at h
    cases h
  | (name, field) :: rest, h => by
    rw [fieldSchemas, refNodesOfMembers, List.mem_append] at h
    rw [modelsOfFields]
    rcases h with h | h
    · rcases refNodes_field field h with h | h
      · exact .inl (h.mono fun e he => List.mem_append_left _ he)
      · exact .inr ⟨(name, field), List.mem_cons_self, h⟩
    · rcases refNodes_fields rest h with h | ⟨f, hf, h⟩
      · exact .inl (h.mono fun e he => List.mem_append_right _ he)
      · exact .inr ⟨f, List.mem_cons_of_mem _ hf, h⟩

end

/-! ## The whole document -/

theorem refNodes_memberIfText {name : String} {text : Option String} {m : Scalar × Value}
    (hm : m ∈ memberIfText name text) : refNodes m.2 = [] := by
  obtain ⟨s, -, rfl⟩ := Option.map_eq_some_iff.mp (Option.mem_toList.mp hm)
  exact refNodes_scalar _

theorem eq_of_mem_memberUnlessEmpty {name : String} {items : List Value} {m : Scalar × Value}
    (hm : m ∈ memberUnlessEmpty name items) : m = member name (.list items) := by
  unfold memberUnlessEmpty at hm
  split at hm
  · cases hm
  · exact List.mem_singleton.mp hm

theorem refNodes_parameter (name location : String) (required : Bool) (schema : Value) :
    refNodes (parameter name location required schema) = refNodes schema := by
  rw [parameter, refNodes_map rfl]
  simp [refNodesOfMembers, member]

/-- A parameter has the schema of a field of the input, or a schema without nodes. -/
theorem mem_refNodes_parameters {spec : OperationSpec} {v : Value} (hv : v ∈ parameters spec)
    (h : node ∈ refNodes v) :
    ∃ m ∈ spec.input, ∃ f ∈ m.fields, node ∈ refNodes f.2.toJsonSchema := by
  have hfield : ∀ f ∈ (spec.input.map (·.fields)).getD [], node ∈ refNodes f.2.toJsonSchema →
      ∃ m ∈ spec.input, ∃ f ∈ m.fields, node ∈ refNodes f.2.toJsonSchema := by
    intro f hf hnode
    cases hinput : spec.input with
    | none =>
      rw [hinput] at hf
      cases hf
    | some m =>
      rw [hinput] at hf
      exact ⟨m, rfl, f, hf, hnode⟩
  unfold parameters at hv
  rcases List.mem_append.mp hv with hv | hv
  · obtain ⟨name, -, rfl⟩ := List.mem_map.mp hv
    dsimp only at h
    rw [refNodes_parameter] at h
    cases hget : Named.get? ((spec.input.map (·.fields)).getD []) name with
    | none =>
      rw [hget] at h
      cases h
    | some f =>
      rw [hget] at h
      exact hfield (name, f) (Named.mem_of_get? hget) h
  · dsimp only at hv
    split at hv
    · obtain ⟨f, hf, rfl⟩ := List.mem_map.mp hv
      rw [refNodes_parameter] at h
      exact hfield f (List.mem_filter.mp hf).1 h
    · cases hv

/-- A node of an operation is a reference to a component, or in the schema of a parameter. -/
theorem refNodes_operation {spec : OperationSpec} (h : node ∈ refNodes (operationObject spec)) :
    (∃ name, node = [(.str "$ref", .str (componentPath ++ name))])
      ∨ ∃ m ∈ spec.input, ∃ f ∈ m.fields, node ∈ refNodes f.2.toJsonSchema := by
  obtain ⟨m, hm, h⟩ := mem_refNodes_of_none (get?_operationObject spec).1 h
  have hleaf {P : Prop} (hnone : refNodes m.2 = []) : P := by
    rw [hnone] at h
    cases h
  simp only [List.mem_append, or_assoc] at hm
  rcases hm with hm | hm | hm | hm | hm | hm | hm | hm | hm
  · exact hleaf (by rw [List.mem_singleton.mp hm]; rfl)
  · exact hleaf (refNodes_memberIfText hm)
  · exact hleaf (refNodes_memberIfText hm)
  · refine hleaf ?_
    rw [eq_of_mem_memberUnlessEmpty hm]
    exact refNodes_texts _
  · -- the body
    unfold requestBody at hm
    split at hm
    · rw [List.mem_singleton.mp hm] at h
      exact .inl ⟨_, List.mem_singleton.mp h⟩
    · cases hm
  · -- the parameters
    rw [eq_of_mem_memberUnlessEmpty hm] at h
    obtain ⟨v, hv, h⟩ := mem_refNodes_list.mp h
    exact .inr (mem_refNodes_parameters hv h)
  · rcases List.mem_cons.mp hm with rfl | hm
    · -- the responses
      have h : node ∈ refNodes (responses spec) := h
      unfold responses at h
      cases hout : spec.output.isSome with
      | true =>
        rw [hout] at h
        exact .inl ⟨_, List.mem_singleton.mp h⟩
      | false =>
        rw [hout] at h
        cases h
    · -- who may call
      rw [List.mem_singleton.mp hm] at h
      have h : node ∈ refNodes (security spec) := h
      unfold security at h
      split at h
      · cases h
      · cases h
  · split at hm
    · exact hleaf (by rw [List.mem_singleton.mp hm]; rfl)
    · cases hm
  · exact hleaf (by rw [List.mem_singleton.mp hm]; rfl)

variable {placed : List OperationSpec}

/-- A node that is kept or emptied for its own sake: a reference to a model, something under `$ref`
that is no pointer, or a node inside a description. -/
inductive NodeKind (placed : List OperationSpec) (node : Members) : Prop where
  | reference (name : String) (heq : node = [(.str "$ref", .str (componentPath ++ name))])
  | noPointer (target : Value) (href : Members.get? node "$ref" = some target)
      (hstr : target.str? = none)
  | description (e : String × SchemaModel) (he : e ∈ knownModels placed) (f : String × FieldSpec)
      (hf : f ∈ e.2.fields) (d : Value) (hd : d ∈ f.2.description) (hnode : node ∈ refNodes d)

theorem str?_of_isMap {v : Value} (h : v.isMap = true) : v.str? = none := by
  cases v with
  | map members => rfl
  | scalar leaf => cases h
  | list items => cases h
  | set items => cases h

/-- A mapping of mappings has no pointer. -/
theorem nodeKind_of_maps (href : (Members.get? node "$ref").isSome)
    (h : ∀ m ∈ node, m.2.isMap = true) : NodeKind placed node := by
  obtain ⟨target, htarget⟩ := Option.isSome_iff_exists.mp href
  exact .noPointer target htarget (str?_of_isMap (h _ (Members.mem_of_get? htarget)))

theorem Origin.nodeKind {models : List (String × SchemaModel)} (h : Origin models node)
    (hmodels : ∀ e ∈ models, e ∈ knownModels placed) : NodeKind placed node := by
  cases h with
  | reference name heq => exact .reference name heq
  | properties e he heq href =>
    refine nodeKind_of_maps href fun m hm => ?_
    rw [heq, fieldSchemas_eq_map] at hm
    obtain ⟨f, -, rfl⟩ := List.mem_map.mp hm
    exact isMap_toJsonSchema f.2
  | description e he f hf d hd hnode => exact .description e (hmodels e he) f hf d hd hnode

/-- **The reference nodes of the exported document.** -/
theorem refNodes_tree {tree : Value} (htree : IsTree placed tree) (h : node ∈ refNodes tree) :
    NodeKind placed node := by
  rcases htree with rfl | ⟨e, he, rfl⟩
  · rcases mem_refNodes_map h with ⟨rfl, href⟩ | ⟨item, hitem, h⟩
    · refine nodeKind_of_maps href fun m hm => ?_
      obtain ⟨path, -, rfl⟩ := List.mem_map.mp hm
      rfl
    · obtain ⟨path, -, rfl⟩ := List.mem_map.mp hitem
      rcases mem_refNodes_map h with ⟨rfl, href⟩ | ⟨m, hm, h⟩
      · refine nodeKind_of_maps href fun m hm => ?_
        obtain ⟨spec, -, rfl⟩ := List.mem_map.mp hm
        rfl
      · obtain ⟨spec, hspec, rfl⟩ := List.mem_map.mp hm
        have hspec := (List.mem_filter.mp hspec).1
        rcases refNodes_operation h with ⟨name, heq⟩ | ⟨m, hm, f, hf, h⟩
        · exact .reference name heq
        · have hown : m ∈ ownModels spec := List.mem_append_left _ (Option.mem_toList.mpr hm)
          have hknown : ∀ e ∈ modelsOf m, e ∈ knownModels placed :=
            fun e he => mem_knownModels hspec hown he
          rcases refNodes_field f.2 h with h | ⟨d, hd, h⟩
          · refine h.nodeKind fun e he => hknown e ?_
            exact mem_modelsOf.mpr (.inr ⟨f, hf, he⟩)
          · exact .description _ (hknown _ (mem_modelsOf.mpr (.inl rfl))) f hf d hd h
  · rcases mem_components he with ⟨spec, hspec, -, m, hm, heq⟩ | ⟨m, hm, heq⟩
    · rw [heq] at h
      exact (refNodes_model m h).nodeKind fun e he => mem_knownModels hspec hm he
    · rw [heq] at h
      refine (refNodes_model m h).nodeKind fun e he => ?_
      obtain ⟨spec, hspec, hm⟩ := List.mem_flatMap.mp hm
      obtain ⟨own, hown, hm⟩ := List.mem_flatMap.mp hm
      exact mem_knownModels hspec hown (modelsOf_trans own _ hm e he)

end ApiContract.Export
