import ApiContract.Proofs.Export.Rebuilt
import ApiContract.Proofs.Naming
import ApiContract.Proofs.Schema.Built

/-!
# Models and their schemas

The schema that a model is projected to says all of the model that a schema can say: the model that
is built from it has the same schema, whatever it is named and with no document at hand. Names of
nested models are made anew, a reference stays a field that only names its target, and a value of any
kind comes back as one of unknown type, which is written alike.

* **`rereads_leaf`** / **`rereads_reference`** / **`rereads_nested`** / **`rereads_list`** — fields.
* **`rereadsModel`** — models, by recursion on what the builder gives.
* **`projection_idempotent`** — the headline.
-/

namespace ApiContract.Schema

open Contract Export Drift

variable {fuel : Nat} {c : Context} {property parent : String} {required : Bool}
  {f : FieldSpec} {m : SchemaModel}

/-! ## Statements -/

/-- What is read of the schema of a field: a field with the same schema, that is optional unless it
is required. -/
structure Reread (required : Bool) (f f' : FieldSpec) : Prop where
  node : typeNode f' = typeNode f
  schema : f'.toJsonSchema = f.toJsonSchema
  isArray : f'.isArray = f.isArray
  isOptional : f'.isOptional = !required

/-- With three steps for each node, and without a document, the schema of a field is read. -/
def Rereads (f : FieldSpec) : Prop :=
  ∀ fuel c property required parent, c.document = .map [] → 3 * f.toJsonSchema.size ≤ fuel →
    ∃ f', fieldWithin fuel c f.toJsonSchema property required parent = .ok f' ∧ Reread required f f'

/-- The type of a field is read where it is required, as the item of a list is. -/
def RereadsType (f : FieldSpec) : Prop :=
  ∀ fuel c property parent, c.document = .map [] → 3 * (typeNode f).size ≤ fuel →
    ∃ item, fieldWithin fuel c (typeNode f) property true parent = .ok item
      ∧ typeNode item = typeNode f ∧ item.isArray = false

/-- A model is read one step later than a field, and a property two steps later still. -/
def RereadsModel (m : SchemaModel) : Prop :=
  ∀ fuel c name, c.document = .map [] → 3 * m.toJsonSchema.size ≤ fuel + 2 →
    ∃ m', modelWithin fuel c m.toJsonSchema name = .ok m' ∧ m'.toJsonSchema = m.toJsonSchema
      ∧ m'.description = m.description.filter (!·.isEmpty)

/-- A single field without a description is its type. -/
theorem RereadsType.of_rereads (isOptional : Bool)
    (h : Rereads { f with isOptional, isArray := false, description := none }) : RereadsType f := by
  have hnode := typeNode_eq f isOptional false none
  have hschema : ({ f with isOptional, isArray := false, description := none } : FieldSpec).toJsonSchema
      = typeNode f := by
    rw [toJsonSchema_eq_typeNode, hnode]
    cases typeNode f <;> rfl
  intro fuel c property parent hdocument hfuel
  obtain ⟨item, hread, hitem⟩ := h fuel c property true parent hdocument (by rwa [hschema])
  rw [hschema] at hread
  exact ⟨item, hread, hitem.node.trans hnode, hitem.isArray⟩

/-! ## Fields without parts -/

/-- **A scalar or an enumeration.** -/
theorem rereads_leaf (hmodel : f.model = none) (href : f.ref = none)
    (henum : ∀ values, f.enumValues = some values → values ≠ [])
    (htext : ∀ d ∈ f.description, ∃ t, d = .str t) (hsingle : f.isArray = false) : Rereads f := by
  intro fuel c property required parent _ hfuel
  obtain ⟨node, g, hnode, hread⟩ := exists_readAs hmodel href henum
  obtain ⟨members, text, hmembers, hdescription, hagain, hother⟩ :=
    readDescription hread.leaf.reference hread.about htext
  have hschema : f.toJsonSchema = .map members := by
    rw [toJsonSchema_eq_typeNode, hsingle, hnode]
    exact hmembers
  have hplain : Plain members := by
    obtain heq | ⟨d, -, heq⟩ := withDescription_map hread.leaf.reference f.description
    · cases hmembers.symm.trans heq
      exact hread.leaf.toPlain
    · cases hmembers.symm.trans heq
      exact hread.leaf.toPlain.describe d
  have hsize := f.toJsonSchema.size_pos
  obtain ⟨fuel, rfl⟩ : ∃ k, fuel = k + 2 := ⟨fuel - 2, by omega⟩
  refine ⟨{ g with isOptional := !required, description := text.map .str }, ?_, ?_⟩
  · rw [hschema, fieldWithin_plain hplain, hread.read _ _ _ _ _ _ _ hother, singleField,
      hdescription "FieldSpec"]
    rfl
  · refine ⟨?_, ?_, ?_, rfl⟩
    · rw [hread.typeNode, hnode]
    · rw [hschema, toJsonSchema_eq_typeNode, hread.typeNode]
      show withDescription (text.map .str) (listOf g.isArray (.map node)) = _
      rw [hread.isArray]
      exact hagain
    · rw [hsingle]
      exact hread.isArray

/-- Without a document, a reference to a component is kept. -/
theorem fieldWithin_unresolved (h : c.document = .map []) {name : String}
    (hname : Reference.IsPlain name) :
    fieldWithin (fuel + 1) c (componentReference name) property required parent
      = .ok { ref := some (Naming.pascalCase name), isOptional := !required } := by
  have hresolve : Reference.resolve c.document (componentReference name)
      = .ok (componentReference name) := by
    rw [h]
    unfold Reference.resolve Reference.follow
    rw [Reference.pointer?_component]
    dsimp only
    rw [Reference.resolvePointer_nil]
    rfl
  have hderef : dereference c (componentReference name) = .ok (componentReference name, none) := by
    unfold dereference
    rw [Reference.pointer?_component]
    dsimp only
    rw [hresolve]
    rfl
  unfold fieldWithin
  rw [Reference.pointer?_component]
  dsimp only
  rw [hderef]
  show Except.ok _ = _
  rw [Reference.name_component hname]

/-- **The name of a model** that is expanded elsewhere. It is in Pascal case, and stays so. -/
theorem rereads_reference (name : String) (isOptional : Bool) :
    Rereads { ref := some (Naming.pascalCase name), isOptional } := by
  intro fuel c property required parent hdocument hfuel
  have hsize := (componentReference (Naming.pascalCase name)).size_pos
  have hschema : (FieldSpec.toJsonSchema { ref := some (Naming.pascalCase name), isOptional })
      = componentReference (Naming.pascalCase name) := by
    rw [FieldSpec.toJsonSchema]
    rfl
  rw [hschema] at hfuel ⊢
  obtain ⟨fuel, rfl⟩ : ∃ k, fuel = k + 1 := ⟨fuel - 1, by omega⟩
  refine ⟨_, fieldWithin_unresolved hdocument (Naming.isPlain_pascalCase name), ?_⟩
  rw [Naming.pascalCase_pascalCase]
  refine ⟨rfl, ?_, rfl, rfl⟩
  rw [FieldSpec.toJsonSchema, FieldSpec.toJsonSchema]

/-! ## Nested models -/

/-- The schema of a model is an object. -/
theorem objectNode_modelMembers (m : SchemaModel) :
    ObjectNode (modelMembers m) (fieldSchemas m.fields) := by
  obtain ⟨htype, hproperties, href, hitems, henum⟩ := get?_modelMembers m
  refine ⟨⟨keys_modelMembers m, href⟩, htype, hproperties, hitems, henum, fun v hv => ?_,
    fun v hv => ?_⟩
  · rw [get?_modelMembers_required] at hv
    split at hv
    · cases hv
    · exact ⟨_, (Option.some.inj hv).symm⟩
  · rw [get?_modelMembers_description] at hv
    obtain ⟨s, -, hs⟩ := Option.map_eq_some_iff.mp hv
    exact ⟨s, hs.symm⟩

theorem descriptionOf_modelMembers (model : String) (m : SchemaModel) :
    descriptionOf model ((Value.map (modelMembers m)).field "description")
      = .ok (m.description.filter (!·.isEmpty)) := by
  rw [Value.field_map, get?_modelMembers_description]
  cases m.description.filter (!·.isEmpty) <;> rfl

/-- A field that holds the schema of a model is read as that model. -/
theorem fieldWithin_model (hm : RereadsModel m) (hdocument : c.document = .map [])
    (hfuel : 3 * m.toJsonSchema.size ≤ fuel) :
    ∃ m', fieldWithin fuel c m.toJsonSchema property required parent
        = .ok { model := some m', isOptional := !required, description := m'.description.map .str }
      ∧ m'.toJsonSchema = m.toJsonSchema := by
  have hsize := m.toJsonSchema.size_pos
  have node := objectNode_modelMembers m
  have hnullable : (typeOf (.map (modelMembers m))).2 = false := by
    refine typeOf_not_nullable ?_ fun t ht => ?_
    · exact get?_modelMembers_other m (by decide) (by decide) (by decide) (by decide)
    · cases node.type.symm.trans ht
      exact ⟨_, rfl⟩
  obtain ⟨fuel, rfl⟩ : ∃ k, fuel = k + 2 := ⟨fuel - 2, by omega⟩
  obtain ⟨m', hm', hschema, hdescription⟩ :=
    hm fuel (c.inside none) (nestedName none parent property) hdocument hfuel
  refine ⟨m', ?_, hschema⟩
  rw [toJsonSchema_eq] at hm' ⊢
  rw [fieldWithin_plain node.toPlain, nodeField_object node, hnullable, Bool.or_false]
  show (modelWithin fuel (c.inside none) _ (nestedName none parent property) >>= _) = _
  rw [hm']
  show singleField { model := some m' } (!required) _ = _
  rw [singleField, descriptionOf_modelMembers, hdescription]
  rfl

/-- **A model as the type of a field**, which says of itself what the model says. -/
theorem rereads_nested {isOptional : Bool} {description : Option Value} (hm : RereadsModel m)
    (hsame : description = none ∨ description = m.description.map .str) :
    Rereads { model := some m, isOptional, description } := by
  have hschema : FieldSpec.toJsonSchema { model := some m, isOptional, description }
      = m.toJsonSchema := by
    rw [FieldSpec.toJsonSchema]
    exact withDescription_model hsame
  intro fuel c property required parent hdocument hfuel
  rw [hschema] at hfuel ⊢
  obtain ⟨m', hread, hm'⟩ := fieldWithin_model hm hdocument hfuel
  refine ⟨_, hread, hm', ?_, rfl, rfl⟩
  rw [hschema, FieldSpec.toJsonSchema]
  exact (withDescription_model (.inr rfl)).trans hm'

/-! ## Lists -/

theorem listNode_listMembers (item : Value) (description : Option Value) :
    ListNode (listMembers item description) item where
  keys := (textKeys_listMembers item description).text
  reference := by rw [get?_listMembers]; rfl
  type := by rw [get?_listMembers]; rfl
  properties := by rw [get?_listMembers]; rfl
  items := by rw [get?_listMembers]; rfl
  enum := by rw [get?_listMembers]; rfl

/-- A list has the description of its node, if that is not empty. -/
theorem listOfItem_single {item : FieldSpec} (hsingle : item.isArray = false) (isOptional : Bool)
    (description : Option Value) :
    listOfItem item isOptional ((description.filter Value.isTruthy).getD .null)
      = { item with
          isOptional, isArray := true, description := description.filter Value.isTruthy } := by
  have hfilter : (if ((description.filter Value.isTruthy).getD .null).isNull then none
      else some ((description.filter Value.isTruthy).getD .null))
        = description.filter Value.isTruthy := by
    cases hd : description.filter Value.isTruthy with
    | none => rfl
    | some d =>
      -- what counts as present is not null
      obtain ⟨-, htruthy⟩ := Option.filter_eq_some_iff.mp hd
      cases d with
      | scalar leaf =>
        cases leaf with
        | null => cases htruthy
        | _ => rfl
      | _ => rfl
  unfold listOfItem
  rw [hsingle, hfilter]
  rfl

/-- **A list** of items whose type is read. -/
theorem rereads_list (hlist : f.isArray = true) (htype : RereadsType f) : Rereads f := by
  have node := listNode_listMembers (typeNode f) f.description
  have hschema : f.toJsonSchema = .map (listMembers (typeNode f) f.description) := by
    rw [toJsonSchema_eq_typeNode, hlist, withDescription_list]
  have hnull : (typeNode f).isNull = false := by
    obtain ⟨scalar, values, model, ref, isOptional, isArray, description⟩ := f
    cases model with
    | some m =>
      rw [typeNode, toJsonSchema_eq]
      rfl
    | none => cases values <;> cases ref <;> rfl
  have hnullable : (typeOf (.map (listMembers (typeNode f) f.description))).2 = false := by
    refine typeOf_not_nullable ?_ fun t ht => ?_
    · rw [get?_listMembers]
      rfl
    · cases node.type.symm.trans ht
      exact ⟨_, rfl⟩
  have habout : (Value.map (listMembers (typeNode f) f.description)).field "description"
      = (f.description.filter Value.isTruthy).getD .null := by
    rw [Value.field_map, get?_listMembers]
    rfl
  intro fuel c property required parent hdocument hfuel
  have hsize := node.size_item_lt
  rw [hschema] at hfuel ⊢
  obtain ⟨fuel, rfl⟩ : ∃ k, fuel = k + 2 := ⟨fuel - 2, by omega⟩
  obtain ⟨item, hitem, hitemNode, hsingle⟩ := htype fuel c property parent hdocument (by omega)
  rw [fieldWithin_plain node.toPlain, nodeField_list node hnull, hitem, hnullable, Bool.or_false,
    habout]
  refine ⟨_, congrArg Except.ok (listOfItem_single hsingle _ _), ?_⟩
  refine ⟨(typeNode_eq item _ _ _).trans hitemNode, ?_, hlist.symm, rfl⟩
  rw [hschema, toJsonSchema_eq_typeNode]
  show withDescription (f.description.filter Value.isTruthy) (listOf true (typeNode { item with
    isOptional := !required, isArray := true, description := f.description.filter Value.isTruthy })) = _
  rw [typeNode_eq, hitemNode, withDescription_list]
  unfold listMembers
  rw [Option.filter_filter]
  simp only [Bool.and_self]

/-- A field is a list of its type, or a single one. -/
theorem rereads_single_or_list (htype : RereadsType f) (hsingle : f.isArray = false → Rereads f) :
    Rereads f := by
  cases h : f.isArray with
  | true => exact rereads_list h htype
  | false => exact hsingle h

/-! ## Models -/

/-- The fields of a model, read one by one. -/
theorem exists_sameFields {fields : List (String × FieldSpec)} {isRequired : Scalar → Bool}
    (parent : String)
    (hfields : ∀ f ∈ fields, Rereads f.2)
    (hrequired : ∀ f ∈ fields, isRequired (.str f.1) = !f.2.isOptional)
    (hdocument : c.document = .map []) (hfuel : ∀ f ∈ fields, 3 * f.2.toJsonSchema.size ≤ fuel) :
    ∃ read, ((fieldSchemas fields).mapM fun m => do
          return (m.1.text, ← fieldWithin fuel c m.2 m.1.text (isRequired m.1) parent)) = .ok read
      ∧ SameFields fields read := by
  induction fields with
  | nil => exact ⟨[], rfl, rfl, rfl, rfl⟩
  | cons f rest ih =>
    obtain ⟨name, field⟩ := f
    obtain ⟨f', hf', hreread⟩ := hfields _ List.mem_cons_self fuel c name (isRequired (.str name)) parent
      hdocument (hfuel _ List.mem_cons_self)
    obtain ⟨read, hread, hsame⟩ := ih (fun f hf => hfields f (List.mem_cons_of_mem _ hf))
      (fun f hf => hrequired f (List.mem_cons_of_mem _ hf))
      (fun f hf => hfuel f (List.mem_cons_of_mem _ hf))
    refine ⟨(name, f') :: read, ?_, .cons rfl hreread.schema ?_ hsame⟩
    · rw [fieldSchemas, List.mapM_cons, hread]
      show ((fieldWithin fuel c field.toJsonSchema name (isRequired (.str name)) parent >>= _) >>= _) = _
      rw [hf']
      rfl
    · rw [hreread.isOptional, hrequired _ List.mem_cons_self, Bool.not_not]

theorem requiredKeys_modelMembers (m : SchemaModel) :
    requiredKeys (.map (modelMembers m)) = .ok ((requiredNames m.fields).map .str) := by
  have hget := get?_modelMembers_required m
  split at hget
  · rename_i hempty
    rw [requiredKeys_none hget, List.isEmpty_iff.mp hempty]
    rfl
  · exact requiredKeys_names hget

/-- **A model** with different names for its fields, if the fields are read. -/
theorem rereadsModel_of_fields (hnodup : (m.fields.map (·.1)).Nodup)
    (hfields : ∀ f ∈ m.fields, Rereads f.2) : RereadsModel m := by
  intro fuel c name hdocument hfuel
  have node := objectNode_modelMembers m
  have hsize := m.toJsonSchema.size_pos
  have hfuels : ∀ f ∈ m.fields, 3 * f.2.toJsonSchema.size ≤ fuel - 1 := by
    intro f hf
    have hmem : (Scalar.str f.1, f.2.toJsonSchema) ∈ fieldSchemas m.fields := by
      rw [fieldSchemas_eq_map]
      exact List.mem_map.mpr ⟨f, hf, rfl⟩
    have hlt := node.size_property_lt hmem
    rw [toJsonSchema_eq] at hfuel
    dsimp only at hlt
    omega
  obtain ⟨fuel, rfl⟩ : ∃ k, fuel = k + 1 := ⟨fuel - 1, by omega⟩
  obtain ⟨read, hread, hsame⟩ := exists_sameFields name hfields
    (fun f hf => isRequired_of_requiredNames hnodup (fun _ => Iff.rfl) hf) hdocument hfuels
  refine ⟨⟨name, m.description.filter (!·.isEmpty), read⟩, ?_, ?_, rfl⟩
  · -- no field takes the place of another
    have hnames : Named.ofList read = read := by
      refine Named.ofList_of_nodup ?_
      rwa [hsame.names]
    have hfieldsOf : ((fieldSchemas m.fields).mapM fun e => do
        return (e.1.text, ← fieldWithin fuel c e.2 e.1.text
          (isRequired ((requiredNames m.fields).map .str) e.1) name)) = .ok read := hread
    rw [toJsonSchema_eq, modelWithin_object node (requiredKeys_modelMembers m), hfieldsOf]
    show (descriptionOf "SchemaModel" _ >>= _) = _
    rw [descriptionOf_modelMembers]
    show Except.ok (SchemaModel.mk name _ (Named.ofList read)) = _
    rw [hnames]
  · rw [toJsonSchema_eq, toJsonSchema_eq]
    unfold modelMembers
    rw [hsame.schemas, hsame.required, Option.filter_filter]
    simp only [Bool.and_self]

theorem ne_nil_of_some_eq {values : List String} (h : values ≠ []) :
    ∀ values', some values = some values' → values' ≠ [] := by
  intro values' heq
  rwa [← Option.some.inj heq]

mutual

/-- **A field that is built** is read from its schema. -/
theorem BuiltField.rereads {parent property : String} {f : FieldSpec} :
    BuiltField parent property f → Rereads f
  | .scalar s text => by
    refine rereads_single_or_list ?_ fun hsingle => ?_
    · exact .of_rereads false (rereads_leaf rfl rfl nofun nofun rfl)
    · cases hsingle
      exact rereads_leaf rfl rfl nofun (text.resolve_left (by decide)) rfl
  | .enumeration nonempty text => by
    have hvalues := ne_nil_of_some_eq nonempty
    refine rereads_single_or_list ?_ fun hsingle => ?_
    · exact .of_rereads false (rereads_leaf rfl rfl hvalues nofun rfl)
    · cases hsingle
      exact rereads_leaf rfl rfl hvalues (text.resolve_left (by decide)) rfl
  | .nested component built same => by
    have hm := built.rereads
    refine rereads_single_or_list ?_ fun hsingle => ?_
    · exact .of_rereads false (rereads_nested hm (.inl rfl))
    · cases hsingle
      exact rereads_nested hm (same.resolve_left (by decide))
  | .reference name bare => by
    refine rereads_single_or_list ?_ fun hsingle => ?_
    · exact .of_rereads false (rereads_reference name false)
    · cases hsingle
      cases bare.resolve_left (by decide)
      exact rereads_reference name _

/-- **A model that is built** is read from its schema. -/
theorem BuiltModel.rereads {name : String} {m : SchemaModel} :
    BuiltModel name m → RereadsModel m
  | .mk _ nodup built => rereadsModel_of_fields nodup fun f hf => (built f hf).rereads

end

/-- The builder is given three steps for every node and six more. -/
theorem three_mul_le_depthBound (schema document : Value) :
    3 * (schema.size + document.size + 2) ≤ depthBound schema document := by
  have hpos := schema.size_pos
  have hmul : 3 * (schema.size + document.size + 2)
      ≤ (schema.size + document.size + 2) * (schema.size + document.size + 2) :=
    Nat.mul_le_mul_right _ (by omega)
  have hpow : (schema.size + document.size + 2) * (schema.size + document.size + 2)
      ≤ depthBound schema document := by
    unfold depthBound
    show _ ≤ (schema.size + document.size + 2) ^ 3
    rw [Nat.pow_succ, Nat.pow_two]
    exact Nat.le_mul_of_pos_right _ (by omega)
  exact hmul.trans hpow

/-- The builder has three steps for every node. -/
theorem three_mul_size_le (schema document : Value) :
    3 * schema.size ≤ depthBound schema document + 2 := by
  have hbound := three_mul_le_depthBound schema document
  omega

/-- **The projection is idempotent.** Of the schema of a model that is built, under any name and
without a document, a model is built with that schema. -/
theorem projection_idempotent {schema document : Value} {name : String} {m : SchemaModel}
    (h : modelOf schema name document = .ok m) (name' : String) :
    ∃ m', modelOf m.toJsonSchema name' (.map []) = .ok m' ∧ m'.toJsonSchema = m.toJsonSchema := by
  have hmodel := (built_modelOf h).rereads
  have node := objectNode_modelMembers m
  have hend : Reference.pointer? m.toJsonSchema = none := by
    rw [toJsonSchema_eq]
    exact node.toPlain.pointer?_eq_none
  unfold modelOf dereference
  rw [hend]
  obtain ⟨m', hm', hschema, -⟩ := hmodel _ { document := .map [] } _ rfl (three_mul_size_le _ _)
  exact ⟨m', hm', hschema⟩

/-- A pet with a name, with tags of a few kinds, and with an owner that is described elsewhere. -/
def petSchema : Value :=
  .map [(.str "type", .str "object"), (.str "required", .list [.str "name"]),
    (.str "properties", .map [
      (.str "name", .map [(.str "type", .str "string"), (.str "description", .str "What it is called")]),
      (.str "tags", .map [(.str "type", .str "array"),
        (.str "items", .map [(.str "enum", .list [.str "old", .str "young"])])]),
      (.str "owner", componentReference "pet_owner")])]

theorem projection_of_pet :
    ∃ m, modelOf petSchema "pet" (.map []) = .ok m
      ∧ ∃ m', modelOf m.toJsonSchema "animal" (.map []) = .ok m' ∧ m'.toJsonSchema = m.toJsonSchema := by
  obtain ⟨m, hm⟩ : Succeeds (modelOf petSchema "pet" (.map [])) := ⟨_, rfl⟩
  exact ⟨m, hm, projection_idempotent hm "animal"⟩

end ApiContract.Schema
