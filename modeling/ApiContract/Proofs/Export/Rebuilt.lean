import ApiContract.Proofs.Export.RefFree
import ApiContract.Proofs.Schema.Canonical

/-!
# Building a model from its settled schema

What is built from the settled schema of a model without references has the schema of the settled
model: the builder gives back every field with its type and whether it is required, and every
description that was not empty. Types that are written alike come back as one of them.

* **`rebuilt_leaf`** / **`rebuilt_object`** / **`rebuilt_list`** — fields, by what they hold.
* **`rebuilds_fields`** — an object with such fields as properties.
* **`rebuilt_model`** — the headline.
-/

namespace ApiContract.Export

open Contract Drift Schema

variable {names : List String} {members : Members} {fuel : Nat} {c : Context}
  {component : Option String} {property parent : String} {required : Bool}

/-- A field that is built again from the settled schema of another: its schema is that of the settled
field, and it is optional unless it is required. -/
structure Rebuilt (names : List String) (required : Bool) (f f' : FieldSpec) : Prop where
  node : typeNode f' = typeNode (redescribedField (settle names) f)
  schema : f'.toJsonSchema = (redescribedField (settle names) f).toJsonSchema
  isArray : f'.isArray = f.isArray
  isOptional : f'.isOptional = !required

/-- Whatever is built from the settled schema of the field is that field again. -/
def Rebuilds (names : List String) (f : FieldSpec) : Prop :=
  ∀ fuel c property required parent f',
    fieldWithin fuel c (settle names f.toJsonSchema) property required parent = .ok f' →
    Rebuilt names required f f'

/-! ## Reading a node -/

/-- A node whose type is one text does not allow null unless it says so. -/
theorem typeOf_not_nullable (hnullable : Members.get? members "nullable" = none)
    (htype : ∀ t, Members.get? members "type" = some t → ∃ s, t = .str s) :
    (typeOf (.map members)).2 = false := by
  unfold typeOf
  dsimp only
  rw [Value.field_map, Value.field_map, hnullable]
  cases hget : Members.get? members "type" with
  | none => rfl
  | some t =>
    obtain ⟨s, rfl⟩ := htype t hget
    rfl

/-- A node with a text as its description, or none, and how it is read. -/
theorem readDescription (href : Members.get? members "$ref" = none)
    (habout : Members.get? members "description" = none) {description : Option Value}
    (htext : ∀ d ∈ description, ∃ s, d = .str s) :
    ∃ members' text, withDescription description (.map members) = .map members'
      ∧ (∀ model, descriptionOf model ((Value.map members').field "description") = .ok text)
      ∧ withDescription (text.map .str) (.map members) = .map members'
      ∧ ∀ name, name ≠ "description" → Members.get? members' name = Members.get? members name := by
  obtain heq | ⟨d, hd, heq⟩ := withDescription_map href description
  · refine ⟨members, none, heq, fun model => ?_, rfl, fun _ _ => rfl⟩
    rw [Value.field_map, habout]
    rfl
  · obtain ⟨s, rfl⟩ := htext d hd
    refine ⟨describe members (.str s), some s, heq, fun model => ?_, ?_, fun name hname => ?_⟩
    · rw [Value.field_map]
      unfold describe
      rw [Members.get?_insert, if_pos rfl]
      rfl
    · rw [← heq, Option.mem_def.mp hd]
      rfl
    · exact get?_describe_of_ne hname

/-- The node of an enumeration is read as one. -/
theorem nodeField_enum {values : List String} (hvalues : values ≠ [])
    (h : ∀ name, name ≠ "description" →
      Members.get? members name = Members.get? (enumMembers values) name) :
    nodeField (fuel + 1) c (.map members) component property required parent
      = singleField { enumValues := some values } (!required)
          ((Value.map members).field "description") := by
  have htype : Members.get? members "type" = some (.str "string") := h "type" (by decide)
  have henum : enumValues (.map members) = .ok (some (values.map .str)) := by
    have htruthy : (Value.list (values.map .str)).isTruthy = true := by
      simpa [Value.isTruthy] using hvalues
    have hget : Members.get? members "enum" = some (.list (values.map .str)) := h "enum" (by decide)
    unfold Schema.enumValues
    rw [Value.field_map, hget, Option.getD_some]
    dsimp only
    rw [if_pos htruthy]
    rfl
  have hnullable : (typeOf (.map members)).2 = false := by
    refine typeOf_not_nullable (h "nullable" (by decide)) fun t ht => ?_
    cases htype.symm.trans ht
    exact ⟨_, rfl⟩
  have htexts : (values.map Value.str).map Value.text = values := by
    rw [List.map_map]
    exact List.map_id _
  have harray : ¬ some "string" = some "array" := by decide
  unfold nodeField
  simp only [Value.isMap, Bool.not_true, Bool.false_eq_true, if_false, typeOf_text htype, harray,
    henum, hnullable, Bool.or_false]
  show singleField { enumValues := some ((values.map Value.str).map Value.text) } _ _ = _
  rw [htexts]

/-- The scalar that is read for one: any value stands for a value of unknown type. -/
def readScalar : ScalarType → ScalarType
  | .json => .unknown
  | s => s

theorem schema_readScalar (s : ScalarType) : (readScalar s).schema = s.schema := by
  cases s <;> rfl

/-- The node of a scalar is read as a scalar with the same node. -/
theorem nodeField_scalar (s : ScalarType)
    (h : ∀ name, name ≠ "description" → Members.get? members name = Members.get? s.schema name) :
    nodeField (fuel + 1) c (.map members) component property required parent
      = singleField { scalar := some (readScalar s) } (!required)
          ((Value.map members).field "description") := by
  have htype := h "type" (by decide)
  have henum : enumValues (.map members) = .ok none :=
    enumValues_none ((h "enum" (by decide)).trans (by cases s <;> rfl))
  have hproperties : properties? (.map members) = none :=
    properties?_none ((h "properties" (by decide)).trans (by cases s <;> rfl))
  have hnullable : (typeOf (.map members)).2 = false := by
    refine typeOf_not_nullable ((h "nullable" (by decide)).trans (by cases s <;> rfl)) fun t ht => ?_
    rw [htype] at ht
    cases s <;> cases ht <;> exact ⟨_, rfl⟩
  have hformat := h "format" (by decide)
  have hmore := h "additionalProperties" (by decide)
  have htypeOf : (typeOf (.map members)).1 = (Members.get? s.schema "type").map Value.text := by
    cases hget : Members.get? s.schema "type" with
    | none => exact typeOf_none (htype.trans hget)
    | some t =>
      have ht : ∃ text, t = .str text := by cases s <;> cases hget <;> exact ⟨_, rfl⟩
      obtain ⟨text, rfl⟩ := ht
      exact typeOf_text (htype.trans hget)
  unfold nodeField
  simp only [Value.isMap, Bool.not_true, Bool.false_eq_true, if_false, henum, hnullable,
    Bool.or_false, hproperties, Option.isSome_none, htypeOf]
  rw [Value.field_map members "format", Value.field_map members "additionalProperties", hformat, hmore]
  cases s <;> rfl

/-! ## Fields -/

/-- The result of a field that is no list. -/
theorem eq_of_singleField {g f' : FieldSpec} {isOptional : Bool} {description : Value}
    {text : Option String} (htext : descriptionOf "FieldSpec" description = .ok text)
    (h : singleField g isOptional description = .ok f') :
    f' = { g with isOptional, description := text.map .str } := by
  unfold singleField at h
  rw [htext] at h
  cases h
  rfl

/-- How the node of a field without parts is read: as a field with the same node. -/
structure ReadAs (node : Members) (g : FieldSpec) : Prop where
  leaf : LeafNode node
  settled : ∀ names, settleMembers names node = node
  about : Members.get? node "description" = none
  isArray : g.isArray = false
  typeNode : ∀ isOptional description, Export.typeNode { g with isOptional, description } = .map node
  read : ∀ fuel c component property required parent members,
    (∀ name, name ≠ "description" → Members.get? members name = Members.get? node name) →
    nodeField (fuel + 1) c (.map members) component property required parent
      = singleField g (!required) ((Value.map members).field "description")

theorem readAs_scalar (s : ScalarType) : ReadAs s.schema { scalar := some (readScalar s) } where
  leaf := leafNode_scalar s
  settled _ := settleMembers_scalar s
  about := by cases s <;> rfl
  isArray := rfl
  typeNode _ _ := congrArg Value.map (schema_readScalar s)
  read _ _ _ _ _ _ _ h := nodeField_scalar s h

theorem readAs_enum {values : List String} (h : values ≠ []) :
    ReadAs (enumMembers values) { enumValues := some values } where
  leaf := leafNode_enum values
  settled _ := settleMembers_enum values
  about := rfl
  isArray := rfl
  typeNode _ _ := rfl
  read _ _ _ _ _ _ _ hmembers := nodeField_enum h hmembers

/-- A field without a model and without a reference is one without parts. -/
theorem exists_readAs {f : FieldSpec} (hmodel : f.model = none) (href : f.ref = none)
    (henum : ∀ values, f.enumValues = some values → values ≠ []) :
    ∃ node g, typeNode f = .map node ∧ ReadAs node g := by
  obtain ⟨scalar, values, model, ref, isOptional, isArray, description⟩ := f
  dsimp only at hmodel href
  subst hmodel href
  cases values with
  | some values => exact ⟨_, _, rfl, readAs_enum (henum values rfl)⟩
  | none => exact ⟨_, _, rfl, readAs_scalar _⟩

/-- **A field without parts**, that is no list. -/
theorem rebuilt_leaf {f f' : FieldSpec} (hmodel : f.model = none) (href : f.ref = none)
    (hsound : SoundField f) (hsingle : f.isArray = false)
    (h : fieldWithin fuel c (settle names f.toJsonSchema) property required parent = .ok f') :
    Rebuilt names required f f' := by
  obtain ⟨node, g, hnode, hread⟩ := exists_readAs hmodel href hsound.enum
  have htext : ∀ d ∈ f.description, ∃ s, d = .str s :=
    hsound.text.resolve_left (by rw [hsingle]; decide)
  obtain ⟨members, text, hmembers, hdescription, hagain, hother⟩ :=
    readDescription hread.leaf.reference hread.about htext
  have hschema : f.toJsonSchema = .map members := by
    rw [toJsonSchema_eq_typeNode, hsingle, hnode]
    exact hmembers
  -- the description is a text, so nothing is settled
  have hsettled : (redescribedField (settle names) f).toJsonSchema = .map members := by
    rw [← hschema]
    obtain ⟨scalar, values, model, ref, isOptional, isArray, description⟩ := f
    dsimp only at hmodel hsingle
    subst hmodel hsingle
    rw [redescribedField]
    rfl
  have hsettle : settle names f.toJsonSchema = .map members := by
    rw [hschema, ← hmembers]
    obtain heq | ⟨d, hd, heq⟩ := withDescription_map hread.leaf.reference f.description
    · rw [heq, settle_map hread.leaf.reference, hread.settled]
    · obtain ⟨s, rfl⟩ := htext d hd
      rw [heq, settle_describe hread.leaf.reference, hread.settled, settle_scalar]
  rw [hsettle] at h
  have hplain : Plain members := by
    obtain heq | ⟨d, -, heq⟩ := withDescription_map hread.leaf.reference f.description
    · cases hmembers.symm.trans heq
      exact hread.leaf.toPlain
    · cases hmembers.symm.trans heq
      exact hread.leaf.toPlain.describe d
  obtain ⟨fuel', h⟩ := exists_nodeField hplain h
  rw [hread.read _ _ _ _ _ _ _ hother] at h
  rw [eq_of_singleField (hdescription "FieldSpec") h]
  refine ⟨?_, ?_, ?_, rfl⟩
  · rw [hread.typeNode, typeNode_redescribedField_of_none hmodel, hnode]
  · rw [hsettled, toJsonSchema_eq_typeNode, hread.typeNode]
    show withDescription (text.map .str) (listOf g.isArray (.map node)) = _
    rw [hread.isArray]
    exact hagain
  · rw [hsingle]
    exact hread.isArray

/-- Whatever is built from the settled schema of the model has the schema of the settled model. -/
def RebuildsModel (names : List String) (m : SchemaModel) : Prop :=
  ∀ fuel c name m', modelWithin fuel c (settle names m.toJsonSchema) name = .ok m' →
    m'.toJsonSchema = (redescribedModel (settle names) m).toJsonSchema

/-- What is read as the description of a settled model. -/
theorem descriptionOf_settledModel (names : List String) (model : String) (m : SchemaModel) :
    descriptionOf model ((settle names m.toJsonSchema).field "description")
      = .ok (m.description.filter (!·.isEmpty)) := by
  rw [settle_model, Value.field_map, get?_settleMembers, get?_modelMembers_description]
  cases m.description.filter (!·.isEmpty) with
  | none => rfl
  | some text => rfl

/-- The description of a model is the one that its schema says. -/
theorem description_of_modelWithin {m : SchemaModel} {name : String} {m' : SchemaModel}
    (h : modelWithin fuel c (settle names m.toJsonSchema) name = .ok m') :
    m'.description = m.description.filter (!·.isEmpty) := by
  have hdescription := descriptionOf_settledModel names "SchemaModel" m
  have node : ObjectNode (settleMembers names (modelMembers m)) (settledProperties names m.fields) :=
    objectNode_model m
  obtain ⟨keys, hkeys⟩ := requiredKeys_ok node.required
  rw [settle_model] at h hdescription
  obtain ⟨fuel', fields, -, habout, -⟩ := exists_fields node hkeys h
  exact (Except.ok.inj (hdescription.symm.trans habout)).symm

/-- A field that holds the schema of a model. -/
theorem rebuilt_nested {m : SchemaModel} {f' : FieldSpec} (hm : RebuildsModel names m)
    (h : fieldWithin fuel c (settle names m.toJsonSchema) property required parent = .ok f') :
    ∃ m', m'.toJsonSchema = (redescribedModel (settle names) m).toJsonSchema
      ∧ f' = { model := some m', isOptional := !required, description := m'.description.map .str } := by
  have hdescription := descriptionOf_settledModel names "FieldSpec" m
  have hmodel : ∀ fuel c name m', modelWithin fuel c (settle names m.toJsonSchema) name = .ok m' →
      m'.description = m.description.filter (!·.isEmpty) := fun _ _ _ _ => description_of_modelWithin
  unfold RebuildsModel at hm
  rw [settle_model] at h hm hdescription hmodel
  have node : ObjectNode (settleMembers names (modelMembers m)) (settledProperties names m.fields) :=
    objectNode_model m
  have hnullable : (typeOf (.map (settleMembers names (modelMembers m)))).2 = false := by
    refine typeOf_not_nullable ?_ fun t ht => ?_
    · rw [get?_settleMembers, get?_modelMembers_other m (by decide) (by decide) (by decide) (by decide)]
      rfl
    · cases node.type.symm.trans ht
      exact ⟨_, rfl⟩
  obtain ⟨fuel', h⟩ := exists_nodeField node.toPlain h
  rw [nodeField_object node, hnullable, Bool.or_false] at h
  obtain ⟨m', hm', h⟩ := bind_eq_ok.mp h
  refine ⟨m', hm _ _ _ _ hm', ?_⟩
  rw [eq_of_singleField hdescription h, hmodel _ _ _ _ hm']

/-- **A field that holds a model**, and is no list. -/
theorem rebuilt_object {f f' : FieldSpec} {m : SchemaModel} (hmodel : f.model = some m)
    (hm : RebuildsModel names m) (hsound : SoundField f) (hsingle : f.isArray = false)
    (h : fieldWithin fuel c (settle names f.toJsonSchema) property required parent = .ok f') :
    Rebuilt names required f f' := by
  have hdescription := (hsound.model m hmodel).resolve_left (by rw [hsingle]; decide)
  obtain ⟨scalar, values, model, ref, isOptional, isArray, description⟩ := f
  dsimp only at hmodel hsingle hdescription
  subst hmodel hsingle
  have hschema : (FieldSpec.mk scalar values (some m) ref isOptional false description).toJsonSchema
      = m.toJsonSchema := by
    rw [FieldSpec.toJsonSchema]
    exact withDescription_model hdescription
  rw [hschema] at h
  obtain ⟨m', hm', rfl⟩ := rebuilt_nested hm h
  refine ⟨?_, ?_, ?_, rfl⟩
  · rw [redescribedField]
    exact hm'
  · rw [redescribedField, FieldSpec.toJsonSchema, FieldSpec.toJsonSchema]
    show withDescription (m'.description.map .str) m'.toJsonSchema
      = withDescription description (redescribedModel (settle names) m).toJsonSchema
    rw [withDescription_model (.inr rfl), withDescription_model (m := redescribedModel (settle names) m)
      (by rw [description_redescribedModel]; exact hdescription)]
    exact hm'
  · rfl

/-! ## Lists -/

/-- The settled node of a list is the node of a list. -/
theorem listNode_settled (item : Value) (description : Option Value) :
    ListNode (settleMembers names (listMembers item description)) (settle names item) where
  keys := by
    intro m hm
    rw [settleMembers_eq_map] at hm
    obtain ⟨m', hm', rfl⟩ := List.mem_map.mp hm
    exact (textKeys_listMembers item description).text m' hm'
  reference := by
    rw [get?_settleMembers, get?_listMembers]
    rfl
  type := by
    rw [get?_settleMembers, get?_listMembers]
    simp
  properties := by
    rw [get?_settleMembers, get?_listMembers]
    rfl
  items := by
    rw [get?_settleMembers, get?_listMembers]
    rfl
  enum := by
    rw [get?_settleMembers, get?_listMembers]
    rfl

/-- What is present stays present in some form. -/
theorem isNull_settle {d : Value} (h : d.isTruthy = true) : (settle names d).isNull = false := by
  cases d with
  | scalar leaf =>
    rw [settle_scalar]
    cases leaf with
    | null => cases h
    | _ => rfl
  | list items =>
    rw [settle_list]
    rfl
  | map members =>
    have hmap : (settle names (.map members)).isMap = true := isMap_settle rfl
    cases hsettle : settle names (.map members) with
    | map members' => rfl
    | _ =>
      rw [hsettle] at hmap
      cases hmap
  | set items => rfl

/-- The description that a list comes back with, and the members it gives the list. -/
theorem readBackDescription (names : List String) (description : Option Value) (item : Value) :
    ∃ about, (if (((description.filter Value.isTruthy).map (settle names)).getD .null).isNull then none
        else some (((description.filter Value.isTruthy).map (settle names)).getD .null)) = about
      ∧ listMembers item about = listMembers item (description.map (settle names)) := by
  refine ⟨_, rfl, ?_⟩
  unfold listMembers
  cases description with
  | none => rfl
  | some d =>
    rw [Option.filter_some]
    cases htruthy : d.isTruthy with
    | true =>
      have hnull : (settle names d).isNull = false := isNull_settle htruthy
      rw [if_pos rfl, Option.map_some, Option.getD_some, hnull]
      rfl
    | false =>
      rw [Option.map_some, Option.filter_some, isTruthy_settle _ htruthy]
      rfl

/-- **A list**, if its item comes back. -/
theorem rebuilt_list {f f' : FieldSpec} (hlist : f.isArray = true)
    (hitem : ∀ fuel c property parent item,
      fieldWithin fuel c (settle names (typeNode f)) property true parent = .ok item →
      typeNode item = typeNode (redescribedField (settle names) f) ∧ item.isArray = false)
    (hnull : (settle names (typeNode f)).isNull = false)
    (h : fieldWithin fuel c (settle names f.toJsonSchema) property required parent = .ok f') :
    Rebuilt names required f f' := by
  have node : ListNode (settleMembers names (listMembers (typeNode f) f.description))
      (settle names (typeNode f)) := listNode_settled _ _
  have hnullable : (typeOf (.map (settleMembers names (listMembers (typeNode f) f.description)))).2
      = false := by
    refine typeOf_not_nullable ?_ fun t ht => ?_
    · rw [get?_settleMembers, get?_listMembers]
      rfl
    · cases node.type.symm.trans ht
      exact ⟨_, rfl⟩
  have habout : (Value.map (settleMembers names (listMembers (typeNode f) f.description))).field
      "description" = ((f.description.filter Value.isTruthy).map (settle names)).getD .null := by
    rw [Value.field_map, get?_settleMembers, get?_listMembers]
    rfl
  rw [toJsonSchema_eq_typeNode, hlist, withDescription_list,
    settle_map (by rw [get?_listMembers]; rfl)] at h
  obtain ⟨fuel', h⟩ := exists_nodeField node.toPlain h
  rw [nodeField_list node hnull, hnullable, Bool.or_false, habout] at h
  obtain ⟨item, hok, h⟩ := map_eq_ok.mp h
  obtain ⟨htype, hsingle⟩ := hitem _ _ _ _ _ hok
  obtain ⟨about, hdescription, hmembers⟩ := readBackDescription names f.description (typeNode item)
  unfold listOfItem at h
  rw [hsingle, hdescription] at h
  subst h
  obtain ⟨hsettledList, hsettledDescription⟩ := redescribedField_parts (settle names) f
  refine ⟨?_, ?_, ?_, rfl⟩
  · exact (typeNode_eq item _ _ _).trans htype
  · -- both are lists of one type, and their descriptions give the list the same members
    rw [toJsonSchema_eq_typeNode, toJsonSchema_eq_typeNode (redescribedField _ _), hsettledList, hlist,
      hsettledDescription, hlist, ← htype]
    show withDescription about (listOf true (typeNode { item with
      isOptional := !required, isArray := true, description := about })) = _
    rw [typeNode_eq, withDescription_list, hmembers, ← withDescription_list]
    rfl
  · exact hlist.symm

/-! ## Models -/

/-- Two lists of fields have the same names, schemas and required names. -/
structure SameFields (fields fields' : List (String × FieldSpec)) : Prop where
  names : fields'.map (·.1) = fields.map (·.1)
  schemas : fieldSchemas fields' = fieldSchemas fields
  required : requiredNames fields' = requiredNames fields

theorem requiredNames_cons (f : String × FieldSpec) (rest : List (String × FieldSpec)) :
    requiredNames (f :: rest) = (if f.2.isOptional then [] else [f.1]) ++ requiredNames rest := by
  obtain ⟨name, field⟩ := f
  unfold requiredNames
  cases h : field.isOptional <;> simp [h]

theorem SameFields.cons {f f' : String × FieldSpec} {fields fields' : List (String × FieldSpec)}
    (hname : f'.1 = f.1) (hschema : f'.2.toJsonSchema = f.2.toJsonSchema)
    (hoptional : f'.2.isOptional = f.2.isOptional) (h : SameFields fields fields') :
    SameFields (f :: fields) (f' :: fields') where
  names := by rw [List.map_cons, List.map_cons, hname, h.names]
  schemas := by
    obtain ⟨name, field⟩ := f
    obtain ⟨name', field'⟩ := f'
    cases hname
    rw [fieldSchemas, fieldSchemas, hschema, h.schemas]
  required := by rw [requiredNames_cons, requiredNames_cons, hname, hoptional, h.required]

/-- Fields that are built one by one. -/
theorem sameFields_of_mapM {fields built : List (String × FieldSpec)} {isRequired : Scalar → Bool}
    (hfields : ∀ f ∈ fields, Rebuilds names f.2)
    (hrequired : ∀ f ∈ fields, isRequired (.str f.1) = !f.2.isOptional)
    (h : (fields.map fun f => (Scalar.str f.1, settle names f.2.toJsonSchema)).mapM (fun m => do
      return (m.1.text, ← fieldWithin fuel c m.2 m.1.text (isRequired m.1) parent)) = .ok built) :
    SameFields (redescribedFields (settle names) fields) built := by
  induction fields generalizing built with
  | nil =>
    cases h
    exact ⟨rfl, rfl, rfl⟩
  | cons f rest ih =>
    obtain ⟨name, field⟩ := f
    rw [List.map_cons, List.mapM_cons] at h
    obtain ⟨f', hf', h⟩ := bind_eq_ok.mp h
    obtain ⟨built', hbuilt, h⟩ := bind_eq_ok.mp h
    obtain ⟨field', hfield, hf'⟩ := bind_eq_ok.mp hf'
    cases h
    cases hf'
    have hrebuilt := hfields _ List.mem_cons_self _ _ _ _ _ _ hfield
    rw [redescribedFields]
    refine .cons rfl hrebuilt.schema ?_
      (ih (fun f hf => hfields f (List.mem_cons_of_mem _ hf))
        (fun f hf => hrequired f (List.mem_cons_of_mem _ hf)) hbuilt)
    rw [hrebuilt.isOptional, hrequired _ List.mem_cons_self, Bool.not_not, isOptional_redescribedField]

/-- **An object with the settled schemas of some fields** has these fields. -/
theorem rebuilds_fields {properties : Members} {fields : List (String × FieldSpec)}
    {keys : List Scalar} {name : String} {m' : SchemaModel} (node : ObjectNode members properties)
    (hproperties : properties = fields.map fun f => (Scalar.str f.1, settle names f.2.toJsonSchema))
    (hkeys : requiredKeys (.map members) = .ok keys)
    (hrequired : ∀ f ∈ fields, isRequired keys (.str f.1) = !f.2.isOptional)
    (hnodup : (fields.map (·.1)).Nodup) (hfields : ∀ f ∈ fields, Rebuilds names f.2)
    (h : modelWithin fuel c (.map members) name = .ok m') :
    SameFields (redescribedFields (settle names) fields) m'.fields
      ∧ descriptionOf "SchemaModel" ((Value.map members).field "description") = .ok m'.description := by
  obtain ⟨fuel', built, hbuilt, habout, hbuiltFields⟩ := exists_fields node hkeys h
  rw [hproperties] at hbuilt
  have hsame := sameFields_of_mapM hfields hrequired hbuilt
  have hnames : built.map (·.1) = fields.map (·.1) := by
    rw [hsame.names, redescribedFields_eq_map, List.map_map]
    rfl
  -- the names differ, so no field takes the place of another
  rw [hbuiltFields, Named.ofList_of_nodup (by rwa [hnames])]
  exact ⟨hsame, habout⟩

/-- The names that the settled schema of a model requires. -/
theorem requiredKeys_model (m : SchemaModel) :
    requiredKeys (.map (settleMembers names (modelMembers m)))
      = .ok ((requiredNames m.fields).map .str) := by
  have hget : Members.get? (settleMembers names (modelMembers m)) "required"
      = (if (requiredNames m.fields).isEmpty then none
          else some (.list ((requiredNames m.fields).map .str))) := by
    rw [get?_settleMembers, get?_modelMembers_required]
    split
    · rfl
    · rw [Option.map_some, settle_texts]
  split at hget
  · rename_i hempty
    rw [requiredKeys_none hget, List.isEmpty_iff.mp hempty]
    rfl
  · exact requiredKeys_names hget

theorem mem_requiredNames_iff {fields : List (String × FieldSpec)} {name : String} :
    name ∈ requiredNames fields ↔ ∃ f ∈ fields, f.1 = name ∧ f.2.isOptional = false := by
  unfold requiredNames
  rw [List.mem_map]
  constructor
  · rintro ⟨f, hf, rfl⟩
    obtain ⟨hf, hoptional⟩ := List.mem_filter.mp hf
    exact ⟨f, hf, rfl, by simpa using hoptional⟩
  · rintro ⟨f, hf, rfl, hoptional⟩
    exact ⟨f, List.mem_filter.mpr ⟨hf, by simpa using hoptional⟩, rfl⟩

/-- A field is required exactly if it is not optional. -/
theorem isRequired_of_requiredNames {fields : List (String × FieldSpec)} {keys : List String}
    (hnodup : (fields.map (·.1)).Nodup) (hkeys : ∀ name, name ∈ keys ↔ name ∈ requiredNames fields)
    {f : String × FieldSpec} (hf : f ∈ fields) :
    isRequired (keys.map .str) (.str f.1) = !f.2.isOptional := by
  have hmem : isRequired (keys.map .str) (.str f.1) = true ↔ f.1 ∈ keys := by
    unfold isRequired
    rw [List.any_map, List.any_eq_true]
    simp
  rw [Bool.eq_iff_iff, hmem, hkeys, mem_requiredNames_iff]
  constructor
  · rintro ⟨f', hf', hname, hoptional⟩
    have hsame := Named.get?_of_mem hnodup hf
    rw [← hname, Named.get?_of_mem hnodup hf'] at hsame
    rw [← Option.some.inj hsame, hoptional]
    rfl
  · intro hoptional
    exact ⟨f, hf, rfl, by simpa using hoptional⟩

/-- A model whose fields are built again is built again. -/
theorem rebuildsModel_of_fields {m : SchemaModel} (hnodup : (m.fields.map (·.1)).Nodup)
    (href : RefFree (modelsOf m)) (hfields : ∀ f ∈ m.fields, Rebuilds names f.2) :
    RebuildsModel names m := by
  intro fuel c name m' h
  have hdescription := description_of_modelWithin h
  rw [settle_model] at h
  obtain ⟨hsame, -⟩ := rebuilds_fields (objectNode_model m) (settledProperties_of_refFree href)
    (requiredKeys_model m)
    (fun f hf => isRequired_of_requiredNames hnodup (fun _ => Iff.rfl) hf) hnodup hfields h
  obtain ⟨name, description, fields⟩ := m
  rw [redescribedModel, toJsonSchema_eq, toJsonSchema_eq]
  unfold modelMembers
  rw [hdescription, hsame.schemas, hsame.required]
  rw [Option.filter_filter]
  simp only [Bool.and_self]

mutual

/-- **A field is built again** from its settled schema. -/
theorem rebuilds_field : (f : FieldSpec) → f.ref = none → SoundField f → Sound (modelsOfField f) →
    RefFree (modelsOfField f) → Rebuilds names f
  | ⟨scalar, values, some m, ref, isOptional, isArray, description⟩, _, hsound, hmodels, href => by
    have hm := rebuilt_model m (by rwa [modelsOfField] at hmodels) (by rwa [modelsOfField] at href)
    intro fuel c property required parent f' h
    cases isArray with
    | false => exact rebuilt_object rfl hm hsound rfl h
    | true =>
      refine rebuilt_list rfl (fun fuel c property parent item hitem => ?_) ?_ h
      · obtain ⟨m', hm', rfl⟩ := rebuilt_nested hm hitem
        rw [redescribedField]
        exact ⟨hm', rfl⟩
      · show (settle names m.toJsonSchema).isNull = false
        rw [settle_model]
        rfl
  | ⟨scalar, values, none, ref, isOptional, isArray, description⟩, href, hsound, _, _ => by
    intro fuel c property required parent f' h
    cases isArray with
    | false => exact rebuilt_leaf rfl href hsound rfl h
    | true =>
      -- the item is the field as a single one, without its description
      have hsingle : SoundField ⟨scalar, values, none, ref, isOptional, false, none⟩ :=
        ⟨.inr nofun, hsound.enum, nofun⟩
      refine rebuilt_list rfl (fun fuel c property parent item hitem => ?_) ?_ h
      · have hschema : typeNode ⟨scalar, values, none, ref, isOptional, true, description⟩
            = (FieldSpec.mk scalar values none ref isOptional false none).toJsonSchema :=
          toJsonSchema_single.symm
        rw [hschema] at hitem
        have hitem : Rebuilt names true ⟨scalar, values, none, ref, isOptional, false, none⟩ item :=
          rebuilt_leaf rfl href hsingle rfl hitem
        refine ⟨hitem.node.trans ?_, hitem.isArray⟩
        rw [typeNode_redescribedField_of_none rfl, typeNode_redescribedField_of_none rfl]
        exact (typeNode_eq ⟨scalar, values, none, ref, isOptional, true, description⟩ _ _ _)
      · obtain ⟨node, g, hnode, hread⟩ :=
          exists_readAs (f := ⟨scalar, values, none, ref, isOptional, true, description⟩) rfl href
            hsound.enum
        rw [hnode, settle_map hread.leaf.reference]
        rfl

/-- **A model is built again** from its settled schema. -/
theorem rebuilt_model : (m : SchemaModel) → Sound (modelsOf m) → RefFree (modelsOf m) →
    RebuildsModel names m
  | ⟨name, description, fields⟩, hsound, href => by
    have hfields := rebuilds_eachField fields fun f hf =>
      ⟨(href.field hf).1, (hsound.field hf).1, (hsound.field hf).2, (href.field hf).2⟩
    exact rebuildsModel_of_fields hsound.nodup href hfields

theorem rebuilds_eachField : (fields : List (String × FieldSpec)) →
    (∀ f ∈ fields, f.2.ref = none ∧ SoundField f.2 ∧ Sound (modelsOfField f.2)
      ∧ RefFree (modelsOfField f.2)) →
    ∀ f ∈ fields, Rebuilds names f.2
  | [], _ => fun f hf => absurd hf List.not_mem_nil
  | (name, field) :: rest, h => by
    obtain ⟨href, hsound, hmodels, hfree⟩ := h _ List.mem_cons_self
    have hfield := rebuilds_field field href hsound hmodels hfree
    have hrest := rebuilds_eachField rest fun f hf => h f (List.mem_cons_of_mem _ hf)
    intro f hf
    rcases List.mem_cons.mp hf with rfl | hf
    · exact hfield
    · exact hrest f hf

end

end ApiContract.Export
