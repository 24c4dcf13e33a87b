import ApiContract.Proofs.Reference
import ApiContract.Proofs.Schema.Exported
import ApiContract.Schema.Canonical

/-!
# Models of exported schemas

`modelOf` expands the components that a schema refers to. This module says for which exported
schemas it succeeds.
-/

namespace ApiContract.Schema

open Contract

/-! ## One step of the builder -/

/-- A document with an exported object under each of some names. -/
structure Supplies (document : Value) (names : List String) : Prop where
  length : names.length ≤ document.size
  plain : ∀ name ∈ names, Reference.IsPlain name
  component : ∀ name ∈ names, ∃ tree, Reference.component? document name = some tree
    ∧ Exported names tree ∧ (properties? tree).isSome

variable {fuel : Nat} {c : Context} {names : List String} {members : Members}
  {property parent : String} {required : Bool} {component : Option String}

theorem succeeds_descriptionOf (model : String) (h : MaybeText members "description") :
    Succeeds (descriptionOf model ((Value.map members).field "description")) := by
  obtain hnull | ⟨s, hs⟩ := description_cases h
  · rw [hnull]
    exact ⟨none, rfl⟩
  · rw [hs]
    exact ⟨some s, rfl⟩

theorem succeeds_singleField (field : FieldSpec) (isOptional : Bool)
    (h : MaybeText members "description") :
    Succeeds (singleField field isOptional ((Value.map members).field "description")) := by
  unfold singleField
  rw [succeeds_bind_of_forall (fun _ => succeeds_pure _)]
  exact succeeds_descriptionOf "FieldSpec" h

/-- A reference to a component: kept inside the component itself, refused where nothing has been
expanded since it was followed, and otherwise followed. -/
theorem fieldWithin_reference {name : String} {tree : Value} (hname : Reference.IsPlain name)
    (hcomponent : Reference.component? c.document name = some tree) (htree : tree.isMap = true)
    (hend : Reference.pointer? tree = none) :
    fieldWithin (fuel + 1) c (componentReference name) property required parent
      = if c.expanding.contains name then
          .ok { ref := some (Naming.pascalCase name), isOptional := !required }
        else if c.followed.contains (componentPath ++ name) then .error .unexpected
        else
          nodeField fuel { c with followed := (componentPath ++ name) :: c.followed } tree (some name)
            property required parent := by
  have hderef : dereference c (componentReference name) = .ok (tree, some name) := by
    unfold dereference
    rw [Reference.pointer?_component]
    dsimp only
    rw [Reference.resolve_component hname hcomponent htree hend]
    show Except.ok (tree, if Reference.isReference tree then none else _) = _
    rw [Reference.isReference_eq_false hend, Reference.name_component hname]
    rfl
  unfold fieldWithin
  rw [Reference.pointer?_component]
  dsimp only
  rw [hderef]
  rfl

theorem fieldWithin_plain (h : Plain members) :
    fieldWithin (fuel + 1) c (.map members) property required parent
      = nodeField fuel c (.map members) none property required parent := by
  rw [fieldWithin, h.pointer?_eq_none]

/-- What is built of a node took two steps at least. -/
theorem exists_nodeField (h : Plain members) {field : FieldSpec}
    (hok : fieldWithin fuel c (.map members) property required parent = .ok field) :
    ∃ fuel', nodeField (fuel' + 1) c (.map members) none property required parent = .ok field := by
  cases fuel with
  | zero => cases hok
  | succ fuel =>
    rw [fieldWithin_plain h] at hok
    cases fuel with
    | zero => cases hok
    | succ fuel => exact ⟨fuel, hok⟩

/-- A leaf always gives a field. -/
theorem succeeds_nodeField_leaf (h : LeafNode members) :
    Succeeds (nodeField (fuel + 1) c (.map members) component property required parent) := by
  obtain ⟨values, hvalues⟩ := enumValues_ok h.enum
  unfold nodeField
  simp only [Value.isMap, Bool.not_true, Bool.false_eq_true, if_false, h.typeOf_ne_array, hvalues,
    properties?_none h.properties, Option.isSome_none]
  cases values with
  | some values => exact succeeds_singleField _ _ h.description
  | none =>
    show Succeeds (if _ then _ else _)
    split
    · exact succeeds_singleField _ _ h.description
    · exact succeeds_singleField _ _ h.description

/-- The field of a list, from that of its items. A list of lists has items of any kind. -/
def listOfItem (item : FieldSpec) (isOptional : Bool) (description : Value) : FieldSpec :=
  { if item.isArray then { scalar := some .json } else item with
    isArray := true
    isOptional
    description := if description.isNull then none else some description }

/-- The field of a list comes from the field of its items. -/
theorem nodeField_list {item : Value} (h : ListNode members item) (hitem : item.isNull = false) :
    nodeField (fuel + 1) c (.map members) component property required parent
      = (fun field => listOfItem field (!required || (typeOf (.map members)).2)
          ((Value.map members).field "description"))
        <$> fieldWithin fuel c item property true parent := by
  have hfield : (Value.map members).field "items" = item := by
    rw [Value.field_map, h.items]
    rfl
  unfold nodeField
  simp only [Value.isMap, Bool.not_true, Bool.false_eq_true, if_false, typeOf_text h.type, if_true,
    hfield]
  split
  · cases hitem
  · cases fieldWithin fuel c item property true parent <;> rfl

/-- The context inside an object: a component that has a name is expanded. -/
def Context.inside (c : Context) (component : Option String) : Context :=
  match component.filter (!·.isEmpty) with
  | some name => c.expand name
  | none => c

/-- The field of an object comes from its model. -/
theorem nodeField_object {properties : Members} (h : ObjectNode members properties) :
    nodeField (fuel + 1) c (.map members) component property required parent
      = (do
          let nested ← modelWithin fuel (c.inside component) (.map members)
            (nestedName (component.filter (!·.isEmpty)) parent property)
          singleField { model := some nested } (!required || (typeOf (.map members)).2)
            ((Value.map members).field "description")) := by
  have harray : ¬ some "object" = some "array" := by decide
  unfold nodeField
  simp only [Value.isMap, Bool.not_true, Bool.false_eq_true, if_false, typeOf_text h.type, harray,
    enumValues_none h.enum, h.properties?, Option.isSome_some, if_true]
  rfl

/-- The model of an object comes from the fields of its properties. -/
theorem modelWithin_object {properties : Members} (h : ObjectNode members properties)
    {keys : List Scalar} (hkeys : requiredKeys (.map members) = .ok keys) (name : String) :
    modelWithin (fuel + 1) c (.map members) name
      = (do
          let fields ← properties.mapM fun m => do
            return (m.1.text, ← fieldWithin fuel c m.2 m.1.text (isRequired keys m.1) name)
          let about ← descriptionOf "SchemaModel" ((Value.map members).field "description")
          return ⟨name, about, Named.ofList fields⟩) := by
  unfold modelWithin
  simp only [Value.isMap, Bool.not_true, Bool.false_eq_true, if_false, h.properties?, hkeys]
  rfl

/-- The parts of the model of an object. -/
theorem exists_fields {properties : Members} (h : ObjectNode members properties) {keys : List Scalar}
    (hkeys : requiredKeys (.map members) = .ok keys) {name : String} {model : SchemaModel}
    (hok : modelWithin fuel c (.map members) name = .ok model) :
    ∃ fuel' fields, (properties.mapM fun m => do
          return (m.1.text, ← fieldWithin fuel' c m.2 m.1.text (isRequired keys m.1) name)) = .ok fields
      ∧ descriptionOf "SchemaModel" ((Value.map members).field "description") = .ok model.description
      ∧ model.fields = Named.ofList fields := by
  cases fuel with
  | zero => cases hok
  | succ fuel =>
    rw [modelWithin_object h hkeys] at hok
    obtain ⟨fields, hfields, hok⟩ := bind_eq_ok.mp hok
    obtain ⟨about, habout, hok⟩ := bind_eq_ok.mp hok
    cases hok
    exact ⟨fuel, fields, hfields, habout, rfl⟩

@[simp] theorem Context.inside_none (c : Context) : c.inside none = c := rfl

@[simp] theorem Context.inside_empty (c : Context) : c.inside (some "") = c := rfl

theorem Context.inside_of_ne (c : Context) {name : String} (h : name ≠ "") :
    c.inside (some name) = c.expand name := by
  unfold Context.inside
  have : (some name).filter (!·.isEmpty) = some name := by
    simpa [Option.filter_eq_some_iff] using h
  rw [this]

/-- A schema that is no reference is built where it stands. -/
theorem modelOf_of_end {schema : Value} (h : Reference.pointer? schema = none) (name : String)
    (document : Value) :
    ∃ c name', modelOf schema name document
      = modelWithin (depthBound schema document) c schema name' := by
  unfold modelOf dereference
  rw [h]
  exact ⟨_, _, rfl⟩

/-- Building a model comes down to building the fields. -/
theorem succeeds_modelWithin {properties : Members} (h : ObjectNode members properties)
    (name : String) :
    Succeeds (modelWithin (fuel + 1) c (.map members) name)
      ↔ ∃ keys, requiredKeys (.map members) = .ok keys ∧ ∀ m ∈ properties,
          Succeeds (fieldWithin fuel c m.2 m.1.text (isRequired keys m.1) name) := by
  obtain ⟨keys, hkeys⟩ := requiredKeys_ok h.required
  have hfields : ∀ k : List Scalar, Succeeds (properties.mapM fun m => do
        return (m.1.text, ← fieldWithin fuel c m.2 m.1.text (isRequired k m.1) name))
      ↔ ∀ m ∈ properties, Succeeds (fieldWithin fuel c m.2 m.1.text (isRequired k m.1) name) := by
    intro k
    rw [succeeds_mapM]
    refine forall₂_congr fun m _ => ?_
    exact succeeds_bind_of_forall fun _ => succeeds_pure _
  rw [modelWithin_object h hkeys]
  constructor
  · intro hmodel
    obtain ⟨fields, hok, -⟩ := succeeds_bind.mp hmodel
    exact ⟨keys, hkeys, (hfields keys).mp ⟨fields, hok⟩⟩
  · rintro ⟨keys', hkeys', hall⟩
    cases hkeys.symm.trans hkeys'
    obtain ⟨fields, hok⟩ := (hfields keys).mpr hall
    obtain ⟨about, habout⟩ := succeeds_descriptionOf "SchemaModel" h.description
    exact succeeds_bind.mpr ⟨fields, hok, succeeds_bind.mpr ⟨about, habout, succeeds_pure _⟩⟩

end ApiContract.Schema
