import ApiContract.Codegen.Declaration
import ApiContract.Proofs.Schema.Exported

/-!
# Declarations of exported schemas

The declaration of a model is built from its schema alone: references are named and not followed. So
every exported object has one (`succeeds_model`), whatever its references lead to.
-/

namespace ApiContract.Codegen.Declaration

open Schema

variable {names : List String} {members properties : Members}

theorem succeeds_modelDescription (h : MaybeText members "description") :
    Succeeds (modelDescription ((Value.map members).field "description")) := by
  obtain hnull | ⟨s, hs⟩ := description_cases h
  · rw [hnull]
    exact ⟨none, rfl⟩
  · rw [hs]
    exact ⟨some s, rfl⟩

theorem succeeds_openModel (name : String) (h : MaybeText members "description") :
    Succeeds (openModel name ((Value.map members).field "description")) := by
  unfold openModel
  obtain hnull | ⟨s, hs⟩ := description_cases h
  · rw [hnull]
    exact ⟨_, rfl⟩
  · rw [hs]
    split
    · exact ⟨_, rfl⟩
    · exact ⟨_, rfl⟩

theorem succeeds_objectModel (name : String) (h : MaybeText members "description")
    (fields : List Field) :
    Succeeds (objectModel name ((Value.map members).field "description") fields) := by
  obtain ⟨opening, hopening⟩ := succeeds_openModel name h
  obtain ⟨about, habout⟩ := succeeds_modelDescription h
  unfold objectModel
  exact succeeds_bind.mpr ⟨opening, hopening, succeeds_bind.mpr ⟨about, habout, succeeds_pure _⟩⟩

theorem succeeds_fieldOf {v : Value} (hv : Exported names v) (name : String) (required : Bool) :
    Succeeds (fieldOf v name required) := by
  unfold fieldOf
  dsimp only
  split
  · next hinline =>
    have hvalues : Succeeds (enumValues v) := by
      cases hv with
      | reference hname => cases hinline
      | leaf node => exact enumValues_ok node.enum
      | list node _ => exact ⟨none, enumValues_none node.enum⟩
      | object node _ => exact ⟨none, enumValues_none node.enum⟩
    obtain ⟨values, hvalues⟩ := hvalues
    exact succeeds_bind.mpr ⟨values, hvalues, succeeds_pure _⟩
  · exact succeeds_bind.mpr ⟨none, rfl, succeeds_pure _⟩

/-- The model of an object comes down to the fields of its properties. -/
theorem succeeds_model_of_properties (node : ObjectNode members properties)
    (h : ∀ m ∈ properties, ∀ name required parent,
      Succeeds (propertyField m.2 name required parent)) (name : String) :
    Succeeds (model (.map members) name .null) := by
  obtain ⟨keys, hkeys⟩ := requiredKeys_ok node.required
  have hfields : ∀ parent, ∀ ps : Members, (∀ m ∈ ps, m ∈ properties) →
      Succeeds (fieldsOf parent keys ps) := by
    intro parent ps hps
    induction ps with
    | nil =>
      rw [fieldsOf]
      exact succeeds_pure _
    | cons m rest ih =>
      obtain ⟨key, schema⟩ := m
      rw [fieldsOf]
      obtain ⟨field, hfield⟩ := h (key, schema) (hps _ List.mem_cons_self) key.text
        (isRequired keys key) parent
      obtain ⟨fields, hfields⟩ := ih fun m hm => hps m (List.mem_cons_of_mem _ hm)
      exact succeeds_bind.mpr ⟨field, hfield, succeeds_bind.mpr ⟨fields, hfields, succeeds_pure _⟩⟩
  obtain ⟨fields, hfields⟩ := hfields (Naming.modelName name) properties fun m hm => hm
  have hmodel := succeeds_objectModel (Naming.modelName name) node.description fields
  rw [model, node.pointer?_eq_none, enumValues_none node.enum]
  dsimp only [bind, Except.bind]
  split
  · next properties' hprops =>
    cases node.properties?.symm.trans hprops
    rw [hkeys]
    dsimp only
    rw [hfields]
    exact hmodel
  · next hnone =>
    rw [node.properties?] at hnone
    cases hnone

theorem wantsNested_eq_false {target : Value} (h : properties? target = none) (f : Field) :
    wantsNested f target = false := by
  simp [wantsNested, h]

/-- The field of a node from what its nested model needs. -/
theorem succeeds_withNested {v target : Value} (hv : Exported names v) (name : String)
    (required : Bool) (nestedName : String)
    (h : (properties? target).isSome → Succeeds (model target nestedName .null)) :
    Succeeds (do
      let field ← fieldOf v name required
      if wantsNested field target then return withNested field (← model target nestedName .null)
      else return field) := by
  obtain ⟨field, hfield⟩ := succeeds_fieldOf hv name required
  refine succeeds_bind.mpr ⟨field, hfield, ?_⟩
  cases hprops : properties? target with
  | none =>
    rw [wantsNested_eq_false hprops]
    exact succeeds_pure _
  | some properties =>
    split
    · obtain ⟨nested, hnested⟩ := h (by rw [hprops]; rfl)
      exact succeeds_bind.mpr ⟨nested, hnested, succeeds_pure _⟩
    · exact succeeds_pure _

/-- Every property gives a field, and every object a model. Induction on the schema. -/
theorem succeeds_propertyField {v : Value} (hv : Exported names v) :
    (∀ name required parent, Succeeds (propertyField v name required parent))
      ∧ ((properties? v).isSome → ∀ name, Succeeds (model v name .null)) := by
  induction hv with
  | @reference name hname =>
    refine ⟨fun property required parent => ?_, fun h => by cases h⟩
    rw [propertyField]
    exact succeeds_fieldOf (.reference hname) property required
  | @leaf members node =>
    have hnone := properties?_none node.properties
    have hmodel : (properties? (.map members)).isSome → ∀ name,
        Succeeds (model (.map members) name .null) := by
      intro h
      rw [hnone] at h
      cases h
    refine ⟨fun property required parent => ?_, hmodel⟩
    have harray : isArray (.map members) = false := by
      simpa [isArray] using node.typeOf_ne_array
    have hleaf : Exported names (.map members) := .leaf node
    rw [propertyField, harray]
    split
    · exact succeeds_fieldOf hleaf property required
    · exact succeeds_withNested hleaf property required _ (fun h => hmodel h _)
  | @list members item node exported ih =>
    have hnone := properties?_none node.properties
    have hmodel : (properties? (.map members)).isSome → ∀ name,
        Succeeds (model (.map members) name .null) := by
      intro h
      rw [hnone] at h
      cases h
    refine ⟨fun property required parent => ?_, hmodel⟩
    have hlist := Exported.list node exported
    rw [propertyField]
    split
    · exact succeeds_fieldOf hlist property required
    · split
      · rw [listField]
        obtain ⟨field, hfield⟩ := succeeds_fieldOf hlist property required
        refine succeeds_bind.mpr ⟨field, hfield, ?_⟩
        have hitem : (Value.map members).get? "items" = some item := node.items
        split
        · next items hitems =>
          cases hitem.symm.trans hitems
          cases hprops : properties? (.map items) with
          | none =>
            rw [wantsNested_eq_false hprops]
            exact succeeds_pure _
          | some properties =>
            split
            · obtain ⟨nested, hnested⟩ := ih.2 (by rw [hprops]; rfl)
                (parent ++ Naming.pascalCase property)
              exact succeeds_bind.mpr ⟨nested, hnested, succeeds_pure _⟩
            · exact succeeds_pure _
        · exact succeeds_pure _
      · exact succeeds_withNested hlist property required _ (fun h => hmodel h _)
  | @object members properties node exported ih =>
    have hmodel := succeeds_model_of_properties node fun m hm => (ih m hm).1
    refine ⟨fun property required parent => ?_, fun _ => hmodel⟩
    have hobject := Exported.object node exported
    have harray : isArray (.map members) = false := by
      unfold isArray
      rw [typeOf_text node.type]
      decide
    rw [propertyField, harray]
    split
    · exact succeeds_fieldOf hobject property required
    · exact succeeds_withNested hobject property required _ (fun _ => hmodel _)

/-- **An exported object has a declaration.** -/
theorem succeeds_generateModel (node : ObjectNode members properties)
    (exported : ∀ m ∈ properties, Exported names m.2) (conventions : Conventions) (name : String) :
    Succeeds (generateModel conventions (.map members) name .null) := by
  obtain ⟨model, hmodel⟩ := (succeeds_propertyField (.object node exported)).2
    (by rw [node.properties?]; rfl) name
  unfold generateModel
  exact succeeds_bind.mpr ⟨model, hmodel, succeeds_pure _⟩

end ApiContract.Codegen.Declaration
