import ApiContract.Proofs.Checked
import ApiContract.Proofs.Named
import ApiContract.Proofs.Schema.Canonical

/-!
# What the builder gives

`BuiltModel` and `BuiltField` list all that a schema can be built into: a field holds exactly one
type, and only the description of a list may be anything but a text. What holds of every model that
is built is read off these few cases, and the builder is gone through once.

* **`builtWithin`** — the builder, by induction on its fuel.
* **`built_modelOf`** — the headline.
-/

namespace ApiContract.Schema

open Contract

/-! ## Cases -/

mutual

/-- The fields that are built for a property of a model. -/
inductive BuiltField : (parent property : String) → FieldSpec → Prop where
  | scalar {parent property : String} (s : ScalarType) {isOptional isArray : Bool}
      {description : Option Value}
      (text : isArray = true ∨ ∀ d ∈ description, ∃ t, d = .str t) :
      BuiltField parent property ⟨some s, none, none, none, isOptional, isArray, description⟩
  | enumeration {parent property : String} {values : List String} {isOptional isArray : Bool}
      {description : Option Value} (nonempty : values ≠ [])
      (text : isArray = true ∨ ∀ d ∈ description, ∃ t, d = .str t) :
      BuiltField parent property ⟨none, some values, none, none, isOptional, isArray, description⟩
  | nested {parent property : String} {m : SchemaModel} {isOptional isArray : Bool}
      {description : Option Value} (component : Option String)
      (built : BuiltModel (nestedName component parent property) m)
      (same : isArray = true ∨ description = none ∨ description = m.description.map .str) :
      BuiltField parent property ⟨none, none, some m, none, isOptional, isArray, description⟩
  | reference {parent property : String} (name : String) {isOptional isArray : Bool}
      {description : Option Value} (bare : isArray = true ∨ description = none) :
      BuiltField parent property
        ⟨none, none, none, some (Naming.pascalCase name), isOptional, isArray, description⟩

/-- The models that are built under a name. -/
inductive BuiltModel : (name : String) → SchemaModel → Prop where
  | mk {name : String} (description : Option String) {fields : List (String × FieldSpec)}
      (nodup : (fields.map (·.1)).Nodup) (built : ∀ f ∈ fields, BuiltField name f.1 f.2) :
      BuiltModel name ⟨name, description, fields⟩

end

variable {parent property : String} {f item : FieldSpec}

/-- A model without fields. -/
theorem BuiltModel.empty (name : String) (description : Option String) :
    BuiltModel name ⟨name, description, []⟩ :=
  .mk description List.nodup_nil fun _ hf => absurd hf List.not_mem_nil

/-- The one field of a wrapper has no description. -/
theorem BuiltField.bare (h : BuiltField parent property f) :
    BuiltField parent property { f with description := none } := by
  cases h with
  | scalar s text => exact .scalar s (.inr nofun)
  | enumeration nonempty text => exact .enumeration nonempty (.inr nofun)
  | nested component built same => exact .nested component built (.inr (.inl rfl))
  | reference name bare => exact .reference name (.inr rfl)

/-- A list of items, or of anything if the items are lists. -/
theorem BuiltField.list (h : BuiltField parent property item) (isOptional : Bool)
    (description : Value) : BuiltField parent property (listOfItem item isOptional description) := by
  unfold listOfItem
  split
  · exact .scalar .json (.inl rfl)
  · cases h with
    | scalar s text => exact .scalar s (.inl rfl)
    | enumeration nonempty text => exact .enumeration nonempty (.inl rfl)
    | nested component built same => exact .nested component built (.inl rfl)
    | reference name bare => exact .reference name (.inl rfl)

/-! ## Descriptions -/

/-- Whoever reads it, a description that can be read is the same text. -/
theorem text_of_descriptionOf {model : String} {v : Value} {text : Option String}
    (h : descriptionOf model v = .ok text) (other : String) :
    descriptionOf other v = .ok text := by
  unfold descriptionOf at h ⊢
  split at h
  · exact h
  · cases hv : Check.text v with
    | ok s =>
      rw [hv] at h
      exact h
    | wrong n =>
      rw [hv] at h
      cases h

/-- A field that is no list has a text as its description, or none. -/
theorem exists_text_of_singleField {field : FieldSpec} {isOptional : Bool} {description : Value}
    (h : singleField field isOptional description = .ok f) :
    ∃ text, (∀ model, descriptionOf model description = .ok text)
      ∧ f = { field with isOptional, description := text.map .str } := by
  unfold singleField at h
  obtain ⟨text, htext, h⟩ := bind_eq_ok.mp h
  cases h
  exact ⟨text, text_of_descriptionOf htext, rfl⟩

theorem isText_of_mem_map {text : Option String} : ∀ d ∈ text.map Value.str, ∃ t, d = .str t := by
  intro d hd
  obtain ⟨t, -, rfl⟩ := Option.map_eq_some_iff.mp hd
  exact ⟨t, rfl⟩

/-! ## Enumerations -/

/-- Something that counts as present and can be gone through has an element. -/
theorem elements_ne_nil {v : Value} {items : List Value} (htruthy : v.isTruthy = true)
    (h : elements v = .ok items) : items ≠ [] := by
  unfold elements at h
  rintro rfl
  cases v with
  | scalar leaf =>
    cases leaf with
    | str s =>
      have hnil : s.toList = [] := by simpa [Value.elements?] using h
      simp [Value.isTruthy, String.toList_eq_nil_iff.mp hnil] at htruthy
    | bytes b =>
      have hnil : b = [] := by simpa [Value.elements?] using h
      simp [Value.isTruthy, hnil] at htruthy
    | _ => cases h
  | list items =>
    have hnil : items = [] := by simpa [Value.elements?] using h
    simp [Value.isTruthy, hnil] at htruthy
  | map members =>
    have hnil : members = [] := by simpa [Value.elements?] using h
    simp [Value.isTruthy, hnil] at htruthy
  | set items =>
    have hnil : items = [] := by simpa [Value.elements?] using h
    simp [Value.isTruthy, hnil] at htruthy

theorem enumValues_ne_nil {schema : Value} {values : List Value}
    (h : enumValues schema = .ok (some values)) : values ≠ [] := by
  unfold enumValues at h
  dsimp only at h
  split at h
  · rename_i htruthy
    obtain ⟨items, hitems, heq⟩ := map_eq_ok.mp h
    cases heq
    exact elements_ne_nil htruthy hitems
  · cases h

/-! ## The builder -/

/-- The statement of the induction: models and fields that are built with some fuel are of the cases
above, and a model has the description of its node. -/
structure BuiltWithin (fuel : Nat) : Prop where
  model : ∀ c schema name m, modelWithin fuel c schema name = .ok m →
    BuiltModel name m ∧ descriptionOf "SchemaModel" (schema.field "description") = .ok m.description
  field : ∀ c schema property required parent f,
    fieldWithin fuel c schema property required parent = .ok f → BuiltField parent property f
  node : ∀ c schema component property required parent f,
    nodeField fuel c schema component property required parent = .ok f →
    BuiltField parent property f

theorem BuiltWithin.zero : BuiltWithin 0 where
  model := by
    intro c schema name m h
    cases h
  field := by
    intro c schema property required parent f h
    cases h
  node := by
    intro c schema component property required parent f h
    cases h

theorem BuiltWithin.succ_model {fuel : Nat} (ih : BuiltWithin fuel) :
    ∀ c schema name m, modelWithin (fuel + 1) c schema name = .ok m →
      BuiltModel name m
        ∧ descriptionOf "SchemaModel" (schema.field "description") = .ok m.description := by
  intro c schema name m h
  rw [modelWithin] at h
  cases hmap : schema.isMap with
  | false =>
    rw [hmap, if_pos (by decide)] at h
    cases h
    have hdescription : schema.field "description" = .null := by
      cases schema with
      | map members => cases hmap
      | scalar leaf => rfl
      | list items => rfl
      | set items => rfl
    rw [hdescription]
    exact ⟨.empty name none, rfl⟩
  | true =>
    rw [hmap, if_neg (by decide)] at h
    dsimp only at h
    split at h
    · -- the properties of an object
      obtain ⟨required, hrequired, h⟩ := bind_eq_ok.mp h
      obtain ⟨fields, hfields, h⟩ := bind_eq_ok.mp h
      obtain ⟨about, habout, h⟩ := bind_eq_ok.mp h
      cases h
      refine ⟨.mk about (Named.nodup_ofList fields) fun f hf => ?_, habout⟩
      obtain ⟨p, -, hp⟩ := mem_of_mapM_eq_ok hfields (Named.mem_of_mem_ofList hf)
      obtain ⟨field, hfield, hp⟩ := bind_eq_ok.mp hp
      cases hp
      exact ih.field _ _ _ _ _ _ hfield
    · split at h
      · obtain ⟨about, habout, h⟩ := bind_eq_ok.mp h
        cases h
        exact ⟨.empty name about, habout⟩
      · -- anything else is the one field of a wrapper
        obtain ⟨field, hfield, h⟩ := bind_eq_ok.mp h
        obtain ⟨about, habout, h⟩ := bind_eq_ok.mp h
        cases h
        refine ⟨.mk about (List.nodup_singleton _) fun f hf => ?_, habout⟩
        cases List.mem_singleton.mp hf
        exact (ih.field _ _ _ _ _ _ hfield).bare

theorem BuiltWithin.succ_field {fuel : Nat} (ih : BuiltWithin fuel) :
    ∀ c schema property required parent f,
      fieldWithin (fuel + 1) c schema property required parent = .ok f →
      BuiltField parent property f := by
  intro c schema property required parent f h
  rw [fieldWithin] at h
  split at h
  · exact ih.node _ _ _ _ _ _ _ h
  · obtain ⟨⟨target, component⟩, -, h⟩ := bind_eq_ok.mp h
    dsimp only at h
    split at h
    · split at h
      · cases h
        exact .reference _ (.inr rfl)
      · split at h
        · cases h
        · exact ih.node _ _ _ _ _ _ _ h
    · cases h
      exact .reference _ (.inr rfl)

theorem BuiltWithin.succ_node {fuel : Nat} (ih : BuiltWithin fuel) :
    ∀ c schema component property required parent f,
      nodeField (fuel + 1) c schema component property required parent = .ok f →
      BuiltField parent property f := by
  intro c schema component property required parent f h
  rw [nodeField] at h
  split at h
  · cases h
    exact .scalar .unknown (.inr nofun)
  · dsimp only at h
    split at h
    · -- a list, whose item is built first
      split at h
      · have hunknown : BuiltField parent property { scalar := some .unknown } :=
          .scalar .unknown (.inr nofun)
        cases h
        exact hunknown.list _ _
      · obtain ⟨item, hitem, h⟩ := bind_eq_ok.mp h
        cases h
        exact (ih.field _ _ _ _ _ _ hitem).list _ _
    · obtain ⟨values, hvalues, h⟩ := bind_eq_ok.mp h
      split at h
      · rename_i values
        obtain ⟨text, -, rfl⟩ := exists_text_of_singleField h
        have hnonempty : values.map Value.text ≠ [] := by simpa using enumValues_ne_nil hvalues
        exact .enumeration hnonempty (.inr isText_of_mem_map)
      · split at h
        · obtain ⟨nested, hnested, h⟩ := bind_eq_ok.mp h
          obtain ⟨hbuilt, hdescription⟩ := ih.model _ _ _ _ hnested
          obtain ⟨text, htext, rfl⟩ := exists_text_of_singleField h
          cases hdescription.symm.trans (htext "SchemaModel")
          exact .nested _ hbuilt (.inr (.inr rfl))
        · split at h
          · obtain ⟨text, -, rfl⟩ := exists_text_of_singleField h
            exact .scalar .jsonObject (.inr isText_of_mem_map)
          · obtain ⟨text, -, rfl⟩ := exists_text_of_singleField h
            exact .scalar _ (.inr isText_of_mem_map)

/-- **What the builder gives**, by induction on the fuel. -/
theorem builtWithin (fuel : Nat) : BuiltWithin fuel := by
  induction fuel with
  | zero => exact .zero
  | succ fuel ih => exact ⟨ih.succ_model, ih.succ_field, ih.succ_node⟩

/-- **The model of a schema** is of these cases, under the name in Pascal case if there is one. -/
theorem built_modelOf {schema document : Value} {name : String} {m : SchemaModel}
    (h : modelOf schema name document = .ok m) :
    BuiltModel (if (Naming.pascalCase name).isEmpty then name else Naming.pascalCase name) m := by
  unfold modelOf at h
  obtain ⟨⟨schema', component⟩, -, h⟩ := bind_eq_ok.mp h
  exact ((builtWithin _).model _ _ _ _ h).1

end ApiContract.Schema
