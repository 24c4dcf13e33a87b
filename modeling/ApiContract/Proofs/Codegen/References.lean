import ApiContract.Proofs.Codegen.Generator
import ApiContract.Proofs.Codegen.Symbols

/-!
# The imports of generated models

A generated model imports the models that its schema refers to from a property or from the items of a
list, however deep. How deep depends on the dialect: a declaration names nested objects with
properties, a validator writes out objects only where the type says so.

* **`Declaration.ModelRefers`** / **`Zod.ModelRefers`** — the references that a dialect comes to.
* **`Declaration.importsOf`** / **`Zod.mem_references_iff`** — by induction on the schema.
* **`mem_imports_iff`** — the headline.
-/

namespace ApiContract.Codegen

/-- What holds of one element of a list if it holds of its counterpart. -/
theorem exists_mem_iff_of_forall₂ {α β : Type} {r : α → β → Prop} {p : α → Prop} {q : β → Prop}
    {as : List α} {bs : List β} (h : List.Forall₂ r as bs)
    (hsame : ∀ a ∈ as, ∀ b, r a b → (q b ↔ p a)) : (∃ b ∈ bs, q b) ↔ ∃ a ∈ as, p a := by
  induction h with
  | nil => simp
  | @cons a b as bs hab _ ih =>
    have hhead := hsame a List.mem_cons_self b hab
    have htail := ih fun a' ha' => hsame a' (List.mem_cons_of_mem a ha')
    simp [hhead, htail]

namespace Declaration

/-! ## Where declarations refer to models -/

/-- A reference, or lists of lists of it. -/
inductive ItemRefers (pointer : String) : Value → Prop where
  | here {v : Value} (found : Reference.pointer? v = some pointer) : ItemRefers pointer v
  | items {v : Value} {members : Members} (other : Reference.pointer? v = none)
      (array : (Schema.typeOf v).1 = some "array") (items : v.get? "items" = some (.map members))
      (refers : ItemRefers pointer (.map members)) : ItemRefers pointer v

mutual

/-- The field of a property refers to a model, or a nested model of it does. -/
inductive FieldRefers (pointer : String) : Value → Prop where
  | reference {v : Value} (found : Reference.pointer? v = some pointer) : FieldRefers pointer v
  | items {v : Value} {members : Members} (other : Reference.pointer? v = none)
      (unlisted : (v.field "enum").isTruthy = false) (array : (Schema.typeOf v).1 = some "array")
      (items : v.get? "items" = some (.map members)) (refers : ItemRefers pointer (.map members))
      (single : ¬Nests (.map members)) : FieldRefers pointer v
  | nested {v target : Value} (unlisted : (v.field "enum").isTruthy = false)
      (found : nestTarget? v = some target) (nests : Nests target)
      (refers : ModelRefers pointer target) : FieldRefers pointer v

/-- A property of a schema refers to a model, or the items of a list do. -/
inductive ModelRefers (pointer : String) : Value → Prop where
  | property {v : Value} {properties : Members} {key : Scalar} {node : Value}
      (other : Reference.pointer? v = none) (unlisted : (v.field "enum").isTruthy = false)
      (found : Schema.properties? v = some properties) (mem : (key, node) ∈ properties)
      (refers : FieldRefers pointer node) : ModelRefers pointer v
  | items {v : Value} (other : Reference.pointer? v = none)
      (absent : Schema.properties? v = none) (array : (Schema.typeOf v).1 = some "array")
      (refers : FieldRefers pointer v) : ModelRefers pointer v

end

variable {pointer symbol : String} {v target : Value} {name parent : String} {required : Bool}
  {f : Field} {m : Model}

/-- A reference, and a list of references, is of the model that it refers to. -/
theorem ItemRefers.typeRef (h : ItemRefers pointer v) (name : Option String) :
    (typeRef v name).type = referenceSymbol pointer ∧ (typeRef v name).isReference = true
      ∧ (typeRef v name).primitive = false ∧ Schema.scalarType v = none := by
  induction h with
  | @here v found =>
    have hreference : Reference.isReference v = true := by
      unfold Reference.isReference
      rw [found]
      rfl
    rw [typeRef_of_reference found, Schema.scalarType, hreference, Bool.or_true, if_pos rfl]
    exact ⟨rfl, rfl, rfl, rfl⟩
  | items other array items refers ih =>
    have hinline := isInline_of_array other array
    rw [typeRef_of_items hinline array items, scalarType_of_array hinline array items]
    exact ih

/-- Nothing else is of a model that it refers to. -/
theorem exists_itemRefers {v : Value} (h : (typeRef v (some name)).isReference = true) :
    ∃ pointer, ItemRefers pointer v := by
  induction hsize : v.size using Nat.strongRecOn generalizing v with
  | ind n ih =>
    subst hsize
    cases hpointer : Reference.pointer? v with
    | some pointer => exact ⟨pointer, .here hpointer⟩
    | none =>
      cases hmap : v.isMap with
      | false =>
        rw [Codegen.typeRef, hpointer, hmap] at h
        cases h
      | true =>
        have hinline : IsInline v := ⟨hmap, hpointer⟩
        by_cases harray : (Schema.typeOf v).1 = some "array"
        · by_cases hitems : ∃ members, v.get? "items" = some (.map members)
          · obtain ⟨members, hitems⟩ := hitems
            rw [typeRef_of_items hinline harray hitems] at h
            obtain ⟨pointer, hrefers⟩ := ih _ (Value.size_lt_of_get? hitems) h rfl
            exact ⟨pointer, .items hpointer harray hitems hrefers⟩
          · rw [typeRef_of_no_items hinline harray fun members hget => hitems ⟨members, hget⟩] at h
            cases h
        · exact absurd ((typeRef_of_single hinline harray _).1.symm.trans h) (by decide)

/-! ## What declarations import -/

/-- The model is imported where the fields of `m` are declared. -/
def Imports (m : Model) (symbol : String) : Prop :=
  ∃ f ∈ allFields m, f.needsImport = true ∧ f.type.type = symbol

/-- The model is imported for a field, or for its nested model. -/
def FieldImports (f : Field) (symbol : String) : Prop :=
  (f.needsImport = true ∧ f.type.type = symbol)
    ∨ ∃ nested, f.nestedModel = some nested ∧ Imports nested symbol

theorem mem_go {g : Field} {fields : List Field} :
    g ∈ allFields.go fields
      ↔ ∃ f ∈ fields, g = f ∨ ∃ nested, f.nestedModel = some nested ∧ g ∈ allFields nested := by
  induction fields with
  | nil => simp [allFields.go]
  | cons f rest ih =>
    obtain ⟨name, type, scalarType, enumValues, nestedModel⟩ := f
    cases nestedModel with
    | none => simp [allFields.go, ih]
    | some nested => simp [allFields.go, ih, or_assoc]

theorem imports_iff_exists : Imports m symbol ↔ ∃ f ∈ m.fields, FieldImports f symbol := by
  obtain ⟨name, description, fields, code⟩ := m
  unfold Imports
  rw [allFields]
  constructor
  · rintro ⟨g, hg, himport⟩
    obtain ⟨f, hf, rfl | ⟨nested, hnested, hmem⟩⟩ := mem_go.mp hg
    · exact ⟨g, hf, .inl himport⟩
    · exact ⟨f, hf, .inr ⟨nested, hnested, g, hmem, himport⟩⟩
  · rintro ⟨f, hf, himport | ⟨nested, hnested, g, hmem, himport⟩⟩
    · exact ⟨f, mem_go.mpr ⟨f, hf, .inl rfl⟩, himport⟩
    · exact ⟨g, mem_go.mpr ⟨f, hf, .inr ⟨nested, hnested, hmem⟩⟩, himport⟩

/-- A field without a nested model is imported for if it has neither values nor a scalar. -/
theorem fieldImports_flat (h : FlatField v name required f) :
    FieldImports f symbol ↔ f.enumValues = none
      ∧ ∃ pointer, ItemRefers pointer v ∧ referenceSymbol pointer = symbol := by
  obtain ⟨description, htype⟩ := h.htype
  have hsame : f.type.type = (typeRef v (some name)).type
      ∧ f.type.isReference = (typeRef v (some name)).isReference
      ∧ f.type.primitive = (typeRef v (some name)).primitive := by
    rw [htype]
    exact ⟨rfl, rfl, rfl⟩
  have hflat : FieldImports f symbol ↔ f.needsImport = true ∧ f.type.type = symbol := by
    unfold FieldImports
    rw [h.hnested]
    simp
  rw [hflat]
  unfold Field.needsImport
  rw [h.hnested, h.hscalar, hsame.1, hsame.2.1, hsame.2.2]
  constructor
  · rintro ⟨hneeds, rfl⟩
    simp only [Bool.and_eq_true, Option.isNone_iff_eq_none] at hneeds
    obtain ⟨pointer, hrefers⟩ := exists_itemRefers hneeds.1.1.1.1
    exact ⟨hneeds.1.1.2, pointer, hrefers, (hrefers.typeRef _).1.symm⟩
  · rintro ⟨hvalues, pointer, hrefers, rfl⟩
    obtain ⟨hsymbol, hreference, hprimitive, hscalar⟩ := hrefers.typeRef (some name)
    refine ⟨?_, hsymbol⟩
    rw [hreference, hprimitive, hvalues, hscalar]
    rfl

/-- What a model made of a node imports. -/
def ImportsOf (v : Value) : Prop :=
  ∀ name m, DeclaredModel v name m →
    ∀ symbol, Imports m symbol ↔ ∃ pointer, ModelRefers pointer v ∧ referenceSymbol pointer = symbol

/-- What is imported for a property, if it is known for its nested model. -/
theorem fieldImports_iff (ih : ∀ target, nestTarget? v = some target → Nests target → ImportsOf target)
    (h : DeclaredField v name required parent f) :
    FieldImports f symbol ↔ ∃ pointer, FieldRefers pointer v ∧ referenceSymbol pointer = symbol := by
  cases h with
  | flat field single =>
    rw [fieldImports_flat field]
    constructor
    · rintro ⟨hvalues, pointer, hrefers, hsymbol⟩
      refine ⟨pointer, ?_, hsymbol⟩
      cases hrefers with
      | here found => exact .reference found
      | items other array items refers =>
        have hinline := isInline_of_array other array
        have hunlisted := (field.enumValues_eq_none_iff hinline).mp hvalues
        refine .items other hunlisted array items refers (single _ ?_ hunlisted)
        rw [nestTarget?_of_array hinline array, items, Option.filter_some_pos rfl]
    · rintro ⟨pointer, hrefers, hsymbol⟩
      cases hrefers with
      | reference found =>
        refine ⟨field.hother fun hinline => ?_, pointer, .here found, hsymbol⟩
        cases hinline.2.symm.trans found
      | items other unlisted array items refers _ =>
        exact ⟨(field.enumValues_eq_none_iff (isInline_of_array other array)).mpr unlisted,
          pointer, .items other array items refers, hsymbol⟩
      | nested unlisted found nests _ => exact absurd nests (single _ found unlisted)
  | @nested f target nested field found nests unlisted built =>
    have hnested : FieldImports (withNested f nested) symbol ↔ Imports nested symbol := by
      unfold FieldImports Field.needsImport withNested
      simp
    rw [hnested, ih target found nests _ _ (declaredModel built)]
    refine exists_congr fun pointer => and_congr_left' ⟨.nested unlisted found nests, fun hrefers => ?_⟩
    cases hrefers with
    | reference found' =>
      cases (isInline_of_nestTarget? found).2.symm.trans found'
    | items other _ array items _ single =>
      rw [nestTarget?_of_array (isInline_of_array other array) array, items,
        Option.filter_some_pos rfl] at found
      cases found
      exact absurd nests single
    | nested _ found' _ refers =>
      cases found.symm.trans found'
      exact refers

/-- The target of a property is no larger than its node. -/
theorem size_nestTarget?_le (h : nestTarget? v = some target) : target.size ≤ v.size := by
  have hinline := isInline_of_nestTarget? h
  by_cases harray : (Schema.typeOf v).1 = some "array"
  · rw [nestTarget?_of_array hinline harray] at h
    exact Nat.le_of_lt (Value.size_lt_of_get? (Option.filter_eq_some_iff.mp h).1)
  · rw [nestTarget?_of_single hinline harray] at h
    cases h
    exact Nat.le_refl _

/-- **What a declaration imports**, by induction on the schema. -/
theorem importsOf (v : Value) : ImportsOf v := by
  induction hsize : v.size using Nat.strongRecOn generalizing v with
  | ind n ih =>
    subst hsize
    intro name m h symbol
    rw [imports_iff_exists]
    cases h with
    | reference found =>
      refine ⟨fun ⟨f, hf, _⟩ => absurd hf List.not_mem_nil, fun ⟨pointer, hrefers, _⟩ => ?_⟩
      cases hrefers with
      | property other _ _ _ _ => cases other.symm.trans found
      | items other _ _ _ => cases other.symm.trans found
    | leaf other leaf declares empty =>
      rw [empty]
      refine ⟨fun ⟨f, hf, _⟩ => absurd hf List.not_mem_nil, fun ⟨pointer, hrefers, _⟩ => ?_⟩
      -- values, or neither properties nor items
      cases hrefers with
      | property _ unlisted found _ _ =>
        rcases leaf with hlisted | ⟨habsent, _⟩
        · exact absurd (unlisted.symm.trans hlisted) (by decide)
        · cases habsent.symm.trans found
      | items _ absent array refers =>
        rcases leaf with hlisted | ⟨_, hsingle⟩
        · cases refers with
          | reference found => cases other.symm.trans found
          | items _ unlisted _ _ _ _ => exact absurd (unlisted.symm.trans hlisted) (by decide)
          | nested unlisted _ _ _ => exact absurd (unlisted.symm.trans hlisted) (by decide)
        · exact absurd array hsingle
    | @object _ properties keys other unlisted found required fields declares =>
      have hsize : ∀ p ∈ properties, p.2.size < v.size := fun p hp =>
        Nat.lt_of_le_of_lt (size_le_membersSize (k := p.1) hp) (Schema.membersSize_lt_of_properties? found)
      have heach := forall₂_fieldsOf fields
      have hfield : ∀ p ∈ properties, ∀ f,
          propertyField p.2 p.1.text (Schema.isRequired keys p.1) (Naming.modelName name) = .ok f →
            (FieldImports f symbol
              ↔ ∃ pointer, FieldRefers pointer p.2 ∧ referenceSymbol pointer = symbol) := by
        intro p hp f hf
        refine fieldImports_iff (fun target htarget _ => ?_) (declaredField hf)
        exact ih _ (Nat.lt_of_le_of_lt (size_nestTarget?_le htarget) (hsize p hp)) target rfl
      rw [exists_mem_iff_of_forall₂ heach hfield]
      constructor
      · rintro ⟨⟨key, node⟩, hp, pointer, hrefers, hsymbol⟩
        exact ⟨pointer, .property other unlisted found hp hrefers, hsymbol⟩
      · rintro ⟨pointer, hrefers, hsymbol⟩
        cases hrefers with
        | property _ _ found' mem refers =>
          cases found.symm.trans found'
          exact ⟨_, mem, pointer, refers, hsymbol⟩
        | items _ absent _ _ => cases absent.symm.trans found
    | @list _ f other unlisted absent array field fields declares =>
      rw [fields]
      have hfield : FieldImports f symbol ↔ _ := fieldImports_iff (fun target htarget _ => by
        have hinline := isInline_of_nestTarget? htarget
        rw [nestTarget?_of_array hinline array] at htarget
        have hget := (Option.filter_eq_some_iff.mp htarget).1
        exact ih _ (Value.size_lt_of_get? hget) target rfl) field
      simp only [List.mem_singleton, exists_eq_left]
      rw [hfield]
      refine exists_congr fun pointer => and_congr_left' ⟨.items other absent array, fun hrefers => ?_⟩
      cases hrefers with
      | property _ _ found _ _ => cases absent.symm.trans found
      | items _ _ _ refers => exact refers

end Declaration

namespace Zod

/-! ## Where validators refer to models -/

/-- A node refers to a model, or a property or an item of it does. -/
inductive Refers (pointer : String) : Value → Prop where
  | reference {v : Value} (found : Reference.pointer? v = some pointer) : Refers pointer v
  | property {v : Value} {properties : Members} {key : Scalar} {node : Value}
      (other : Reference.pointer? v = none) (found : inlineProperties? v = some properties)
      (mem : (key, node) ∈ properties) (refers : Refers pointer node) : Refers pointer v
  | items {v : Value} {members : Members} (other : Reference.pointer? v = none)
      (absent : inlineProperties? v = none) (unlisted : (v.field "enum").isTruthy = false)
      (array : (Schema.typeOf v).1 = some "array") (items : v.get? "items" = some (.map members))
      (refers : Refers pointer (.map members)) : Refers pointer v

/-- A property of a schema refers to a model, or the schema is no object and does. -/
inductive ModelRefers (pointer : String) : Value → Prop where
  | property {v : Value} {properties : Members} {key : Scalar} {node : Value}
      (found : Schema.properties? v = some properties) (mem : (key, node) ∈ properties)
      (refers : Refers pointer node) : ModelRefers pointer v
  | other {v : Value} (absent : Schema.properties? v = none) (map : v.isMap = true)
      (typed : (v.field "type").isTruthy = true ∨ Reference.isReference v = true)
      (refers : Refers pointer v) : ModelRefers pointer v

variable {pointer symbol : String} {v : Value} {required : Bool} {e : Expression}

theorem references_of_completed {base : Expression} (h : completed v required base = .ok e) :
    e.references = base.references := by
  unfold completed at h
  dsimp only at h
  obtain ⟨default, -, h⟩ := bind_eq_ok.mp h
  cases h
  rfl

/-- The expressions of properties, each with its line. -/
theorem forall₂_memberExpressions {keys : List Scalar} {properties : Members}
    {es : List Expression} (h : memberExpressions keys properties = .ok es) :
    List.Forall₂ (fun p e => ∃ value,
      expression p.2 (Schema.isRequired keys p.1) = .ok value ∧ e.references = value.references
        ∧ e.code = s!"  {objectKey p.1.text}: {value.code},")
      properties es := by
  induction properties generalizing es with
  | nil =>
    rw [memberExpressions] at h
    cases h
    exact .nil
  | cons p rest ih =>
    obtain ⟨key, node⟩ := p
    rw [memberExpressions] at h
    obtain ⟨value, hvalue, h⟩ := bind_eq_ok.mp h
    obtain ⟨more, hmore, h⟩ := bind_eq_ok.mp h
    cases h
    exact .cons ⟨value, hvalue, rfl, rfl⟩ (ih hmore)

/-- What an object of properties refers to, if it is known for each of them. -/
theorem mem_references_objectOf {keys : List Scalar} {properties : Members} {es : List Expression}
    (ih : ∀ p ∈ properties, ∀ required value, expression p.2 required = .ok value →
      (symbol ∈ value.references
        ↔ ∃ pointer, Refers pointer p.2 ∧ referenceSymbol pointer = symbol))
    (h : memberExpressions keys properties = .ok es) :
    symbol ∈ (objectOf es).references
      ↔ ∃ p ∈ properties, ∃ pointer, Refers pointer p.2 ∧ referenceSymbol pointer = symbol := by
  unfold objectOf
  rw [List.mem_flatMap]
  refine exists_mem_iff_of_forall₂ (forall₂_memberExpressions h) fun p hp e ⟨value, hvalue, heq, _⟩ => ?_
  rw [heq]
  exact ih p hp _ value hvalue

/-- **What a validator refers to**, by induction on the node. -/
theorem mem_references_iff (v : Value) : ∀ required e, expression v required = .ok e →
    (symbol ∈ e.references ↔ ∃ pointer, Refers pointer v ∧ referenceSymbol pointer = symbol) := by
  induction hsize : v.size using Nat.strongRecOn generalizing v with
  | ind n ih =>
    subst hsize
    intro required e h
    cases hpointer : Reference.pointer? v with
    | some pointer =>
      rw [expression, hpointer] at h
      cases h
      rw [List.mem_singleton]
      constructor
      · rintro rfl
        exact ⟨pointer, .reference hpointer, rfl⟩
      · rintro ⟨pointer', hrefers, rfl⟩
        cases hrefers with
        | reference found =>
          cases hpointer.symm.trans found
          rfl
        | property other _ _ _ => cases hpointer.symm.trans other
        | items other _ _ _ _ _ => cases hpointer.symm.trans other
    | none =>
      cases hproperties : inlineProperties? v with
      | some properties =>
        rw [expression_of_properties hpointer hproperties] at h
        obtain ⟨keys, -, h⟩ := bind_eq_ok.mp h
        obtain ⟨es, hes, h⟩ := bind_eq_ok.mp h
        have hmembers : symbol ∈ (objectOf es).references ↔ _ := mem_references_objectOf (fun p hp => by
          have hlt := Nat.lt_of_le_of_lt (size_le_membersSize (k := p.1) hp)
            (membersSize_lt_of_inlineProperties? hproperties)
          exact ih _ hlt p.2 rfl) hes
        rw [references_of_completed h, hmembers]
        constructor
        · rintro ⟨⟨key, node⟩, hp, pointer, hrefers, hsymbol⟩
          exact ⟨pointer, .property hpointer hproperties hp hrefers, hsymbol⟩
        · rintro ⟨pointer, hrefers, hsymbol⟩
          cases hrefers with
          | reference found => cases hpointer.symm.trans found
          | property _ found mem refers =>
            cases hproperties.symm.trans found
            exact ⟨_, mem, pointer, refers, hsymbol⟩
          | items _ absent _ _ _ _ => cases hproperties.symm.trans absent
      | none =>
        rw [expression_of_no_properties hpointer hproperties] at h
        obtain ⟨values, hvalues, h⟩ := bind_eq_ok.mp h
        have hlisted := Schema.enumValues_isNone hvalues
        -- a node that is written out without items refers to nothing
        have hnone : (∀ members, (v.field "enum").isTruthy = false →
              (Schema.typeOf v).1 = some "array" → v.get? "items" ≠ some (.map members)) →
            e.references = [] → (symbol ∈ e.references
              ↔ ∃ pointer, Refers pointer v ∧ referenceSymbol pointer = symbol) := by
          intro hitems hempty
          rw [hempty]
          refine ⟨fun hmem => absurd hmem List.not_mem_nil, fun ⟨pointer, hrefers, _⟩ => ?_⟩
          cases hrefers with
          | reference found => cases hpointer.symm.trans found
          | property _ found _ _ => cases hproperties.symm.trans found
          | items _ _ unlisted array items _ => exact absurd items (hitems _ unlisted array)
        cases values with
        | some values =>
          refine hnone (fun _ hunlisted => ?_) (references_of_completed h)
          cases hlisted.mpr hunlisted
        | none =>
          dsimp only at h
          split at h
          · rename_i harray
            split at h
            · rename_i items hitems
              obtain ⟨item, hitem, h⟩ := bind_eq_ok.mp h
              rw [references_of_completed h]
              dsimp only
              rw [ih _ (Value.size_lt_of_get? hitems) (.map items) rfl true item hitem]
              refine exists_congr fun pointer => and_congr_left'
                ⟨.items hpointer hproperties (hlisted.mp rfl) harray hitems, fun hrefers => ?_⟩
              cases hrefers with
              | reference found => cases hpointer.symm.trans found
              | property _ found _ _ => cases hproperties.symm.trans found
              | items _ _ _ _ items' refers =>
                cases hitems.symm.trans items'
                exact refers
            · rename_i hother
              exact hnone (fun members _ _ => hother members) (references_of_completed h)
          · rename_i harray
            obtain ⟨code, -, h⟩ := bind_eq_ok.mp h
            exact hnone (fun _ _ array => absurd array harray) (references_of_completed h)

theorem mem_model_references_iff (h : modelExpression v = .ok e) :
    symbol ∈ e.references ↔ ∃ pointer, ModelRefers pointer v ∧ referenceSymbol pointer = symbol := by
  unfold modelExpression at h
  split at h
  · rename_i properties hproperties
    obtain ⟨keys, -, h⟩ := bind_eq_ok.mp h
    obtain ⟨es, hes, h⟩ := bind_eq_ok.mp h
    cases h
    rw [mem_references_objectOf (fun p _ => mem_references_iff p.2) hes]
    constructor
    · rintro ⟨⟨key, node⟩, hp, pointer, hrefers, hsymbol⟩
      exact ⟨pointer, .property hproperties hp hrefers, hsymbol⟩
    · rintro ⟨pointer, hrefers, hsymbol⟩
      cases hrefers with
      | property found mem refers =>
        cases hproperties.symm.trans found
        exact ⟨_, mem, pointer, refers, hsymbol⟩
      | other absent _ _ _ => cases hproperties.symm.trans absent
  · rename_i hproperties
    split at h
    · rename_i htyped
      rw [Bool.and_eq_true, Bool.or_eq_true] at htyped
      rw [mem_references_iff v true e h]
      refine exists_congr fun pointer => and_congr_left'
        ⟨.other hproperties htyped.1 htyped.2, fun hrefers => ?_⟩
      cases hrefers with
      | property found _ _ => cases hproperties.symm.trans found
      | other _ _ _ refers => exact refers
    · rename_i huntyped
      rw [Bool.and_eq_true, Bool.or_eq_true] at huntyped
      cases h
      refine ⟨fun hmem => absurd hmem List.not_mem_nil, fun ⟨pointer, hrefers, _⟩ => ?_⟩
      cases hrefers with
      | property found _ _ => cases hproperties.symm.trans found
      | other _ map typed _ => exact absurd ⟨map, typed⟩ huntyped

end Zod

/-! ## Imports -/

/-- A schema refers to a model from a place that its file of the dialect comes to. -/
def Dialect.Refers (dialect : Dialect) (schema : Value) (pointer : String) : Prop :=
  match dialect with
  | .declaration => Declaration.ModelRefers pointer schema
  | .zod => Zod.ModelRefers pointer schema
  | _ => False

/-- The line that imports a model. -/
def modelImport (dialect : Dialect) (conventions : Conventions) (symbol : String) : String :=
  importLine [symbol ++ dialect.suffix] ("../" ++ conventions.models ++ "/" ++ Naming.kebabCase symbol)

theorem Declaration.mem_fieldImports {m : Model} {conventions : Conventions} {line : String} :
    line ∈ Distinct.add [libraryImport] (fieldImports (allFields m) conventions false)
      ↔ line ∈ [libraryImport]
        ∨ ∃ symbol, Imports m symbol ∧ modelImport .declaration conventions symbol = line := by
  have hline : ∀ symbol, modelImport .declaration conventions symbol
      = importLine [symbol] ("../" ++ conventions.models ++ "/" ++ Naming.kebabCase symbol) := by
    intro symbol
    unfold modelImport Dialect.suffix
    rw [String.append_empty]
  unfold fieldImports
  rw [Distinct.mem_add, Distinct.mem_add, ← or_assoc, or_self, List.mem_map]
  refine or_congr Iff.rfl ⟨?_, ?_⟩
  · rintro ⟨f, hf, rfl⟩
    obtain ⟨hf, hneeds⟩ := List.mem_filter.mp hf
    exact ⟨_, ⟨f, hf, hneeds, rfl⟩, hline _⟩
  · rintro ⟨symbol, ⟨f, hf, hneeds, rfl⟩, rfl⟩
    exact ⟨f, List.mem_filter.mpr ⟨hf, hneeds⟩, (hline _).symm⟩

/-- **A file imports** the library of its dialect, and the models that its schema refers to. -/
theorem mem_imports_iff {dialect : Dialect} (hdialect : dialect = .declaration ∨ dialect = .zod)
    {conventions : Conventions} {schema given : Value} {name line : String} {code : GeneratedCode}
    (h : dialect.generateModel conventions schema name given = .ok code) :
    line ∈ code.imports ↔ line ∈ dialect.baseImports
      ∨ ∃ pointer, dialect.Refers schema pointer
          ∧ modelImport dialect conventions (referenceSymbol pointer) = line := by
  rcases hdialect with rfl | rfl
  · obtain ⟨m, hm, h⟩ := bind_eq_ok.mp h
    have himports := Declaration.importsOf schema name m (Declaration.declaredModel hm)
    rw [← Except.ok.inj h]
    dsimp only
    rw [Declaration.mem_fieldImports]
    constructor
    · rintro (hbase | ⟨symbol, hsymbol, rfl⟩)
      · exact .inl hbase
      · obtain ⟨pointer, hrefers, rfl⟩ := (himports symbol).mp hsymbol
        exact .inr ⟨pointer, hrefers, rfl⟩
    · rintro (hbase | ⟨pointer, hrefers, rfl⟩)
      · exact .inl hbase
      · exact .inr ⟨_, (himports _).mpr ⟨pointer, hrefers, rfl⟩, rfl⟩
  · obtain ⟨body, hbody, h⟩ := bind_eq_ok.mp h
    obtain ⟨about, -, h⟩ := bind_eq_ok.mp h
    have hreferences : ∀ symbol, symbol ∈ body.references ↔ _ := fun symbol =>
      Zod.mem_model_references_iff hbody
    rw [← Except.ok.inj h]
    dsimp only
    rw [Distinct.mem_add, List.mem_map]
    refine or_congr Iff.rfl ⟨?_, ?_⟩
    · rintro ⟨symbol, hsymbol, rfl⟩
      obtain ⟨pointer, hrefers, rfl⟩ := (hreferences symbol).mp hsymbol
      exact ⟨pointer, hrefers, rfl⟩
    · rintro ⟨pointer, hrefers, rfl⟩
      exact ⟨_, (hreferences _).mpr ⟨pointer, hrefers, rfl⟩, rfl⟩

end ApiContract.Codegen
