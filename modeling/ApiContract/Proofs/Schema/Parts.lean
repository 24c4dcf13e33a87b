import ApiContract.Proofs.Schema.Projection
import ApiContract.Proofs.Schema.Typed

/-!
# Which parts of a schema have to be well-formed

Schemas are read leniently, but a few parts of a node are gone through, looked up or kept as they
are, and a value of the wrong kind there ends the reading: an enumeration and a list of required
names must be something that can be gone through, the names must be leaves, a format must be a leaf,
and a description a text. Everything else may be of any shape.

`Reads` says which parts of which nodes the builder of models reads when there is no document to
resolve references in. It succeeds exactly if all of them are well-formed.

* **`succeeds_enumValues_iff`** / **`succeeds_requiredKeys_iff`** / **`succeeds_descriptionOf_iff`**
* **`readsWithin`** — models and fields, by induction on the fuel.
* **`modelOf_succeeds_iff_readable`** — the headline.
-/

namespace ApiContract.Schema

open Contract (FieldSpec SchemaModel ScalarType)

/-! ## Parts -/

/-- The parts of a node that may be unreadable. A caption is a description that only counts where it
is there. -/
inductive Part where
  | enumeration
  | required
  | format
  | description
  | caption
  deriving DecidableEq, Repr

def isScalar : Value → Bool
  | .scalar _ => true
  | _ => false

/-- Null or a text. -/
def isText (v : Value) : Bool := v.isNull || (Check.text v).isOk

/-- Whether a part of a node is well-formed. -/
def Part.isReadable (node : Value) : Part → Bool
  | .enumeration =>
    let values := node.field "enum"
    !values.isTruthy || values.elements?.isSome
  | .required =>
    let names := node.field "required"
    !names.isTruthy || (names.elements?.map (·.all isScalar)).getD false
  | .format => isScalar (node.field "format")
  | .description => isText (node.field "description")
  | .caption =>
    let description := node.field "description"
    !description.isTruthy || isText description

variable {v schema : Value}

theorem succeeds_elements_iff : Succeeds (elements v) ↔ v.elements?.isSome = true := by
  unfold elements
  cases v.elements? with
  | none => simp [Succeeds]
  | some items => simp

theorem succeeds_enumValues_iff :
    Succeeds (enumValues schema) ↔ Part.enumeration.isReadable schema = true := by
  unfold enumValues Part.isReadable
  dsimp only
  cases (schema.field "enum").isTruthy with
  | false => simp
  | true => simp [succeeds_map, succeeds_elements_iff]

theorem succeeds_asKey_iff : Succeeds (asKey v) ↔ isScalar v = true := by
  cases v with
  | scalar s => exact iff_of_true (succeeds_ok s) rfl
  | list items => exact iff_of_false (by simp [asKey, Succeeds]) Bool.noConfusion
  | map members => exact iff_of_false (by simp [asKey, Succeeds]) Bool.noConfusion
  | set items => exact iff_of_false (by simp [asKey, Succeeds]) Bool.noConfusion

theorem succeeds_requiredKeys_iff :
    Succeeds (requiredKeys schema) ↔ Part.required.isReadable schema = true := by
  unfold requiredKeys Part.isReadable elements
  dsimp only
  cases (schema.field "required").isTruthy with
  | false => simp
  | true =>
    cases (schema.field "required").elements? with
    | none => simp [succeeds_bind]
    | some items =>
      rw [if_pos rfl]
      show Succeeds (items.mapM asKey) ↔ _
      rw [succeeds_mapM]
      simp [succeeds_asKey_iff]

theorem succeeds_toExcept_iff {α : Type} {x : Checked α} {model : String} :
    Succeeds (x.toExcept model) ↔ x.isOk = true := by
  cases x with
  | ok a => exact iff_of_true (succeeds_ok a) rfl
  | wrong n => exact iff_of_false (not_succeeds_error _) Bool.noConfusion

/-- A description that is kept must be a text. -/
theorem succeeds_text_iff (model : String) :
    Succeeds ((some <$> Check.text v).toExcept model) ↔ (Check.text v).isOk = true := by
  rw [succeeds_toExcept_iff]
  cases Check.text v with
  | ok s => rfl
  | wrong n => rfl

theorem succeeds_descriptionOf_iff (model : String) :
    Succeeds (descriptionOf model v) ↔ isText v = true := by
  unfold descriptionOf isText
  split
  · exact iff_of_true (succeeds_ok none) rfl
  · rename_i hnull
    have hother : v.isNull = false := by
      unfold Value.isNull
      split
      · exact absurd rfl hnull
      · rfl
    rw [succeeds_text_iff, hother, Bool.false_or]

theorem succeeds_singleField_iff (field : FieldSpec) (isOptional : Bool) :
    Succeeds (singleField field isOptional v) ↔ isText v = true := by
  unfold singleField
  rw [← succeeds_descriptionOf_iff "FieldSpec"]
  exact succeeds_bind_of_forall fun text => succeeds_pure _

/-- A description is the last thing that is read of a model. -/
theorem succeeds_about_iff {α : Type} (node : Value) (f : Option String → α) :
    Succeeds (do return f (← descriptionOf "SchemaModel" (node.field "description")))
      ↔ Part.description.isReadable node = true := by
  have habout := succeeds_descriptionOf_iff (v := node.field "description") "SchemaModel"
  exact (succeeds_bind_of_forall fun about => succeeds_pure _).trans habout

/-! ## The parts that are read -/

/-- An object of which no properties are named. -/
def IsBare (schema : Value) : Prop :=
  (typeOf schema).1 = some "object"
    ∨ (typeOf schema).1 = none ∧ (schema.field "enum").isTruthy = false

theorem isBare_iff (schema : Value) : IsBare schema ↔ (typeOf schema).1 = some "object"
    ∨ ((typeOf schema).1 = none ∧ (!(schema.field "enum").isTruthy) = true) := by
  unfold IsBare
  rw [Bool.not_eq_true']

mutual

/-- The part of the node is read where a model is built of the schema. -/
inductive Reads : (part : Part) → (node schema : Value) → Prop where
  | description {schema : Value} : Reads .description schema schema
  | required {schema : Value} {properties : Members}
      (found : properties? schema = some properties) : Reads .required schema schema
  | property {part : Part} {node schema : Value} {properties : Members} {property : Scalar × Value}
      (found : properties? schema = some properties) (member : property ∈ properties)
      (reads : FieldReads part node property.2) : Reads part node schema
  | wrapped {part : Part} {node schema : Value} (absent : properties? schema = none)
      (other : ¬IsBare schema) (reads : FieldReads part node schema) : Reads part node schema

/-- The part of the node is read where a field is built of the schema. A reference is not read. -/
inductive FieldReads : (part : Part) → (node schema : Value) → Prop where
  | item {part : Part} {node schema : Value} (other : Reference.pointer? schema = none)
      (array : (typeOf schema).1 = some "array")
      (reads : FieldReads part node (schema.field "items")) : FieldReads part node schema
  | enumeration {schema : Value} (other : Reference.pointer? schema = none)
      (single : (typeOf schema).1 ≠ some "array") : FieldReads .enumeration schema schema
  | description {schema : Value} (other : Reference.pointer? schema = none)
      (single : (typeOf schema).1 ≠ some "array") : FieldReads .description schema schema
  | nested {part : Part} {node schema : Value} {properties : Members}
      (other : Reference.pointer? schema = none) (single : (typeOf schema).1 ≠ some "array")
      (unlisted : (schema.field "enum").isTruthy = false)
      (found : properties? schema = some properties) (reads : Reads part node schema) :
      FieldReads part node schema

end

/-- What is read for a model is well-formed. -/
def Readable (schema : Value) : Prop :=
  ∀ part node, Reads part node schema → part.isReadable node = true

/-- What is read for a field is well-formed. -/
def FieldReadable (schema : Value) : Prop :=
  ∀ part node, FieldReads part node schema → part.isReadable node = true

theorem readable_iff_of_properties {properties : Members}
    (found : properties? schema = some properties) :
    Readable schema ↔ Part.required.isReadable schema = true
      ∧ (∀ p ∈ properties, FieldReadable p.2) ∧ Part.description.isReadable schema = true := by
  constructor
  · intro h
    exact ⟨h _ _ (.required found), fun p hp part node hreads => h _ _ (.property found hp hreads),
      h _ _ .description⟩
  · rintro ⟨hrequired, hfields, hdescription⟩ part node hreads
    cases hreads with
    | description => exact hdescription
    | required _ => exact hrequired
    | property found' member reads =>
      cases found.symm.trans found'
      exact hfields _ member _ _ reads
    | wrapped absent _ _ => cases found.symm.trans absent

theorem readable_iff_of_bare (absent : properties? schema = none) (bare : IsBare schema) :
    Readable schema ↔ Part.description.isReadable schema = true := by
  constructor
  · exact fun h => h _ _ .description
  · intro hdescription part node hreads
    cases hreads with
    | description => exact hdescription
    | required found => cases found.symm.trans absent
    | property found _ _ => cases found.symm.trans absent
    | wrapped _ other _ => exact absurd bare other

theorem readable_iff_of_wrapped (absent : properties? schema = none) (other : ¬IsBare schema) :
    Readable schema ↔ FieldReadable schema ∧ Part.description.isReadable schema = true := by
  constructor
  · intro h
    exact ⟨fun part node hreads => h _ _ (.wrapped absent other hreads), h _ _ .description⟩
  · rintro ⟨hfield, hdescription⟩ part node hreads
    cases hreads with
    | description => exact hdescription
    | required found => cases found.symm.trans absent
    | property found _ _ => cases found.symm.trans absent
    | wrapped _ _ reads => exact hfield _ _ reads

theorem fieldReadable_of_reference {pointer : String}
    (h : Reference.pointer? schema = some pointer) : FieldReadable schema := by
  intro part node hreads
  cases hreads with
  | item other _ _ => cases h.symm.trans other
  | enumeration other _ => cases h.symm.trans other
  | description other _ => cases h.symm.trans other
  | nested other _ _ _ _ => cases h.symm.trans other

theorem fieldReadable_iff_of_array (other : Reference.pointer? schema = none)
    (array : (typeOf schema).1 = some "array") :
    FieldReadable schema ↔ FieldReadable (schema.field "items") := by
  constructor
  · exact fun h part node hreads => h _ _ (.item other array hreads)
  · intro h part node hreads
    cases hreads with
    | item _ _ reads => exact h _ _ reads
    | enumeration _ single => exact absurd array single
    | description _ single => exact absurd array single
    | nested _ single _ _ _ => exact absurd array single

theorem fieldReadable_iff_of_single (other : Reference.pointer? schema = none)
    (single : (typeOf schema).1 ≠ some "array") :
    FieldReadable schema ↔ Part.enumeration.isReadable schema = true
      ∧ Part.description.isReadable schema = true
      ∧ ((schema.field "enum").isTruthy = false → (properties? schema).isSome = true →
        Readable schema) := by
  constructor
  · intro h
    refine ⟨h _ _ (.enumeration other single), h _ _ (.description other single), ?_⟩
    intro unlisted hsome part node hreads
    obtain ⟨properties, found⟩ := Option.isSome_iff_exists.mp hsome
    exact h _ _ (.nested other single unlisted found hreads)
  · rintro ⟨henum, hdescription, hnested⟩ part node hreads
    cases hreads with
    | item _ array _ => exact absurd array single
    | enumeration _ _ => exact henum
    | description _ _ => exact hdescription
    | nested _ _ unlisted found reads =>
      exact hnested unlisted (Option.isSome_iff_exists.mpr ⟨_, found⟩) _ _ reads

/-- What is no mapping says nothing that could be wrong. -/
theorem isReadable_of_not_map (h : schema.isMap = false) (part : Part) (hformat : part ≠ .format) :
    part.isReadable schema = true := by
  cases part with
  | format => exact absurd rfl hformat
  | _ => simp [Part.isReadable, field_of_not_map h, isText, Value.isNull, Value.isTruthy]

theorem fieldReadable_of_not_map (h : schema.isMap = false) : FieldReadable schema := by
  have hsingle : (typeOf schema).1 ≠ some "array" := by
    rw [typeOf_of_not_map h]
    exact (Option.some_ne_none _).symm
  rw [fieldReadable_iff_of_single (pointer?_of_not_map h) hsingle]
  refine ⟨isReadable_of_not_map h _ (by decide), isReadable_of_not_map h _ (by decide), ?_⟩
  intro _ hsome
  obtain ⟨properties, found⟩ := Option.isSome_iff_exists.mp hsome
  cases h.symm.trans (isMap_of_properties? found)

/-- A property is two nodes below the object. -/
theorem size_property_lt {properties : Members} {property : Scalar × Value}
    (found : properties? schema = some properties) (member : property ∈ properties) :
    property.2.size + 1 < schema.size := by
  have hmembers : property.2.size ≤ membersSize properties :=
    size_le_membersSize (k := property.1) member
  unfold properties? at found
  split at found
  · rename_i members hget
    cases found
    have hsize := Value.size_lt_of_get? hget
    simp only [Value.size] at hsize
    omega
  · cases found

theorem one_lt_size {properties : Members} (found : properties? schema = some properties) :
    1 < schema.size := by
  have hsize := membersSize_lt_of_properties? found
  unfold properties? at found
  split at found
  · rename_i members hget
    have hlt := Value.size_lt_of_get? hget
    simp only [Value.size] at hlt
    omega
  · cases found

/-- A field that is there is smaller than the node. -/
theorem size_field_lt {name : String} (h : schema.field name ≠ .null) :
    (schema.field name).size < schema.size := by
  unfold Value.field at h ⊢
  cases hget : schema.get? name with
  | none =>
    rw [hget] at h
    exact absurd rfl h
  | some found => exact Value.size_lt_of_get? hget

/-! ## One step of the builder -/

section Steps

variable {fuel : Nat} {c : Context} {component : Option String} {name property parent : String}
  {required : Bool} {q : Prop}

theorem properties?_of_not_map (h : schema.isMap = false) : properties? schema = none := by
  cases hproperties : properties? schema with
  | none => rfl
  | some properties => cases h.symm.trans (isMap_of_properties? hproperties)

theorem isBare_of_not_map (h : schema.isMap = false) : IsBare schema := by
  unfold IsBare
  rw [typeOf_of_not_map h, field_of_not_map h]
  exact .inr ⟨rfl, rfl⟩

/-- A model of properties is built if the parts of its node can be read and its fields are built. -/
theorem succeeds_modelWithin_of_properties {properties : Members} {q : Scalar × Value → Prop}
    (found : properties? schema = some properties)
    (hfields : ∀ p ∈ properties, ∀ required,
      Succeeds (fieldWithin fuel c p.2 p.1.text required name) ↔ q p) :
    Succeeds (modelWithin (fuel + 1) c schema name)
      ↔ Part.required.isReadable schema = true ∧ (∀ p ∈ properties, q p)
        ∧ Part.description.isReadable schema = true := by
  have hall (keys : List Scalar) : Succeeds (properties.mapM fun p => do
        return (p.1.text, ← fieldWithin fuel c p.2 p.1.text (isRequired keys p.1) name))
      ↔ ∀ p ∈ properties, q p := by
    rw [succeeds_mapM]
    refine forall₂_congr fun p hp => ?_
    rw [← hfields p hp (isRequired keys p.1)]
    exact succeeds_bind_of_forall fun field => succeeds_pure _
  rw [modelWithin, isMap_of_properties? found, if_neg (by decide)]
  dsimp only
  split
  · rename_i properties' found'
    cases found.symm.trans found'
    rw [← succeeds_requiredKeys_iff]
    refine succeeds_bind_and fun keys _ => ?_
    rw [← hall keys]
    refine succeeds_bind_and fun fields _ => ?_
    exact succeeds_about_iff _ _
  · rename_i absent
    cases found.symm.trans absent

/-- A model without properties is empty, or the one field of its own node. -/
theorem succeeds_modelWithin_of_absent (absent : properties? schema = none)
    (hfield : ¬IsBare schema → ∀ property required,
      (Succeeds (fieldWithin fuel c schema property required name) ↔ q)) :
    Succeeds (modelWithin (fuel + 1) c schema name)
      ↔ (¬IsBare schema → q) ∧ Part.description.isReadable schema = true := by
  rw [modelWithin]
  cases hmap : schema.isMap with
  | false =>
    rw [if_pos (by decide)]
    refine iff_of_true (succeeds_pure _) ⟨?_, isReadable_of_not_map hmap _ (by decide)⟩
    exact fun other => absurd (isBare_of_not_map hmap) other
  | true =>
    rw [if_neg (by decide)]
    dsimp only
    split
    · rename_i properties found
      cases found.symm.trans absent
    · split
      · rename_i bare
        have bare := (isBare_iff schema).mpr bare
        refine Iff.trans ?_ (and_iff_right fun other => absurd bare other).symm
        exact succeeds_about_iff _ _
      · rename_i other
        have other := mt (isBare_iff schema).mp other
        refine Iff.trans (succeeds_bind_and fun field _ => ?_) (and_congr_left' ?_)
        · exact succeeds_about_iff _ _
        · rw [hfield other]
          exact ⟨fun h _ => h, fun h => h other⟩

/-- A list is built if its items are. -/
theorem succeeds_nodeField_of_array (array : (typeOf schema).1 = some "array") :
    Succeeds (nodeField (fuel + 1) c schema component property required parent)
      ↔ (schema.field "items" ≠ .null →
        Succeeds (fieldWithin fuel c (schema.field "items") property true parent)) := by
  rw [nodeField, isMap_of_array array, if_neg (by decide)]
  dsimp only
  rw [if_pos array]
  split
  · rename_i hnull
    exact iff_of_true (succeeds_pure _) fun hother => absurd hnull hother
  · rename_i hother
    refine Iff.trans (succeeds_bind_of_forall fun item => succeeds_pure _) ?_
    exact ⟨fun h _ => h, fun h => h hother⟩

/-- Any other node is built if its parts can be read, and the model of its properties is built where
they count. -/
theorem succeeds_nodeField_of_single (single : (typeOf schema).1 ≠ some "array")
    (hmodel : (schema.field "enum").isTruthy = false → (properties? schema).isSome = true →
      ∀ name, (Succeeds (modelWithin fuel (c.inside component) schema name) ↔ q)) :
    Succeeds (nodeField (fuel + 1) c schema component property required parent)
      ↔ Part.enumeration.isReadable schema = true ∧ Part.description.isReadable schema = true
        ∧ ((schema.field "enum").isTruthy = false → (properties? schema).isSome = true → q) := by
  rw [nodeField]
  cases hmap : schema.isMap with
  | false =>
    rw [if_pos (by decide)]
    refine iff_of_true (succeeds_pure _) ⟨isReadable_of_not_map hmap _ (by decide),
      isReadable_of_not_map hmap _ (by decide), fun _ hsome => ?_⟩
    rw [properties?_of_not_map hmap] at hsome
    cases hsome
  | true =>
    rw [if_neg (by decide)]
    dsimp only
    rw [if_neg single, ← succeeds_enumValues_iff]
    refine succeeds_bind_and fun values hvalues => ?_
    have hlisted := enumValues_isNone hvalues
    have habout (field : FieldSpec) (isOptional : Bool) :=
      succeeds_singleField_iff (v := schema.field "description") field isOptional
    cases values with
    | some values =>
      have hother : (schema.field "enum").isTruthy ≠ false := mt hlisted.mpr (Option.some_ne_none _)
      exact (habout _ _).trans ⟨fun h => ⟨h, fun unlisted => absurd unlisted hother⟩, And.left⟩
    | none =>
      have unlisted := hlisted.mp rfl
      dsimp only
      split
      · rename_i hsome
        refine Iff.trans (succeeds_bind_and fun nested _ => habout _ _) ?_
        refine (and_congr_left' (hmodel unlisted hsome _)).trans ?_
        constructor
        · rintro ⟨hq, hdescription⟩
          exact ⟨hdescription, fun _ _ => hq⟩
        · rintro ⟨hdescription, hq⟩
          exact ⟨hq unlisted hsome, hdescription⟩
      · rename_i hnone
        split
        · exact (habout _ _).trans ⟨fun h => ⟨h, fun _ hsome => absurd hsome hnone⟩, And.left⟩
        · exact (habout _ _).trans ⟨fun h => ⟨h, fun _ hsome => absurd hsome hnone⟩, And.left⟩

end Steps

/-! ## The builder -/

/-- The statement of the induction: without a document, a model and a field are built if and only if
what is read for them is well-formed, as long as there is fuel for three steps a node. A model of
properties is two steps above them and needs less, a wrapper goes on at its own node and needs more. -/
structure ReadsWithin (fuel : Nat) : Prop where
  model : ∀ (c : Context) schema name, c.document = .map [] → 3 * schema.size ≤ fuel + 3 →
    (properties? schema = none → 3 * schema.size ≤ fuel) →
    (Succeeds (modelWithin fuel c schema name) ↔ Readable schema)
  field : ∀ (c : Context) schema property required parent, c.document = .map [] →
    3 * schema.size ≤ fuel + 1 →
    (Succeeds (fieldWithin fuel c schema property required parent) ↔ FieldReadable schema)
  node : ∀ (c : Context) schema property required parent, c.document = .map [] →
    Reference.pointer? schema = none → 3 * schema.size ≤ fuel + 2 →
    (Succeeds (nodeField fuel c schema none property required parent) ↔ FieldReadable schema)

/-- Without a document, a reference leads nowhere. -/
theorem dereference_of_nil {c : Context} {pointer : String} (hc : c.document = .map [])
    (h : Reference.pointer? schema = some pointer) : dereference c schema = .ok (schema, none) := by
  have hresolve : Reference.resolve (.map []) schema = .ok schema := by
    unfold Reference.resolve Reference.follow
    rw [h]
    dsimp only
    rw [Reference.resolvePointer_nil]
    rfl
  have hreference : Reference.isReference schema = true := by
    unfold Reference.isReference
    rw [h]
    rfl
  unfold dereference
  rw [h, hc]
  dsimp only
  rw [hresolve]
  show Except.ok (schema, if Reference.isReference schema = true then none else _) = _
  rw [if_pos hreference]

theorem ReadsWithin.zero : ReadsWithin 0 where
  model := by
    intro c schema name hc hsize hwrapped
    have hpos := schema.size_pos
    cases hproperties : properties? schema with
    | none =>
      have := hwrapped hproperties
      omega
    | some properties =>
      have := one_lt_size hproperties
      omega
  field := by
    intro c schema property required parent hc hsize
    have hpos := schema.size_pos
    omega
  node := by
    intro c schema property required parent hc hpointer hsize
    have hpos := schema.size_pos
    omega

theorem ReadsWithin.succ_model {fuel : Nat} (ih : ReadsWithin fuel) :
    ∀ (c : Context) schema name, c.document = .map [] → 3 * schema.size ≤ fuel + 1 + 3 →
      (properties? schema = none → 3 * schema.size ≤ fuel + 1) →
      (Succeeds (modelWithin (fuel + 1) c schema name) ↔ Readable schema) := by
  intro c schema name hc hsize hwrapped
  cases found : properties? schema with
  | some properties =>
    rw [readable_iff_of_properties found]
    refine succeeds_modelWithin_of_properties found fun p hp required => ?_
    have hlt := size_property_lt found hp
    exact ih.field c p.2 _ _ _ hc (by omega)
  | none =>
    have hsize := hwrapped found
    rw [succeeds_modelWithin_of_absent (q := FieldReadable schema) found fun _ property required =>
      ih.field c schema property required name hc (by omega)]
    by_cases bare : IsBare schema
    · rw [readable_iff_of_bare found bare]
      exact and_iff_right fun other => absurd bare other
    · rw [readable_iff_of_wrapped found bare]
      exact and_congr_left' ⟨fun h => h bare, fun h _ => h⟩

theorem ReadsWithin.succ_field {fuel : Nat} (ih : ReadsWithin fuel) :
    ∀ (c : Context) schema property required parent, c.document = .map [] →
      3 * schema.size ≤ fuel + 1 + 1 →
      (Succeeds (fieldWithin (fuel + 1) c schema property required parent)
        ↔ FieldReadable schema) := by
  intro c schema property required parent hc hsize
  rw [fieldWithin]
  cases hpointer : Reference.pointer? schema with
  | none => exact ih.node c schema property required parent hc hpointer hsize
  | some pointer =>
    dsimp only
    rw [dereference_of_nil hc hpointer]
    exact iff_of_true (succeeds_ok _) (fieldReadable_of_reference hpointer)

theorem ReadsWithin.succ_node {fuel : Nat} (ih : ReadsWithin fuel) :
    ∀ (c : Context) schema property required parent, c.document = .map [] →
      Reference.pointer? schema = none → 3 * schema.size ≤ fuel + 1 + 2 →
      (Succeeds (nodeField (fuel + 1) c schema none property required parent)
        ↔ FieldReadable schema) := by
  intro c schema property required parent hc hpointer hsize
  by_cases array : (typeOf schema).1 = some "array"
  · rw [succeeds_nodeField_of_array array, fieldReadable_iff_of_array hpointer array]
    by_cases hitems : schema.field "items" = .null
    · rw [hitems]
      exact iff_of_true (fun hother => absurd rfl hother) (fieldReadable_of_not_map rfl)
    · have hlt := size_field_lt hitems
      rw [← ih.field c (schema.field "items") property true parent hc (by omega)]
      exact ⟨fun h => h hitems, fun h _ => h⟩
  · rw [fieldReadable_iff_of_single hpointer array]
    refine succeeds_nodeField_of_single array fun _ hsome name => ?_
    refine ih.model c schema name hc hsize fun absent => ?_
    rw [absent] at hsome
    cases hsome

/-- **What is built without a document**, by induction on the fuel. -/
theorem readsWithin (fuel : Nat) : ReadsWithin fuel := by
  induction fuel with
  | zero => exact .zero
  | succ fuel ih => exact ⟨ih.succ_model, ih.succ_field, ih.succ_node⟩

/-- **A model is built without a document** if and only if every part that is read is well-formed. -/
theorem modelOf_succeeds_iff_readable (schema : Value) (name : String) :
    Succeeds (modelOf schema name (.map [])) ↔ Readable schema := by
  have hbound := three_mul_le_depthBound schema (.map [])
  have hdereference (c : Context) (hc : c.document = .map []) :
      dereference c schema = .ok (schema, none) := by
    cases hpointer : Reference.pointer? schema with
    | none =>
      unfold dereference
      rw [hpointer]
      rfl
    | some pointer => exact dereference_of_nil hc hpointer
  have hc : ({ document := if (Value.map []).isTruthy then .map [] else .map [] } : Context).document
      = .map [] := rfl
  unfold modelOf
  dsimp only
  rw [hdereference _ hc]
  exact (readsWithin _).model _ schema _ rfl (by omega) fun _ => by omega

end ApiContract.Schema
