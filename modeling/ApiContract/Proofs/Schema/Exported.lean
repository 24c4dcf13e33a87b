import ApiContract.Proofs.Checked
import ApiContract.Proofs.Value.Lookup
import ApiContract.Schema.Shape

/-!
# Exported schemas

An export writes schemas of few shapes: a reference to a component, a leaf, a list of one kind of
item, and an object. `Exported` says what the readers of a schema rely on, by the members that they
look up, so it holds wherever a description stands and whatever else a node has.

* **`Mentions`** — the references of a schema, as far as no reference is followed.
* **`typeOf_text`** / **`enumValues_ok`** / **`requiredKeys_ok`** — reading such a node succeeds.
-/

namespace ApiContract.Schema

open Contract (componentReference)

/-! ## Shapes -/

/-- A member that is a text, if it is there. -/
def MaybeText (members : Members) (name : String) : Prop :=
  ∀ v, Members.get? members name = some v → ∃ s, v = .str s

/-- A member that is a list of texts, if it is there. -/
def MaybeTexts (members : Members) (name : String) : Prop :=
  ∀ v, Members.get? members name = some v → ∃ items : List String, v = .list (items.map .str)

/-- What all nodes but references have: texts as keys, and no reference. -/
structure Plain (members : Members) : Prop where
  keys : ∀ m ∈ members, ∃ s, m.1 = .str s
  reference : Members.get? members "$ref" = none

/-- A node without parts. -/
structure LeafNode (members : Members) : Prop extends Plain members where
  type : ∀ t, Members.get? members "type" = some t → ∃ s, t = .str s ∧ s ≠ "array"
  properties : Members.get? members "properties" = none
  items : Members.get? members "items" = none
  enum : MaybeTexts members "enum"
  description : MaybeText members "description"

/-- A list of one kind of item. Its description may be any value. -/
structure ListNode (members : Members) (item : Value) : Prop extends Plain members where
  type : Members.get? members "type" = some (.str "array")
  properties : Members.get? members "properties" = none
  items : Members.get? members "items" = some item
  enum : Members.get? members "enum" = none

/-- An object with some properties. -/
structure ObjectNode (members properties : Members) : Prop extends Plain members where
  type : Members.get? members "type" = some (.str "object")
  properties : Members.get? members "properties" = some (.map properties)
  items : Members.get? members "items" = none
  enum : Members.get? members "enum" = none
  required : MaybeTexts members "required"
  description : MaybeText members "description"

/-- Schemas as an export writes them, with references to these names only. -/
inductive Exported (names : List String) : Value → Prop where
  | reference {name : String} (h : name ∈ names) : Exported names (componentReference name)
  | leaf {members : Members} (node : LeafNode members) : Exported names (.map members)
  | list {members : Members} {item : Value} (node : ListNode members item)
      (exported : Exported names item) : Exported names (.map members)
  | object {members properties : Members} (node : ObjectNode members properties)
      (exported : ∀ m ∈ properties, Exported names m.2) : Exported names (.map members)

/-! ## Descriptions -/

section Describe

variable {members : Members}

/-- A mapping with a description. -/
def describe (members : Members) (d : Value) : Members :=
  Members.insert members (.str "description") d

theorem get?_describe_of_ne {d : Value} {name : String} (h : name ≠ "description") :
    Members.get? (describe members d) name = Members.get? members name := by
  unfold describe
  rw [Members.get?_insert, if_neg (Ne.symm h)]

theorem Plain.describe (h : Plain members) (d : Value) : Plain (describe members d) where
  keys := by
    intro m hm
    obtain hkey | ⟨m', hm', hkey⟩ := Members.key_of_mem_insert hm
    · exact ⟨_, hkey⟩
    · rw [hkey]
      exact h.keys m' hm'
  reference := by
    rw [get?_describe_of_ne (by decide)]
    exact h.reference

theorem maybeText_describe (members : Members) (s : String) :
    MaybeText (describe members (.str s)) "description" := by
  intro v hv
  unfold Schema.describe at hv
  rw [Members.get?_insert, if_pos rfl] at hv
  exact ⟨s, (Option.some.inj hv).symm⟩

theorem LeafNode.describe (h : LeafNode members) (s : String) :
    LeafNode (describe members (.str s)) where
  toPlain := h.toPlain.describe _
  type := by
    rw [get?_describe_of_ne (by decide)]
    exact h.type
  properties := by
    rw [get?_describe_of_ne (by decide)]
    exact h.properties
  items := by
    rw [get?_describe_of_ne (by decide)]
    exact h.items
  enum := by
    unfold MaybeTexts
    rw [get?_describe_of_ne (by decide)]
    exact h.enum
  description := maybeText_describe members s

theorem ListNode.describe {item : Value} (h : ListNode members item) (d : Value) :
    ListNode (describe members d) item where
  toPlain := h.toPlain.describe _
  type := by
    rw [get?_describe_of_ne (by decide)]
    exact h.type
  properties := by
    rw [get?_describe_of_ne (by decide)]
    exact h.properties
  items := by
    rw [get?_describe_of_ne (by decide)]
    exact h.items
  enum := by
    rw [get?_describe_of_ne (by decide)]
    exact h.enum

theorem ObjectNode.describe {properties : Members} (h : ObjectNode members properties) (s : String) :
    ObjectNode (describe members (.str s)) properties where
  toPlain := h.toPlain.describe _
  type := by
    rw [get?_describe_of_ne (by decide)]
    exact h.type
  properties := by
    rw [get?_describe_of_ne (by decide)]
    exact h.properties
  items := by
    rw [get?_describe_of_ne (by decide)]
    exact h.items
  enum := by
    rw [get?_describe_of_ne (by decide)]
    exact h.enum
  required := by
    unfold MaybeTexts
    rw [get?_describe_of_ne (by decide)]
    exact h.required
  description := maybeText_describe members s

end Describe

/-! ## Mentions -/

/-- The references of a schema: those of its properties or of its items, at any depth. -/
inductive Mentions : Value → String → Prop where
  | reference (name : String) : Mentions (componentReference name) name
  | item {v item : Value} {name : String} (h : v.get? "items" = some item)
      (mentions : Mentions item name) : Mentions v name
  | property {v : Value} {properties : Members} {m : Scalar × Value} {name : String}
      (h : properties? v = some properties) (mem : m ∈ properties)
      (mentions : Mentions m.2 name) : Mentions v name

theorem Exported.isMap {names : List String} {v : Value} (h : Exported names v) :
    v.isMap = true := by
  cases h <;> rfl

theorem Exported.isNull {names : List String} {v : Value} (h : Exported names v) :
    v.isNull = false := by
  cases h <;> rfl

/-! ## Reading a node -/

variable {members : Members}

theorem Plain.pointer?_eq_none (h : Plain members) : Reference.pointer? (.map members) = none := by
  unfold Reference.pointer?
  show (Members.get? members "$ref").bind Value.str? = none
  rw [h.reference]
  rfl

theorem typeOf_text {type : String} (h : Members.get? members "type" = some (.str type)) :
    (typeOf (.map members)).1 = some type := by
  unfold typeOf
  dsimp only
  rw [Value.field_map, h]
  rfl

theorem typeOf_none (h : Members.get? members "type" = none) :
    (typeOf (.map members)).1 = none := by
  unfold typeOf
  dsimp only
  rw [Value.field_map, h]
  rfl

theorem properties?_none (h : Members.get? members "properties" = none) :
    properties? (.map members) = none := by
  have hget : (Value.map members).get? "properties" = none := h
  unfold properties?
  rw [hget]

theorem ObjectNode.properties? {properties : Members} (h : ObjectNode members properties) :
    properties? (.map members) = some properties := by
  have hget : (Value.map members).get? "properties" = some (.map properties) := h.properties
  unfold Schema.properties?
  rw [hget]

/-- A property is smaller than its object. -/
theorem ObjectNode.size_property_lt {properties : Members} (h : ObjectNode members properties)
    {m : Scalar × Value} (hm : m ∈ properties) : m.2.size < (Value.map members).size := by
  have hget : (Value.map members).get? "properties" = some (.map properties) := h.properties
  have hsize := Value.membersSize_lt_of_get? hget
  have hle := size_le_membersSize (k := m.1) hm
  omega

theorem ListNode.size_item_lt {item : Value} (h : ListNode members item) :
    item.size < (Value.map members).size := by
  have hget : (Value.map members).get? "items" = some item := h.items
  exact Value.size_lt_of_get? hget

theorem LeafNode.typeOf_ne_array (h : LeafNode members) :
    (typeOf (.map members)).1 ≠ some "array" := by
  cases hget : Members.get? members "type" with
  | none =>
    rw [typeOf_none hget]
    nofun
  | some t =>
    obtain ⟨s, rfl, hs⟩ := h.type t hget
    rw [typeOf_text hget]
    intro heq
    exact hs (Option.some.inj heq)

/-- An exported node with properties is an object. -/
theorem Exported.objectNode {names : List String} {v : Value} (h : Exported names v)
    (hsome : (Schema.properties? v).isSome) :
    ∃ members properties, v = .map members ∧ ObjectNode members properties
      ∧ ∀ m ∈ properties, Exported names m.2 := by
  cases h with
  | reference h => cases hsome
  | leaf node =>
    rw [properties?_none node.properties] at hsome
    cases hsome
  | list node exported =>
    rw [properties?_none node.properties] at hsome
    cases hsome
  | object node exported => exact ⟨_, _, rfl, node, exported⟩

/-- An enumeration of texts can be read. -/
theorem enumValues_ok (h : MaybeTexts members "enum") :
    ∃ values, enumValues (.map members) = .ok values := by
  unfold enumValues
  rw [Value.field_map]
  cases hget : Members.get? members "enum" with
  | none => exact ⟨none, rfl⟩
  | some v =>
    obtain ⟨items, rfl⟩ := h v hget
    dsimp only [Option.getD_some]
    split
    · exact ⟨some (items.map .str), rfl⟩
    · exact ⟨none, rfl⟩

theorem enumValues_none (h : Members.get? members "enum" = none) :
    enumValues (.map members) = .ok none := by
  unfold enumValues
  rw [Value.field_map, h]
  rfl

/-- A list of required names is read as these names. -/
theorem requiredKeys_names {items : List String}
    (h : Members.get? members "required" = some (.list (items.map .str))) :
    requiredKeys (.map members) = .ok (items.map .str) := by
  unfold requiredKeys
  rw [Value.field_map, h, Option.getD_some]
  cases items with
  | nil => rfl
  | cons name rest =>
    have htruthy : (Value.list ((name :: rest).map .str)).isTruthy = true := rfl
    dsimp only
    rw [if_pos htruthy]
    show ((name :: rest).map Value.str).mapM asKey = _
    rw [mapM_eq_ok, List.map_map, List.map_map]
    rfl

theorem requiredKeys_none (h : Members.get? members "required" = none) :
    requiredKeys (.map members) = .ok [] := by
  unfold requiredKeys
  rw [Value.field_map, h]
  rfl

theorem requiredKeys_ok (h : MaybeTexts members "required") :
    ∃ keys, requiredKeys (.map members) = .ok keys := by
  cases hget : Members.get? members "required" with
  | none => exact ⟨[], requiredKeys_none hget⟩
  | some v =>
    obtain ⟨items, rfl⟩ := h v hget
    exact ⟨_, requiredKeys_names hget⟩

/-- A description that is a text can be read. -/
theorem description_cases (h : MaybeText members "description") :
    (Value.map members).field "description" = .null
      ∨ ∃ s, (Value.map members).field "description" = .str s := by
  rw [Value.field_map]
  cases hget : Members.get? members "description" with
  | none => exact .inl rfl
  | some v =>
    obtain ⟨s, rfl⟩ := h v hget
    exact .inr ⟨s, rfl⟩

end ApiContract.Schema
