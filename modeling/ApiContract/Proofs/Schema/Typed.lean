import ApiContract.Proofs.Schema.Canonical
import Mathlib.Data.List.Forall2

/-!
# The types of built fields

The type of a field that is built follows from its node, as long as no reference leads away from it:
the values of the node come first, then a nested model of its properties, and with neither of them it
is a scalar. A list has the type of its items, a list of lists is of any kind.

* **`flags_of_fieldWithin`** — whether a field is optional, and whether it is a list.
* **`builtAs_of_single`** / **`builtAs_of_items`** — the type of a node, and of a list of it.
-/

namespace ApiContract.Schema

open Contract

/-- The type of a field, as it follows from its node or the node of its items. -/
inductive BuiltAs (v : Value) (spec : FieldSpec) : Prop where
  | values {values : List Value} (listed : enumValues v = .ok (some values))
      (built : spec.enumValues = some (values.map Value.text)) (scalar : spec.scalar = none)
      (model : spec.model = none)
  | nested {properties : Members} {fuel : Nat} {c : Context} {name : String} {m : SchemaModel}
      (unlisted : (v.field "enum").isTruthy = false) (found : properties? v = some properties)
      (nested : modelWithin fuel c v name = .ok m) (built : spec.model = some m)
      (values : spec.enumValues = none) (scalar : spec.scalar = none)
  | scalar (unlisted : (v.field "enum").isTruthy = false) (absent : properties? v = none)
      (built : spec.scalar = some
        (if (typeOf v).1 = some "object" ∨ (v.field "additionalProperties").isTruthy = true then
          .jsonObject
        else (scalarFor (typeOf v).1 (v.field "format")).getD .unknown))
      (values : spec.enumValues = none) (model : spec.model = none)

/-- A field of one scalar type. -/
structure OfScalar (s : ScalarType) (spec : FieldSpec) : Prop where
  scalar : spec.scalar = some s
  values : spec.enumValues = none
  model : spec.model = none

variable {fuel : Nat} {c : Context} {v : Value} {property parent : String} {required : Bool}
  {spec item : FieldSpec}

/-! ## Nodes that are no mapping -/

theorem exists_members (h : v.isMap = true) : ∃ members, v = .map members := by
  cases v with
  | map members => exact ⟨members, rfl⟩
  | scalar leaf => cases h
  | list items => cases h
  | set items => cases h

/-- What is no mapping has no members. -/
theorem get?_of_not_map (h : v.isMap = false) (name : String) : v.get? name = none := by
  cases v with
  | map members => cases h
  | scalar leaf => rfl
  | list items => rfl
  | set items => rfl

theorem field_of_not_map (h : v.isMap = false) (name : String) : v.field name = .null := by
  rw [Value.field, get?_of_not_map h]
  rfl

theorem typeOf_of_not_map (h : v.isMap = false) : typeOf v = (none, false) := by
  cases v with
  | map members => cases h
  | scalar leaf => rfl
  | list items => rfl
  | set items => rfl

theorem pointer?_of_not_map (h : v.isMap = false) : Reference.pointer? v = none := by
  unfold Reference.pointer?
  rw [get?_of_not_map h]
  rfl

theorem isMap_of_array (h : (typeOf v).1 = some "array") : v.isMap = true := by
  refine (Bool.eq_false_or_eq_true _).resolve_right fun hmap => ?_
  rw [typeOf_of_not_map hmap] at h
  cases h

theorem isMap_of_properties? {properties : Members} (h : properties? v = some properties) :
    v.isMap = true := by
  refine (Bool.eq_false_or_eq_true _).resolve_right fun hmap => ?_
  unfold properties? at h
  rw [get?_of_not_map hmap] at h
  cases h

/-! ## Values -/

theorem enumValues_isNone {values : Option (List Value)} (h : enumValues v = .ok values) :
    values = none ↔ (v.field "enum").isTruthy = false := by
  unfold enumValues at h
  dsimp only at h
  split at h
  · rename_i htruthy
    obtain ⟨items, -, rfl⟩ := map_eq_ok.mp h
    simp [htruthy]
  · rename_i hfalsy
    cases h
    simpa using hfalsy

theorem isTruthy_of_listed {values : List Value} (h : enumValues v = .ok (some values)) :
    (v.field "enum").isTruthy = true := by
  cases hlisted : (v.field "enum").isTruthy with
  | true => rfl
  | false => cases (enumValues_isNone h).mpr hlisted

/-! ## Types of nodes -/

/-- A node with values is built with them. -/
theorem BuiltAs.values_of_listed {values : List Value} (h : BuiltAs v spec)
    (hlisted : enumValues v = .ok (some values)) :
    spec.enumValues = some (values.map Value.text) := by
  have htruthy := isTruthy_of_listed hlisted
  cases h with
  | values listed built _ _ =>
    cases hlisted.symm.trans listed
    exact built
  | nested unlisted _ _ _ _ _ => exact absurd (unlisted.symm.trans htruthy) (by decide)
  | scalar unlisted _ _ _ _ => exact absurd (unlisted.symm.trans htruthy) (by decide)

theorem types_of_singleField {field : FieldSpec} {isOptional : Bool} {description : Value}
    (h : singleField field isOptional description = .ok spec) :
    spec.scalar = field.scalar ∧ spec.enumValues = field.enumValues ∧ spec.model = field.model
      ∧ spec.isOptional = isOptional ∧ spec.isArray = field.isArray := by
  unfold singleField at h
  obtain ⟨text, -, h⟩ := bind_eq_ok.mp h
  cases h
  exact ⟨rfl, rfl, rfl, rfl, rfl⟩

/-- A node that is no reference is built two steps down. -/
theorem exists_nodeField_of_fieldWithin (hpointer : Reference.pointer? v = none)
    (h : fieldWithin fuel c v property required parent = .ok spec) :
    ∃ fuel', nodeField (fuel' + 1) c v none property required parent = .ok spec := by
  cases fuel with
  | zero => cases h
  | succ fuel =>
    rw [fieldWithin, hpointer] at h
    cases fuel with
    | zero => cases h
    | succ fuel => exact ⟨fuel, h⟩

/-- What is no mapping has no type that is known. -/
theorem ofScalar_of_not_map (hmap : v.isMap = false)
    (h : fieldWithin fuel c v property required parent = .ok spec) :
    OfScalar .unknown spec ∧ spec.isOptional = !required ∧ spec.isArray = false := by
  obtain ⟨fuel', h⟩ := exists_nodeField_of_fieldWithin (pointer?_of_not_map hmap) h
  rw [nodeField, hmap, if_pos (by decide)] at h
  cases h
  exact ⟨⟨rfl, rfl, rfl⟩, rfl, rfl⟩

/-- **The type of a node** that is no list. -/
theorem builtAs_of_single (hmap : v.isMap = true) (hpointer : Reference.pointer? v = none)
    (harray : (typeOf v).1 ≠ some "array")
    (h : fieldWithin fuel c v property required parent = .ok spec) :
    BuiltAs v spec ∧ spec.isOptional = (!required || (typeOf v).2) ∧ spec.isArray = false := by
  obtain ⟨fuel', h⟩ := exists_nodeField_of_fieldWithin hpointer h
  rw [nodeField, hmap, if_neg (by decide)] at h
  dsimp only at h
  rw [if_neg harray] at h
  obtain ⟨values, hvalues, h⟩ := bind_eq_ok.mp h
  cases values with
  | some values =>
    obtain ⟨hscalar, htexts, hmodel, hoptional, hsingle⟩ := types_of_singleField h
    exact ⟨.values hvalues htexts hscalar hmodel, hoptional, hsingle⟩
  | none =>
    have hunlisted := (enumValues_isNone hvalues).mp rfl
    dsimp only at h
    split at h
    · rename_i hfound
      obtain ⟨properties, hproperties⟩ := Option.isSome_iff_exists.mp hfound
      obtain ⟨nested, hnested, h⟩ := bind_eq_ok.mp h
      obtain ⟨hscalar, htexts, hmodel, hoptional, hsingle⟩ := types_of_singleField h
      exact ⟨.nested hunlisted hproperties hnested hmodel htexts hscalar, hoptional, hsingle⟩
    · rename_i hfound
      have habsent : properties? v = none := by simpa using hfound
      split at h
      · rename_i hobject
        obtain ⟨hscalar, htexts, hmodel, hoptional, hsingle⟩ := types_of_singleField h
        refine ⟨.scalar hunlisted habsent ?_ htexts hmodel, hoptional, hsingle⟩
        rw [if_pos hobject]
        exact hscalar
      · rename_i hobject
        obtain ⟨hscalar, htexts, hmodel, hoptional, hsingle⟩ := types_of_singleField h
        refine ⟨.scalar hunlisted habsent ?_ htexts hmodel, hoptional, hsingle⟩
        rw [if_neg hobject]
        exact hscalar

/-- A list comes from its item: of an unknown kind if the node says nothing of it. -/
theorem exists_item (hmap : v.isMap = true) (hpointer : Reference.pointer? v = none)
    (harray : (typeOf v).1 = some "array")
    (h : fieldWithin fuel c v property required parent = .ok spec) :
    ∃ item, spec = listOfItem item (!required || (typeOf v).2) (v.field "description")
      ∧ (v.field "items" = .null ∧ item = { scalar := some .unknown }
        ∨ v.field "items" ≠ .null
          ∧ ∃ fuel', fieldWithin fuel' c (v.field "items") property true parent = .ok item) := by
  obtain ⟨fuel', h⟩ := exists_nodeField_of_fieldWithin hpointer h
  rw [nodeField, hmap, if_neg (by decide)] at h
  dsimp only at h
  rw [if_pos harray] at h
  split at h
  · rename_i hnull
    cases h
    exact ⟨_, rfl, .inl ⟨hnull, rfl⟩⟩
  · rename_i hother
    obtain ⟨item, hitem, h⟩ := bind_eq_ok.mp h
    cases h
    exact ⟨item, rfl, .inr ⟨hother, _, hitem⟩⟩

/-! ## Lists -/

/-- A list has the scalar of an item that is no list. -/
theorem ofScalar_listOfItem {s : ScalarType} (h : OfScalar s item) (hsingle : item.isArray = false)
    (isOptional : Bool) (description : Value) :
    OfScalar s (listOfItem item isOptional description) := by
  unfold listOfItem
  rw [hsingle]
  exact ⟨h.scalar, h.values, h.model⟩

/-- **Whether a field is optional, and whether it is a list.** -/
theorem flags_of_fieldWithin (hpointer : Reference.pointer? v = none)
    (h : fieldWithin fuel c v property required parent = .ok spec) :
    spec.isOptional = (!required || (typeOf v).2) ∧ spec.isArray = isArray v := by
  cases hmap : v.isMap with
  | false =>
    obtain ⟨-, hoptional, hsingle⟩ := ofScalar_of_not_map hmap h
    rw [hoptional, hsingle, isArray, typeOf_of_not_map hmap]
    exact ⟨(Bool.or_false _).symm, rfl⟩
  | true =>
    by_cases harray : (typeOf v).1 = some "array"
    · obtain ⟨item, rfl, -⟩ := exists_item hmap hpointer harray h
      exact ⟨rfl, (beq_iff_eq.mpr harray).symm⟩
    · obtain ⟨-, hoptional, hsingle⟩ := builtAs_of_single hmap hpointer harray h
      exact ⟨hoptional, hsingle.trans (beq_eq_false_iff_ne.mpr harray).symm⟩

/-- A list whose items are no mapping is of an unknown kind. -/
theorem ofScalar_of_no_items (hmap : v.isMap = true) (hpointer : Reference.pointer? v = none)
    (harray : (typeOf v).1 = some "array")
    (hitems : ∀ members, v.get? "items" ≠ some (.map members))
    (h : fieldWithin fuel c v property required parent = .ok spec) : OfScalar .unknown spec := by
  obtain ⟨item, rfl, ⟨-, rfl⟩ | ⟨hother, fuel', hitem⟩⟩ := exists_item hmap hpointer harray h
  · exact ⟨rfl, rfl, rfl⟩
  · have hplain : (v.field "items").isMap = false := by
      unfold Value.field
      cases hget : v.get? "items" with
      | none => rfl
      | some items =>
        refine Bool.eq_false_iff.mpr fun hmap => ?_
        obtain ⟨members, rfl⟩ := exists_members hmap
        exact hitems members hget
    obtain ⟨hscalar, -, hsingle⟩ := ofScalar_of_not_map hplain hitem
    exact ofScalar_listOfItem hscalar hsingle _ _

section Items

variable {members : Members} (hmap : v.isMap = true) (hpointer : Reference.pointer? v = none)
  (harray : (typeOf v).1 = some "array") (hitems : v.get? "items" = some (.map members))
  (hitem : Reference.pointer? (.map members) = none)

include hmap hpointer harray hitems hitem

/-- A list of lists is of any kind. -/
theorem ofScalar_of_lists (hlist : (typeOf (.map members)).1 = some "array")
    (h : fieldWithin fuel c v property required parent = .ok spec) : OfScalar .json spec := by
  have hfield : v.field "items" = .map members := by
    rw [Value.field, hitems]
    rfl
  obtain ⟨item, rfl, ⟨hnull, -⟩ | ⟨-, fuel', hbuilt⟩⟩ := exists_item hmap hpointer harray h
  · rw [hfield] at hnull
    cases hnull
  · rw [hfield] at hbuilt
    obtain ⟨-, hisArray⟩ := flags_of_fieldWithin hitem hbuilt
    have hlisted : item.isArray = true := hisArray.trans (beq_iff_eq.mpr hlist)
    unfold listOfItem
    rw [hlisted]
    exact ⟨rfl, rfl, rfl⟩

/-- **The type of a list** is that of its items. -/
theorem builtAs_of_items (hsingle : (typeOf (.map members)).1 ≠ some "array")
    (h : fieldWithin fuel c v property required parent = .ok spec) : BuiltAs (.map members) spec := by
  have hfield : v.field "items" = .map members := by
    rw [Value.field, hitems]
    rfl
  obtain ⟨item, rfl, ⟨hnull, -⟩ | ⟨-, fuel', hbuilt⟩⟩ := exists_item hmap hpointer harray h
  · rw [hfield] at hnull
    cases hnull
  · rw [hfield] at hbuilt
    obtain ⟨htype, -, hflag⟩ := builtAs_of_single rfl hitem hsingle hbuilt
    unfold listOfItem
    rw [hflag, if_neg (by decide)]
    cases htype with
    | values listed built scalar model => exact .values listed built scalar model
    | nested unlisted found nested built values scalar =>
      exact .nested unlisted found nested built values scalar
    | scalar unlisted absent built values model => exact .scalar unlisted absent built values model

end Items

/-! ## Objects -/

/-- Each item gives its result. -/
theorem forall₂_of_mapM_eq_ok {α β : Type} {f : α → Except Failure β} {xs : List α} {ys : List β}
    (h : xs.mapM f = .ok ys) : List.Forall₂ (fun x y => f x = .ok y) xs ys := by
  rw [mapM_eq_ok] at h
  induction xs generalizing ys with
  | nil =>
    cases ys with
    | nil => exact .nil
    | cons y rest => cases h
  | cons x rest ih =>
    cases ys with
    | nil => cases h
    | cons y more =>
      obtain ⟨hhead, htail⟩ := List.cons.inj h
      exact .cons hhead (ih htail)

/-- The fields of an object are those of its properties, each name once. -/
theorem exists_fields_of_modelWithin {properties : Members} {name : String} {m : SchemaModel}
    (hfound : properties? v = some properties) (h : modelWithin fuel c v name = .ok m) :
    ∃ keys fuel' fields, requiredKeys v = .ok keys ∧ m.fields = Named.ofList fields
      ∧ List.Forall₂ (fun p f => f.1 = p.1.text
          ∧ fieldWithin fuel' c p.2 p.1.text (isRequired keys p.1) name = .ok f.2) properties fields := by
  cases fuel with
  | zero => cases h
  | succ fuel =>
    rw [modelWithin, isMap_of_properties? hfound, if_neg (by decide)] at h
    dsimp only at h
    split at h
    · rename_i properties' hproperties
      cases hfound.symm.trans hproperties
      obtain ⟨keys, hkeys, h⟩ := bind_eq_ok.mp h
      obtain ⟨fields, hfields, h⟩ := bind_eq_ok.mp h
      obtain ⟨about, -, h⟩ := bind_eq_ok.mp h
      cases h
      refine ⟨keys, fuel, fields, hkeys, rfl, (forall₂_of_mapM_eq_ok hfields).imp fun p f hf => ?_⟩
      obtain ⟨field, hfield, hf⟩ := bind_eq_ok.mp hf
      cases hf
      exact ⟨rfl, hfield⟩
    · rename_i hnone
      cases hfound.symm.trans hnone

end ApiContract.Schema
