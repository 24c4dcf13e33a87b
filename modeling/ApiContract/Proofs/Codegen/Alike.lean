import ApiContract.Proofs.Codegen.Written

/-!
# Types that are declared and built alike

A schema is declared by the generator and built by `modelWithin`, each by a walk of its own. Both say
the same of most nodes, but not of all: the generator asks for a nested model only of an object, looks
for a scalar before it looks at additional properties, and takes the values of a list from the list
and not from its items. `ReadAlike` lists the nodes of which both say the same.

* **`SameModel`** — what it means that a declaration and a model agree.
* **`sameOutline`** — all but the type of a property.
* **`sameType_iff`** — the type of a node without values, or of a list of it.
-/

namespace ApiContract.Codegen.Declaration

open Contract (ScalarType FieldSpec SchemaModel)
open Schema (typeOf properties? enumValues BuiltAs OfScalar fieldWithin modelWithin)

/-! ## Agreement -/

/-- The scalar that is written for a scalar: what may be any value is written as `JSONObject`. -/
def writtenScalar : ScalarType → ScalarType
  | .json | .unknown => .jsonObject
  | s => s

/-- A declared and a built field agree on all but the type. -/
structure SameOutline (f : Field) (entry : String × FieldSpec) : Prop where
  name : f.name = entry.1
  optional : f.type.optional = entry.2.isOptional
  array : f.type.array = entry.2.isArray

mutual

/-- The type that is written for a field is the one that was built. Values may be hoisted. -/
inductive SameType : Field → FieldSpec → Prop where
  | values {f : Field} {spec : FieldSpec} {texts : List String} (built : spec.enumValues = some texts)
      (written : writtenType f = .values texts) : SameType f spec
  | hoisted {f : Field} {spec : FieldSpec} {values : List Value} {description : Value} {m : Model}
      (built : spec.enumValues = some (values.map Value.text)) (written : writtenType f = .nested m)
      (hoisted : enumModel m.name description values = .ok m) : SameType f spec
  | nested {f : Field} {spec : FieldSpec} {m : Model} {model : SchemaModel}
      (built : spec.model = some model) (written : writtenType f = .nested m)
      (same : SameModel m model) : SameType f spec
  | scalar {f : Field} {spec : FieldSpec} {s : ScalarType} (built : spec.scalar = some s)
      (written : writtenType f = .scalar (scalarCode (writtenScalar s))) : SameType f spec

/-- A declared and a built field agree. -/
inductive SameField : Field → String × FieldSpec → Prop where
  | mk {f : Field} {entry : String × FieldSpec} (outline : SameOutline f entry)
      (type : SameType f entry.2) : SameField f entry

/-- A declared and a built model agree: the code is that of the fields, and they agree in order. -/
inductive SameModel : Model → SchemaModel → Prop where
  | mk {m : Model} {model : SchemaModel} {description : Value}
      (code : objectModel m.name description m.fields = .ok m)
      (fields : List.Forall₂ SameField m.fields model.fields) : SameModel m model

end

/-- No part of a schema is a reference. -/
inductive RefFree : Value → Prop where
  | mk {v : Value} (other : Reference.pointer? v = none)
      (items : ∀ item, v.get? "items" = some item → RefFree item)
      (properties : ∀ ps, properties? v = some ps → ∀ p ∈ ps, RefFree p.2) : RefFree v

/-! ## Nodes that are read alike -/

mutual

/-- Nodes without values and no lists: an object with properties of different names, or a node without
properties that is not an object and a scalar at once. -/
inductive SingleAlike : Value → Prop where
  | leaf {v : Value} (unlisted : (v.field "enum").isTruthy = false) (absent : properties? v = none)
      (clear : (typeOf v).1 = some "object" ∨ (v.field "additionalProperties").isTruthy = true →
        Schema.scalarFor (typeOf v).1 (v.field "format") = none) : SingleAlike v
  | object {v : Value} {properties : Members} (unlisted : (v.field "enum").isTruthy = false)
      (nests : Nests v) (found : properties? v = some properties)
      (nodup : (properties.map (·.1.text)).Nodup) (alike : ∀ p ∈ properties, ReadAlike p.2) :
      SingleAlike v

/-- Items of a list whose type is declared and built alike: lists of lists without a scalar, single
nodes, and values that are hoisted, or are the values of the list too. -/
inductive ItemsAlike : (list item : Value) → Prop where
  | lists {v item : Value} (unlisted : (v.field "enum").isTruthy = false)
      (list : (typeOf item).1 = some "array") (unscaled : Schema.scalarType item = none) :
      ItemsAlike v item
  | single {v item : Value} (unlisted : (v.field "enum").isTruthy = false)
      (single : (typeOf item).1 ≠ some "array") (alike : SingleAlike item) : ItemsAlike v item
  | values {v item : Value} (unlisted : (v.field "enum").isTruthy = false)
      (listed : (item.field "enum").isTruthy = true) (nests : Nests item) : ItemsAlike v item
  | listed {v item : Value} {values itemValues : List Value}
      (listed : enumValues v = .ok (some values)) (single : (typeOf item).1 ≠ some "array")
      (itemsListed : enumValues item = .ok (some itemValues))
      (same : values.map Value.text = itemValues.map Value.text) : ItemsAlike v item

/-- Properties whose types are declared and built alike. -/
inductive ReadAlike : Value → Prop where
  | other {v : Value} (other : v.isMap = false) : ReadAlike v
  | values {v : Value} (map : v.isMap = true) (single : (typeOf v).1 ≠ some "array")
      (listed : (v.field "enum").isTruthy = true) : ReadAlike v
  | single {v : Value} (map : v.isMap = true) (single : (typeOf v).1 ≠ some "array")
      (alike : SingleAlike v) : ReadAlike v
  | bareList {v : Value} (array : (typeOf v).1 = some "array")
      (unlisted : (v.field "enum").isTruthy = false)
      (bare : ∀ members, v.get? "items" ≠ some (.map members)) : ReadAlike v
  | list {v : Value} {members : Members} (array : (typeOf v).1 = some "array")
      (items : v.get? "items" = some (.map members)) (alike : ItemsAlike v (.map members)) :
      ReadAlike v

end

/-! ## Scalars -/

theorem scalarCode_inj {a b : ScalarType} (h : scalarCode a = scalarCode b) : a = b := by
  have hname : a.name = b.name := (String.append_right_inj "ScalarTypeEnum.").mp h
  cases a <;> cases b <;> first | rfl | exact absurd hname (by decide)

/-- A scalar that a node names is written as it is. -/
theorem writtenScalar_of_scalarFor {type : Option String} {format : Value} {s : ScalarType}
    (h : Schema.scalarFor type format = some s) : writtenScalar s = s ∧ s ≠ .jsonObject := by
  have htable : ∀ entry ∈ Schema.scalarTable,
      writtenScalar entry.2 = entry.2 ∧ entry.2 ≠ .jsonObject := by decide
  have hlookup : ∀ key, Schema.scalarTable.lookup key = some s →
      writtenScalar s = s ∧ s ≠ .jsonObject := by
    intro key hkey
    obtain ⟨before, after, hentry, -⟩ := List.lookup_eq_some_iff.mp hkey
    exact htable (key, s) (by rw [hentry]; simp)
  unfold Schema.scalarFor at h
  obtain ⟨type, -, h⟩ := Option.bind_eq_some_iff.mp h
  dsimp only at h
  rcases Option.or_eq_some_iff.mp h with h | ⟨-, h⟩
  · split at h
    · exact hlookup _ h
    · cases h
  · exact hlookup _ h

theorem writtenScalar_of_scalarType {v : Value} {s : ScalarType} (h : Schema.scalarType v = some s) :
    writtenScalar s = s ∧ s ≠ .jsonObject := by
  induction hsize : v.size using Nat.strongRecOn generalizing v with
  | ind n ih =>
    subst hsize
    rw [Schema.scalarType] at h
    split at h
    · cases h
    · split at h
      · split at h
        · rename_i items hitems
          exact ih _ (Value.size_lt_of_get? hitems) h rfl
        · cases h
      · split at h
        · cases h
        · exact writtenScalar_of_scalarFor h

/-- `JSONObject` is written only where no scalar is found. -/
theorem scalarCode_jsonObject_iff {found : Option ScalarType}
    (h : ∀ s, found = some s → writtenScalar s = s ∧ s ≠ .jsonObject) :
    scalarCode (found.getD .jsonObject) = scalarCode .jsonObject ↔ found = none := by
  cases found with
  | none => exact ⟨fun _ => rfl, fun _ => rfl⟩
  | some s => exact ⟨fun heq => absurd (scalarCode_inj heq) (h s rfl).2, nofun⟩

theorem scalarCode_getD {found : Option ScalarType}
    (h : ∀ s, found = some s → writtenScalar s = s ∧ s ≠ .jsonObject) :
    scalarCode (found.getD .jsonObject) = scalarCode (writtenScalar (found.getD .unknown)) := by
  cases found with
  | none => rfl
  | some s => rw [Option.getD_some, Option.getD_some, (h s rfl).1]

/-! ## Properties -/

variable {v w : Value} {name parent : String} {required : Bool} {f : Field} {spec : FieldSpec}

theorem RefFree.other (h : RefFree v) : Reference.pointer? v = none := by
  cases h with
  | mk other _ _ => exact other

theorem RefFree.items (h : RefFree v) {item : Value} (hitem : v.get? "items" = some item) :
    RefFree item := by
  cases h with
  | mk _ items _ => exact items item hitem

theorem RefFree.property (h : RefFree v) {properties : Members}
    (hfound : properties? v = some properties) {p : Scalar × Value} (hp : p ∈ properties) :
    RefFree p.2 := by
  cases h with
  | mk _ _ nodes => exact nodes properties hfound p hp

theorem RefFree.target (h : RefFree v) (hw : nestTarget? v = some w) : RefFree w := by
  have hinline := isInline_of_nestTarget? hw
  by_cases harray : (typeOf v).1 = some "array"
  · rw [nestTarget?_of_array hinline harray] at hw
    exact h.items (Option.filter_eq_some_iff.mp hw).1
  · rw [nestTarget?_of_single hinline harray] at hw
    cases hw
    exact h

theorem RefFree.not_itemRefers (h : RefFree v) {pointer : String} : ¬ItemRefers pointer v := by
  intro hrefers
  induction hrefers with
  | here found => cases h.other.symm.trans found
  | items other array items refers ih => exact ih (h.items items)

/-- **All but the type of a property** is said alike. -/
theorem sameOutline (hpointer : Reference.pointer? v = none)
    (hdeclared : DeclaredField v name required parent f) {fuel : Nat} {c : Schema.Context}
    {parent' : String} (hfield : fieldWithin fuel c v name required parent' = .ok spec) :
    SameOutline f (name, spec) := by
  obtain ⟨hoptional, harray⟩ := flags_of_declared hpointer hdeclared
  obtain ⟨hoptional', harray'⟩ := Schema.flags_of_fieldWithin hpointer hfield
  exact ⟨name_of_declared hdeclared, hoptional.trans hoptional'.symm, harray.trans harray'.symm⟩

/-! ## Types -/

theorem sameType_scalar_iff {s : ScalarType} (h : OfScalar s spec) :
    SameType f spec ↔ writtenType f = .scalar (scalarCode (writtenScalar s)) := by
  refine ⟨fun hsame => ?_, fun hwritten => .scalar h.scalar hwritten⟩
  cases hsame with
  | values built _ => cases h.values.symm.trans built
  | hoisted built _ _ => cases h.values.symm.trans built
  | nested built _ _ => cases h.model.symm.trans built
  | scalar built written =>
    cases h.scalar.symm.trans built
    exact written

theorem sameType_nested_iff {model : SchemaModel} (hmodel : spec.model = some model)
    (hvalues : spec.enumValues = none) (hscalar : spec.scalar = none) :
    SameType f spec ↔ ∃ m, writtenType f = .nested m ∧ SameModel m model := by
  refine ⟨fun hsame => ?_, fun ⟨m, hwritten, hsame⟩ => .nested hmodel hwritten hsame⟩
  cases hsame with
  | values built _ => cases hvalues.symm.trans built
  | hoisted built _ _ => cases hvalues.symm.trans built
  | nested built written same =>
    cases hmodel.symm.trans built
    exact ⟨_, written, same⟩
  | scalar built _ => cases hscalar.symm.trans built

theorem sameType_values_iff {texts : List String} (hvalues : spec.enumValues = some texts)
    (hscalar : spec.scalar = none) (hmodel : spec.model = none) :
    SameType f spec ↔ writtenType f = .values texts
      ∨ ∃ m values description, writtenType f = .nested m ∧ values.map Value.text = texts
          ∧ enumModel m.name description values = .ok m := by
  constructor
  · intro hsame
    cases hsame with
    | values built written =>
      cases hvalues.symm.trans built
      exact .inl written
    | hoisted built written hoisted =>
      cases hvalues.symm.trans built
      exact .inr ⟨_, _, _, written, rfl, hoisted⟩
    | nested built _ _ => cases hmodel.symm.trans built
    | scalar built _ => cases hscalar.symm.trans built
  · rintro (hwritten | ⟨m, values, description, hwritten, rfl, hhoisted⟩)
    · exact .values hvalues hwritten
    · exact .hoisted hvalues hwritten hhoisted

/-- The declared and the built model of an object agree if it is read alike. -/
def ModelsAlike (w : Value) : Prop :=
  ∀ name m fuel c name' built, (w.field "enum").isTruthy = false → Nests w →
    model w name .null = .ok m → modelWithin fuel c w name' = .ok built →
      (SameModel m built ↔ SingleAlike w)

/-- What is written for a node that is no list, or for a list of it. -/
inductive WrittenFor (w : Value) (f : Field) : Prop where
  | nested {name : String} {m : Model} (nests : Nests w) (declared : model w name .null = .ok m)
      (written : writtenType f = .nested m)
  | scalar (single : ¬Nests w)
      (written : writtenType f = .scalar (scalarCode ((Schema.scalarType w).getD .jsonObject)))

/-- **The type of a node without values**, or of a list of it, is said alike if the node is read
alike. -/
theorem sameType_iff (hinline : IsInline w) (hsingle : (typeOf w).1 ≠ some "array")
    (hunlisted : (w.field "enum").isTruthy = false) (ih : ModelsAlike w) (hwritten : WrittenFor w f)
    (hbuilt : BuiltAs w spec) : SameType f spec ↔ SingleAlike w := by
  cases hbuilt with
  | values listed _ _ _ =>
    cases (Schema.enumValues_isNone listed).mpr hunlisted
  | @nested properties fuel c name' model unlisted found nested built values scalar =>
    rw [sameType_nested_iff built values scalar]
    cases hwritten with
    | nested nests declared written =>
      rw [← ih _ _ _ _ _ _ hunlisted nests declared nested]
      constructor
      · rintro ⟨m, hm, hsame⟩
        cases written.symm.trans hm
        exact hsame
      · intro hsame
        exact ⟨_, written, hsame⟩
    | scalar single written =>
      constructor
      · rintro ⟨m, hm, -⟩
        cases written.symm.trans hm
      · intro halike
        cases halike with
        | leaf _ absent _ => cases absent.symm.trans found
        | object _ nests _ _ _ => exact absurd nests single
  | scalar unlisted absent built values model =>
    have hscalar := scalarType_of_single hinline hsingle
    rw [hunlisted, if_neg (by decide)] at hscalar
    have htable : ∀ s, Schema.scalarType w = some s → writtenScalar s = s ∧ s ≠ .jsonObject :=
      fun s hs => writtenScalar_of_scalarType hs
    rw [sameType_scalar_iff ⟨built, values, model⟩]
    cases hwritten with
    | nested nests _ _ =>
      have hsome := nests.1
      rw [absent] at hsome
      cases hsome
    | scalar _ written =>
      rw [written, WrittenType.scalar.injEq]
      split
      · rename_i hobject
        show _ = scalarCode .jsonObject ↔ _
        rw [scalarCode_jsonObject_iff htable, hscalar]
        refine ⟨fun hnone => .leaf hunlisted absent fun _ => hnone, fun halike => ?_⟩
        cases halike with
        | leaf _ _ clear => exact clear hobject
        | object _ _ found _ _ => cases absent.symm.trans found
      · rename_i hobject
        rw [← hscalar]
        exact ⟨fun _ => .leaf hunlisted absent fun h => absurd h hobject,
          fun _ => scalarCode_getD htable⟩

/-- The model of a node with values is the hoisted enumeration. -/
theorem enumModel_of_listed (hinline : IsInline w) {values : List Value} {m : Model}
    (hlisted : enumValues w = .ok (some values)) (h : model w name .null = .ok m) :
    ∃ description, enumModel m.name description values = .ok m := by
  rw [model, hinline.2] at h
  dsimp only at h
  rw [hlisted] at h
  replace h : enumModel (Naming.modelName name) (chooseDescription .null w) values = .ok m := h
  obtain ⟨hdeclares, -⟩ := declares_enumModel (notMem_modelName name) h
  exact ⟨_, hdeclares.name ▸ h⟩

/-- The model of a node with properties is the object of its fields. -/
theorem objectModel_of_properties (hother : Reference.pointer? w = none)
    (hunlisted : (w.field "enum").isTruthy = false) {properties : Members} {m : Model}
    (hfound : properties? w = some properties) (h : model w name .null = .ok m) :
    ∃ description, objectModel m.name description m.fields = .ok m := by
  rw [model, hother] at h
  dsimp only at h
  obtain ⟨values, hvalues, h⟩ := bind_eq_ok.mp h
  cases (Schema.enumValues_isNone hvalues).mpr hunlisted
  dsimp only at h
  split at h
  · obtain ⟨keys, -, h⟩ := bind_eq_ok.mp h
    obtain ⟨fields, -, h⟩ := bind_eq_ok.mp h
    obtain ⟨hdeclares, rfl⟩ := declares_objectModel (notMem_modelName name) h
    exact ⟨_, hdeclares.name ▸ h⟩
  · rename_i habsent
    cases habsent.symm.trans hfound

/-- The type of a list of nodes with values is said alike if the values are hoisted. -/
theorem sameType_iff_of_listed (hinline : IsInline w) (hlisted : (w.field "enum").isTruthy = true)
    (hwritten : WrittenFor w f) (hbuilt : BuiltAs w spec) : SameType f spec ↔ Nests w := by
  cases hbuilt with
  | @values values listed built scalar model =>
    rw [sameType_values_iff built scalar model]
    cases hwritten with
    | nested nests declared written =>
      obtain ⟨description, hhoisted⟩ := enumModel_of_listed hinline listed declared
      exact ⟨fun _ => nests, fun _ => .inr ⟨_, values, description, written, rfl, hhoisted⟩⟩
    | scalar single written =>
      refine ⟨?_, fun nests => absurd nests single⟩
      rintro (hvalues | ⟨m, _, _, hnested, -⟩)
      · cases written.symm.trans hvalues
      · cases written.symm.trans hnested
  | nested unlisted _ _ _ _ _ => exact absurd (unlisted.symm.trans hlisted) (by decide)
  | scalar unlisted _ _ _ _ => exact absurd (unlisted.symm.trans hlisted) (by decide)

end ApiContract.Codegen.Declaration
