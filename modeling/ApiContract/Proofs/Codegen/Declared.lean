import ApiContract.Codegen.Declaration
import ApiContract.Proofs.Checked
import ApiContract.Proofs.Codegen.Lines
import ApiContract.Proofs.Schema.Typed

/-!
# What a declaration is made of

The generator of declarations gone through once. A property gives a field of its own, and a nested
model besides where its node, or the items of its list, are an object with properties
(`DeclaredField`). A schema gives a reference, a declaration without fields, or one with the fields of
its properties or its items (`DeclaredModel`).

* **`wantsNested_iff`** — when there is a nested model.
* **`declaredField`** / **`declaredModel`** — the cases.
-/

namespace ApiContract.Codegen.Declaration

/-! ## Types that are no scalars -/

/-- No scalar is found under a type that begins like none of them. -/
theorem scalarFor_eq_none {type : String} (hne : type.toList ≠ [])
    (hstart : ∀ entry ∈ Schema.scalarTable, entry.1.toList.head? ≠ type.toList.head?)
    (format : Value) : Schema.scalarFor (some type) format = none := by
  have hlookup : ∀ s, Schema.scalarTable.lookup (type ++ s) = none := by
    intro s
    refine List.lookup_eq_none_iff.mpr fun entry hentry => ?_
    refine bne_iff_ne.mpr fun heq => hstart entry hentry ?_
    rw [← heq, String.toList_append, List.head?_append, Option.or_of_isSome]
    exact List.isSome_head?.mpr hne
  have hplain : Schema.scalarTable.lookup type = none := by
    have hempty := hlookup ""
    rwa [String.append_empty] at hempty
  unfold Schema.scalarFor
  dsimp only [bind, Option.bind]
  rw [hplain, String.append_assoc, hlookup]
  simp

theorem scalarFor_object (format : Value) : Schema.scalarFor (some "object") format = none :=
  scalarFor_eq_none (by decide) (by decide) format

theorem scalarFor_array (format : Value) : Schema.scalarFor (some "array") format = none :=
  scalarFor_eq_none (by decide) (by decide) format

/-! ## Types of nodes -/

variable {schema given target : Value} {name parent : String} {required : Bool} {f : Field}
  {m nested : Model}

/-- A node that says something of its own: a mapping that is no reference. -/
def IsInline (schema : Value) : Prop := schema.isMap = true ∧ Reference.pointer? schema = none

theorem isInline_iff :
    IsInline schema ↔ (schema.isMap && !Reference.isReference schema) = true := by
  unfold IsInline Reference.isReference
  cases schema.isMap <;> cases Reference.pointer? schema <;> simp

theorem isInline_of_array (other : Reference.pointer? schema = none)
    (array : (Schema.typeOf schema).1 = some "array") : IsInline schema :=
  ⟨Schema.isMap_of_array array, other⟩

theorem isArray_iff : Schema.isArray schema = true ↔ (Schema.typeOf schema).1 = some "array" := by
  unfold Schema.isArray
  exact beq_iff_eq

theorem typeRef_of_reference {pointer : String} (h : Reference.pointer? schema = some pointer)
    (name : Option String) :
    typeRef schema name = { type := referenceSymbol pointer, isReference := true } := by
  rw [typeRef, h]

theorem typeRef_of_items (h : IsInline schema) (harray : (Schema.typeOf schema).1 = some "array")
    {members : Members} (hitems : schema.get? "items" = some (.map members)) (name : Option String) :
    typeRef schema name
      = { typeRef (.map members) name with array := true, optional := (Schema.typeOf schema).2 } := by
  rw [typeRef, h.1, h.2]
  dsimp only
  rw [if_neg (by decide), if_pos harray]
  split
  · rename_i members' hitems'
    cases hitems.symm.trans hitems'
    rfl
  · rename_i hother
    exact absurd hitems (hother members)

theorem typeRef_of_no_items (h : IsInline schema) (harray : (Schema.typeOf schema).1 = some "array")
    (hitems : ∀ members, schema.get? "items" ≠ some (.map members)) (name : Option String) :
    typeRef schema name
      = { type := "unknown", array := true, optional := (Schema.typeOf schema).2 } := by
  rw [typeRef, h.1, h.2]
  dsimp only
  rw [if_neg (by decide), if_pos harray]
  split
  · rename_i members hitems'
    exact absurd hitems' (hitems members)
  · rfl

/-- What is no list and no reference has the name of no other model. -/
theorem typeRef_of_single (h : IsInline schema) (harray : (Schema.typeOf schema).1 ≠ some "array")
    (name : Option String) :
    (typeRef schema name).isReference = false ∧ (typeRef schema name).array = false
      ∧ (typeRef schema name).optional = (Schema.typeOf schema).2 := by
  rw [typeRef, h.1, h.2]
  dsimp only
  rw [if_neg (by decide), if_neg harray]
  split
  · exact ⟨rfl, rfl, rfl⟩
  · split
    · exact ⟨rfl, rfl, rfl⟩
    · split <;> exact ⟨rfl, rfl, rfl⟩

/-- Whether a type is optional, and whether it is a list. -/
theorem flags_of_typeRef (hpointer : Reference.pointer? schema = none) (name : Option String) :
    (typeRef schema name).optional = (Schema.typeOf schema).2
      ∧ (typeRef schema name).array = Schema.isArray schema := by
  cases hmap : schema.isMap with
  | false =>
    rw [typeRef, hpointer, hmap, Schema.isArray, Schema.typeOf_of_not_map hmap]
    exact ⟨rfl, rfl⟩
  | true =>
    have hinline : IsInline schema := ⟨hmap, hpointer⟩
    by_cases harray : (Schema.typeOf schema).1 = some "array"
    · rw [isArray_iff.mpr harray]
      by_cases hitems : ∃ members, schema.get? "items" = some (.map members)
      · obtain ⟨members, hitems⟩ := hitems
        rw [typeRef_of_items hinline harray hitems]
        exact ⟨rfl, rfl⟩
      · rw [typeRef_of_no_items hinline harray fun members hget => hitems ⟨members, hget⟩]
        exact ⟨rfl, rfl⟩
    · obtain ⟨-, harray', hoptional⟩ := typeRef_of_single hinline harray name
      exact ⟨hoptional, harray'.trans (Bool.eq_false_iff.mpr (mt isArray_iff.mp harray)).symm⟩

/-! ## Fields without nested models -/

/-- The field of a property before it gets a nested model. -/
structure FlatField (schema : Value) (name : String) (required : Bool) (f : Field) : Prop where
  hname : f.name = name
  htype : ∃ description, f.type =
    { typeRef schema (some name) with
      optional := !required || (typeRef schema (some name)).optional, description }
  hscalar : f.scalarType = (Schema.scalarType schema).map scalarCode
  hinline : IsInline schema → ∃ values, Schema.enumValues schema = .ok values
    ∧ f.enumValues = values.map (·.map Value.text)
  hother : ¬IsInline schema → f.enumValues = none
  hnested : f.nestedModel = none

theorem flatField (h : fieldOf schema name required = .ok f) : FlatField schema name required f := by
  unfold fieldOf at h
  dsimp only at h
  split at h
  · rename_i hinline
    obtain ⟨values, hvalues, h⟩ := bind_eq_ok.mp h
    cases h
    exact ⟨rfl, ⟨_, rfl⟩, rfl, fun _ => ⟨values, hvalues, rfl⟩,
      fun hother => absurd (isInline_iff.mpr hinline) hother, rfl⟩
  · rename_i hother
    obtain ⟨values, hvalues, h⟩ := bind_eq_ok.mp h
    cases hvalues
    cases h
    exact ⟨rfl, ⟨_, rfl⟩, rfl, fun hinline => absurd (isInline_iff.mp hinline) hother,
      fun _ => rfl, rfl⟩

/-- The values of a field are those of its node. -/
theorem FlatField.enumValues_eq_none_iff (h : FlatField schema name required f)
    (hinline : IsInline schema) :
    f.enumValues = none ↔ (schema.field "enum").isTruthy = false := by
  obtain ⟨values, hvalues, heq⟩ := h.hinline hinline
  rw [heq, Option.map_eq_none_iff]
  exact Schema.enumValues_isNone hvalues

/-! ## Nested models -/

/-- The node that the nested model of a property is made from: the items of a list, or the node. -/
def nestTarget? (schema : Value) : Option Value :=
  if !schema.isMap || Reference.isReference schema then none
  else if Schema.isArray schema then (schema.get? "items").filter Value.isMap
  else some schema

/-- An object with properties. -/
def Nests (target : Value) : Prop :=
  (Schema.properties? target).isSome = true
    ∧ ((Schema.typeOf target).1 = some "object" ∨ (Schema.typeOf target).1 = none)

theorem isInline_of_nestTarget? (h : nestTarget? schema = some target) : IsInline schema := by
  unfold nestTarget? at h
  split at h
  · cases h
  · rename_i hinline
    rw [isInline_iff]
    simpa [Bool.not_eq_true] using hinline

theorem nestTarget?_of_array (h : IsInline schema)
    (harray : (Schema.typeOf schema).1 = some "array") :
    nestTarget? schema = (schema.get? "items").filter Value.isMap := by
  have hinline := isInline_iff.mp h
  unfold nestTarget?
  rw [if_neg (by simpa using hinline), if_pos (isArray_iff.mpr harray)]

theorem nestTarget?_of_single (h : IsInline schema)
    (harray : (Schema.typeOf schema).1 ≠ some "array") : nestTarget? schema = some schema := by
  have hinline := isInline_iff.mp h
  unfold nestTarget?
  rw [if_neg (by simpa using hinline), if_neg (mt isArray_iff.mp harray)]

theorem Nests.not_isArray (h : Nests target) : Schema.isArray target = false := by
  refine Bool.eq_false_iff.mpr fun harray => ?_
  rw [isArray_iff] at harray
  rcases h.2 with hobject | hnone
  · exact absurd (hobject.symm.trans harray) (by decide)
  · exact absurd (hnone.symm.trans harray) (by decide)

/-- An object is no scalar. -/
theorem Nests.scalarType (h : Nests target) : Schema.scalarType target = none := by
  rw [Schema.scalarType, h.not_isArray]
  split
  · rfl
  · rw [if_neg (by decide)]
    split
    · rfl
    · rcases h.2 with hobject | hnone
      · rw [hobject]
        exact scalarFor_object _
      · rw [hnone]
        rfl

/-- The scalar of a list is that of its items. -/
theorem scalarType_of_array (h : IsInline schema)
    (harray : (Schema.typeOf schema).1 = some "array") {items : Value}
    (hitems : schema.get? "items" = some items) :
    Schema.scalarType schema = Schema.scalarType items := by
  rw [Schema.scalarType, if_neg (by simpa using isInline_iff.mp h), if_pos (isArray_iff.mpr harray)]
  split
  · rename_i items' hitems'
    cases hitems.symm.trans hitems'
    rfl
  · rename_i hnone
    cases hitems.symm.trans hnone

/-- A list whose items are no mapping has no scalar. -/
theorem scalarType_of_no_items (h : IsInline schema)
    (harray : (Schema.typeOf schema).1 = some "array")
    (hitems : ∀ members, schema.get? "items" ≠ some (.map members)) :
    Schema.scalarType schema = none := by
  rw [Schema.scalarType, if_neg (by simpa using isInline_iff.mp h), if_pos (isArray_iff.mpr harray)]
  split
  · rename_i items hget
    have hother : items.isMap = false := by
      refine Bool.eq_false_iff.mpr fun hmap => ?_
      obtain ⟨members, rfl⟩ := Schema.exists_members hmap
      exact hitems members hget
    rw [Schema.scalarType, hother]
    rfl
  · rfl

/-- The scalar of a node that is no list. -/
theorem scalarType_of_single (h : IsInline schema)
    (harray : (Schema.typeOf schema).1 ≠ some "array") :
    Schema.scalarType schema = if (schema.field "enum").isTruthy then none
      else Schema.scalarFor (Schema.typeOf schema).1 (schema.field "format") := by
  rw [Schema.scalarType, if_neg (by simpa using isInline_iff.mp h), if_neg (mt isArray_iff.mp harray)]

theorem scalarType_of_nests (h : nestTarget? schema = some target) (hnests : Nests target) :
    Schema.scalarType schema = none := by
  have hinline := isInline_of_nestTarget? h
  by_cases harray : (Schema.typeOf schema).1 = some "array"
  · rw [nestTarget?_of_array hinline harray] at h
    obtain ⟨hitems, -⟩ := Option.filter_eq_some_iff.mp h
    rw [scalarType_of_array hinline harray hitems]
    exact hnests.scalarType
  · rw [nestTarget?_of_single hinline harray] at h
    cases h
    exact hnests.scalarType

/-- **A property has a nested model** if its type comes from an object with properties and it has no
values. -/
theorem wantsNested_iff (hfield : FlatField schema name required f)
    (h : nestTarget? schema = some target) :
    wantsNested f target = true ↔ Nests target ∧ (schema.field "enum").isTruthy = false := by
  have hvalues := hfield.enumValues_eq_none_iff (isInline_of_nestTarget? h)
  have hscalar : Nests target → f.scalarType = none := by
    intro hnests
    rw [hfield.hscalar, scalarType_of_nests h hnests]
    rfl
  unfold wantsNested
  dsimp only
  simp only [Bool.and_eq_true, Bool.or_eq_true, beq_iff_eq, Option.isNone_iff_eq_none, hvalues]
  exact ⟨fun ⟨⟨hnests, _⟩, henum⟩ => ⟨hnests, henum⟩,
    fun ⟨hnests, henum⟩ => ⟨⟨hnests, hscalar hnests⟩, henum⟩⟩

/-! ## Properties -/

/-- What the generator gives for a property. -/
inductive DeclaredField (schema : Value) (name : String) (required : Bool) (parent : String) :
    Field → Prop where
  | flat {f : Field} (field : FlatField schema name required f)
      (single : ∀ target, nestTarget? schema = some target → (schema.field "enum").isTruthy = false →
        ¬Nests target) :
      DeclaredField schema name required parent f
  | nested {f : Field} {target : Value} {nested : Model} (field : FlatField schema name required f)
      (found : nestTarget? schema = some target) (nests : Nests target)
      (unlisted : (schema.field "enum").isTruthy = false)
      (built : model target (parent ++ Naming.pascalCase name) .null = .ok nested) :
      DeclaredField schema name required parent (withNested f nested)

/-- A field with or without the nested model from its target. -/
theorem declaredField_of_target (htarget : nestTarget? schema = some target)
    (h : (do
      let field ← fieldOf schema name required
      if wantsNested field target then
        return withNested field (← model target (parent ++ Naming.pascalCase name) .null)
      else return field) = .ok f) : DeclaredField schema name required parent f := by
  obtain ⟨field, hfield, h⟩ := bind_eq_ok.mp h
  have hflat := flatField hfield
  have hwants := wantsNested_iff hflat htarget
  split at h
  · rename_i hnested
    obtain ⟨nested, hbuilt, h⟩ := bind_eq_ok.mp h
    obtain ⟨hnests, henum⟩ := hwants.mp hnested
    cases h
    exact .nested hflat htarget hnests henum hbuilt
  · rename_i hsingle
    cases h
    refine .flat hflat fun target' htarget' henum hnests => hsingle (hwants.mpr ?_)
    cases htarget.symm.trans htarget'
    exact ⟨hnests, henum⟩

theorem declaredField_list (hinline : IsInline schema)
    (harray : (Schema.typeOf schema).1 = some "array")
    (h : listField schema name required parent = .ok f) :
    DeclaredField schema name required parent f := by
  have htarget := nestTarget?_of_array hinline harray
  rw [listField] at h
  obtain ⟨field, hfield, hrest⟩ := bind_eq_ok.mp h
  split at hrest
  · rename_i items hitems
    rw [hitems, Option.filter_some_pos rfl] at htarget
    exact declaredField_of_target htarget (bind_eq_ok.mpr ⟨field, hfield, hrest⟩)
  · rename_i hother
    cases hrest
    refine .flat (flatField hfield) fun target htarget' => ?_
    obtain ⟨hitems, hmap⟩ := Option.filter_eq_some_iff.mp (htarget.symm.trans htarget')
    obtain ⟨members, rfl⟩ := Schema.exists_members hmap
    exact absurd hitems (hother members)

/-- **What is given for a property.** -/
theorem declaredField (h : propertyField schema name required parent = .ok f) :
    DeclaredField schema name required parent f := by
  rw [propertyField] at h
  split at h
  · rename_i hother
    refine .flat (flatField h) fun target htarget => ?_
    have hinline := isInline_iff.mp (isInline_of_nestTarget? htarget)
    simp_all
  · rename_i hinline
    have hinline : IsInline schema := isInline_iff.mpr (by simpa using hinline)
    split at h
    · rename_i hlist
      exact declaredField_list hinline (isArray_iff.mp (Bool.and_eq_true_iff.mp hlist).1) h
    · rename_i hlist
      by_cases harray : (Schema.typeOf schema).1 = some "array"
      · -- a list of something that is no mapping
        have hitems : ¬(schema.field "items").isMap = true := fun hmap =>
          hlist (Bool.and_eq_true_iff.mpr ⟨isArray_iff.mpr harray, hmap⟩)
        obtain ⟨field, hfield, hrest⟩ := bind_eq_ok.mp h
        have hsingle : wantsNested field schema = false := by simp [wantsNested, harray]
        rw [hsingle, if_neg (by decide)] at hrest
        cases hrest
        refine .flat (flatField hfield) fun target htarget => ?_
        rw [nestTarget?_of_array hinline harray] at htarget
        obtain ⟨hget, hmap⟩ := Option.filter_eq_some_iff.mp htarget
        exact absurd (by rw [Value.field, hget]; exact hmap) hitems
      · exact declaredField_of_target (nestTarget?_of_single hinline harray) h

theorem name_of_declared (h : DeclaredField schema name required parent f) : f.name = name := by
  cases h with
  | flat field _ => exact field.hname
  | nested field _ _ _ _ => exact field.hname

/-- **Whether the field of a property is optional**, and whether it is a list. -/
theorem flags_of_declared (hpointer : Reference.pointer? schema = none)
    (h : DeclaredField schema name required parent f) :
    f.type.optional = (!required || (Schema.typeOf schema).2)
      ∧ f.type.array = Schema.isArray schema := by
  obtain ⟨hoptional, harray⟩ := flags_of_typeRef hpointer (some name)
  cases h with
  | flat field _ =>
    obtain ⟨description, htype⟩ := field.htype
    rw [htype, ← hoptional, ← harray]
    exact ⟨rfl, rfl⟩
  | nested field _ _ _ _ =>
    obtain ⟨description, htype⟩ := field.htype
    unfold withNested
    rw [htype, ← hoptional, ← harray]
    exact ⟨rfl, rfl⟩

theorem forall₂_fieldsOf {keys : List Scalar} {properties : Members} {fields : List Field}
    (h : fieldsOf parent keys properties = .ok fields) :
    List.Forall₂ (fun p f => propertyField p.2 p.1.text (Schema.isRequired keys p.1) parent = .ok f)
      properties fields := by
  induction properties generalizing fields with
  | nil =>
    rw [fieldsOf] at h
    cases h
    exact .nil
  | cons p rest ih =>
    obtain ⟨key, node⟩ := p
    rw [fieldsOf] at h
    obtain ⟨f, hf, h⟩ := bind_eq_ok.mp h
    obtain ⟨more, hmore, h⟩ := bind_eq_ok.mp h
    cases h
    exact .cons hf (ih hmore)

/-! ## Models -/

/-- A declaration of the symbol. -/
structure Declares (symbol : String) (m : Model) : Prop where
  name : m.name = symbol
  declares : DeclaresIn m.code symbol

theorem notMem_modelName (name : String) : '\n' ∉ (Naming.modelName name).toList :=
  Naming.notMem_modelName (by decide) (by decide) name

variable {symbol : String} {description : Value} {lines : List String}

theorem declares_leafModel (hsymbol : '\n' ∉ symbol.toList) {line : String} (hline : line ∈ lines)
    (hstart : (declarationStart symbol).toList <+: line.toList)
    (h : leafModel symbol description lines = .ok m) : Declares symbol m ∧ m.fields = [] := by
  unfold leafModel at h
  obtain ⟨about, -, h⟩ := bind_eq_ok.mp h
  cases h
  exact ⟨⟨rfl, declaresIn_joinLines hline hsymbol hstart⟩, rfl⟩

theorem declarationStart_model (symbol : String) :
    (declarationStart symbol).toList <+: (s!"export const {symbol} = defineSchemaModel(\x7b").toList :=
  declarationStart_prefix "defineSchemaModel(\x7b" (by decide) symbol

/-- A model is opened with a line that declares it. -/
theorem exists_start_openModel (h : openModel symbol description = .ok lines) :
    ∃ line ∈ lines, (declarationStart symbol).toList <+: line.toList := by
  unfold openModel at h
  split at h
  · obtain ⟨literal, -, h⟩ := bind_eq_ok.mp h
    cases h
    exact ⟨_, List.mem_cons_self, declarationStart_model symbol⟩
  · cases h
    exact ⟨_, List.mem_cons_self, declarationStart_model symbol⟩

theorem declares_enumModel (hsymbol : '\n' ∉ symbol.toList) {values : List Value}
    (h : enumModel symbol description values = .ok m) : Declares symbol m ∧ m.fields = [] := by
  refine declares_leafModel hsymbol
    (List.mem_append_right _ (List.mem_singleton_self _)) ?_ h
  have hstart : (declarationStart symbol).toList
      <+: ("export const " ++ symbol ++ " = new EnumType(").toList :=
    declarationStart_prefix "new EnumType(" (by decide) symbol
  exact prefix_append (prefix_append (prefix_append (prefix_append hstart _) _) _) _

theorem declares_aliasModel (hsymbol : '\n' ∉ symbol.toList) {scalar : Contract.ScalarType}
    (h : aliasModel symbol description scalar = .ok m) : Declares symbol m ∧ m.fields = [] := by
  unfold aliasModel at h
  obtain ⟨opening, hopening, h⟩ := bind_eq_ok.mp h
  obtain ⟨line, hline, hstart⟩ := exists_start_openModel hopening
  exact declares_leafModel hsymbol
    (List.mem_append_left _ (List.mem_append_right _ hline)) hstart h

theorem declares_dictionaryModel (hsymbol : '\n' ∉ symbol.toList)
    (h : dictionaryModel symbol description = .ok m) : Declares symbol m ∧ m.fields = [] := by
  refine declares_leafModel hsymbol
    (List.mem_append_right _ (List.mem_singleton_self _)) ?_ h
  exact declarationStart_prefix "ScalarTypeEnum.JSONObject();" (by decide) symbol

theorem declares_emptyModel (hsymbol : '\n' ∉ symbol.toList)
    (h : emptyModel symbol description = .ok m) : Declares symbol m ∧ m.fields = [] := by
  unfold emptyModel at h
  obtain ⟨opening, hopening, h⟩ := bind_eq_ok.mp h
  obtain ⟨line, hline, hstart⟩ := exists_start_openModel hopening
  exact declares_leafModel hsymbol (List.mem_append_left _ hline) hstart h

theorem declares_objectModel (hsymbol : '\n' ∉ symbol.toList) {fields : List Field}
    (h : objectModel symbol description fields = .ok m) :
    Declares symbol m ∧ m.fields = fields := by
  unfold objectModel at h
  obtain ⟨opening, hopening, h⟩ := bind_eq_ok.mp h
  obtain ⟨about, -, h⟩ := bind_eq_ok.mp h
  obtain ⟨line, hline, hstart⟩ := exists_start_openModel hopening
  cases h
  refine ⟨⟨rfl, @declaresIn_joinLines _ line _ ?_ hsymbol hstart⟩, rfl⟩
  simp [hline]

/-- What the generator gives for a schema under a name. -/
inductive DeclaredModel (schema : Value) (name : String) : Model → Prop where
  | reference {pointer : String} (found : Reference.pointer? schema = some pointer) :
      DeclaredModel schema name
        ⟨referenceSymbol pointer, none, [], s!"// Reference to {pointer}"⟩
  | leaf {m : Model} (other : Reference.pointer? schema = none)
      (leaf : (schema.field "enum").isTruthy = true
        ∨ Schema.properties? schema = none ∧ (Schema.typeOf schema).1 ≠ some "array")
      (declares : Declares (Naming.modelName name) m) (empty : m.fields = []) :
      DeclaredModel schema name m
  | object {m : Model} {properties : Members} {keys : List Scalar}
      (other : Reference.pointer? schema = none) (unlisted : (schema.field "enum").isTruthy = false)
      (found : Schema.properties? schema = some properties)
      (required : Schema.requiredKeys schema = .ok keys)
      (fields : fieldsOf (Naming.modelName name) keys properties = .ok m.fields)
      (declares : Declares (Naming.modelName name) m) : DeclaredModel schema name m
  | list {m : Model} {f : Field} (other : Reference.pointer? schema = none)
      (unlisted : (schema.field "enum").isTruthy = false)
      (absent : Schema.properties? schema = none)
      (array : (Schema.typeOf schema).1 = some "array")
      (field : DeclaredField schema "items" true (Naming.modelName name) f)
      (fields : m.fields = [f]) (declares : Declares (Naming.modelName name) m) :
      DeclaredModel schema name m

/-- **What is given for a schema.** -/
theorem declaredModel (h : model schema name given = .ok m) : DeclaredModel schema name m := by
  have hsymbol := notMem_modelName name
  rw [model] at h
  cases hpointer : Reference.pointer? schema with
  | some pointer =>
    rw [hpointer] at h
    cases h
    exact .reference hpointer
  | none =>
    rw [hpointer] at h
    dsimp only at h
    obtain ⟨values, hvalues, h⟩ := bind_eq_ok.mp h
    have hlisted := Schema.enumValues_isNone hvalues
    split at h
    · obtain ⟨hdeclares, hempty⟩ := declares_enumModel hsymbol h
      exact .leaf hpointer (.inl (by simpa using hlisted)) hdeclares hempty
    · replace hlisted := hlisted.mp rfl
      split at h
      · rename_i properties hproperties
        obtain ⟨keys, hkeys, h⟩ := bind_eq_ok.mp h
        obtain ⟨fields, hfields, h⟩ := bind_eq_ok.mp h
        obtain ⟨hdeclares, rfl⟩ := declares_objectModel hsymbol h
        exact .object hpointer hlisted hproperties hkeys hfields hdeclares
      · rename_i hproperties
        split at h
        · rename_i scalar hscalar
          obtain ⟨hdeclares, hempty⟩ := declares_aliasModel hsymbol h
          refine .leaf hpointer (.inr ⟨hproperties, fun harray => ?_⟩) hdeclares hempty
          rw [harray] at hscalar
          exact absurd hscalar (by rw [Option.filter_some_pos (by decide), scalarFor_array]; simp)
        · split at h
          · rename_i harray
            obtain ⟨f, hf, h⟩ := bind_eq_ok.mp h
            obtain ⟨hdeclares, hfields⟩ := declares_objectModel hsymbol h
            have hinline := isInline_of_array hpointer harray
            exact .list hpointer hlisted hproperties harray
              (declaredField_list hinline harray hf) hfields hdeclares
          · rename_i harray
            split at h
            · obtain ⟨hdeclares, hempty⟩ := declares_dictionaryModel hsymbol h
              exact .leaf hpointer (.inr ⟨hproperties, harray⟩) hdeclares hempty
            · obtain ⟨hdeclares, hempty⟩ := declares_emptyModel hsymbol h
              exact .leaf hpointer (.inr ⟨hproperties, harray⟩) hdeclares hempty

end ApiContract.Codegen.Declaration
