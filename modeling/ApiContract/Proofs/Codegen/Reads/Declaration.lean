import ApiContract.Proofs.Codegen.Declared
import ApiContract.Proofs.Json.Written
import ApiContract.Proofs.Schema.Parts

/-!
# What is read for a declaration

Every node that says something of its own has its values read, whatever its type. A model reads its
description unless one is given, and the required names of its properties; a field reads the nested
model that it gets, if any.

* **`succeeds_propertyField_iff`** — a field, from what holds of its nested model.
* **`succeeds_model_iff`** — a model, by recursion on the schema.
* **`generateModel_succeeds_iff`** — the headline.
-/

namespace ApiContract.Codegen.Declaration

open Schema (Part)

variable {schema given target : Value} {required : Bool}

/-- A list at the top, which becomes a model with the one field of its items. -/
def IsList (schema : Value) : Prop :=
  (schema.field "enum").isTruthy = false ∧ Schema.properties? schema = none
    ∧ (Schema.typeOf schema).1 = some "array"

mutual

/-- The part of the node is read where a declaration is generated of the schema, with a description
given or not. A list keeps its description only where it is there. -/
inductive Reads : (given : Value) → (part : Part) → (node schema : Value) → Prop where
  | enumeration {given schema : Value} (other : Reference.pointer? schema = none) :
      Reads given .enumeration schema schema
  | caption {given schema : Value} (other : Reference.pointer? schema = none)
      (missing : given.isTruthy = false) : Reads given .caption schema schema
  | description {given schema : Value} (other : Reference.pointer? schema = none)
      (missing : given.isTruthy = false) (single : ¬IsList schema) :
      Reads given .description schema schema
  | required {given schema : Value} {properties : Members}
      (other : Reference.pointer? schema = none)
      (unlisted : (schema.field "enum").isTruthy = false)
      (found : Schema.properties? schema = some properties) : Reads given .required schema schema
  | property {given : Value} {part : Part} {node schema : Value} {properties : Members}
      {property : Scalar × Value} (other : Reference.pointer? schema = none)
      (unlisted : (schema.field "enum").isTruthy = false)
      (found : Schema.properties? schema = some properties) (member : property ∈ properties)
      (reads : FieldReads part node property.2) : Reads given part node schema
  | item {given : Value} {part : Part} {node schema : Value}
      (other : Reference.pointer? schema = none) (list : IsList schema)
      (reads : FieldReads part node schema) : Reads given part node schema

/-- The part of the node is read where a field is generated of the schema. -/
inductive FieldReads : (part : Part) → (node schema : Value) → Prop where
  | enumeration {schema : Value} (inside : IsInline schema) : FieldReads .enumeration schema schema
  | nested {part : Part} {node schema target : Value} (found : nestTarget? schema = some target)
      (nests : Nests target) (unlisted : (schema.field "enum").isTruthy = false)
      (reads : Reads .null part node target) : FieldReads part node schema

end

def Readable (given schema : Value) : Prop :=
  ∀ part node, Reads given part node schema → part.isReadable node = true

def FieldReadable (schema : Value) : Prop :=
  ∀ part node, FieldReads part node schema → part.isReadable node = true

/-! ## Fields -/

theorem succeeds_fieldOf_iff (name : String) (required : Bool) :
    Succeeds (fieldOf schema name required)
      ↔ (IsInline schema → Part.enumeration.isReadable schema = true) := by
  unfold fieldOf
  dsimp only
  split
  · rename_i hinline
    rw [succeeds_bind_of_forall fun values => succeeds_pure _, Schema.succeeds_enumValues_iff]
    exact ⟨fun h _ => h, fun h => h (isInline_iff.mpr hinline)⟩
  · rename_i hother
    exact iff_of_true (succeeds_pure _) fun hinline => absurd (isInline_iff.mp hinline) hother

theorem fieldReadable_iff_of_no_target (h : nestTarget? schema = none) :
    FieldReadable schema ↔ (IsInline schema → Part.enumeration.isReadable schema = true) := by
  constructor
  · exact fun hreadable hinline => hreadable _ _ (.enumeration hinline)
  · intro henum part node hreads
    cases hreads with
    | enumeration inside => exact henum inside
    | nested found _ _ _ => cases h.symm.trans found

theorem fieldReadable_iff_of_target (h : nestTarget? schema = some target) :
    FieldReadable schema ↔ Part.enumeration.isReadable schema = true
      ∧ (Nests target → (schema.field "enum").isTruthy = false → Readable .null target) := by
  constructor
  · exact fun hreadable => ⟨hreadable _ _ (.enumeration (isInline_of_nestTarget? h)),
      fun nests unlisted part node hreads => hreadable _ _ (.nested h nests unlisted hreads)⟩
  · rintro ⟨henum, hnested⟩ part node hreads
    cases hreads with
    | enumeration _ => exact henum
    | nested found nests unlisted reads =>
      cases h.symm.trans found
      exact hnested nests unlisted _ _ reads

/-- A field, with the nested model from its target if there is one. -/
def targetField (schema target : Value) (name : String) (required : Bool) (parent : String) :
    Except Failure Field := do
  let field ← fieldOf schema name required
  if wantsNested field target then
    return withNested field (← model target (parent ++ Naming.pascalCase name) .null)
  else return field

variable {name parent : String}

theorem listField_of_target (hinline : IsInline schema)
    (harray : (Schema.typeOf schema).1 = some "array") (h : nestTarget? schema = some target) :
    listField schema name required parent = targetField schema target name required parent := by
  rw [nestTarget?_of_array hinline harray] at h
  obtain ⟨hitems, hmap⟩ := Option.filter_eq_some_iff.mp h
  obtain ⟨members, rfl⟩ := Schema.exists_members hmap
  rw [listField]
  refine bind_congr fun field => ?_
  split
  · rename_i items hitems'
    cases hitems.symm.trans hitems'
    rfl
  · rename_i hother
    exact absurd hitems (hother members)

theorem listField_of_no_target (hinline : IsInline schema)
    (harray : (Schema.typeOf schema).1 = some "array") (h : nestTarget? schema = none) :
    listField schema name required parent = fieldOf schema name required := by
  rw [nestTarget?_of_array hinline harray] at h
  rw [listField]
  split
  · rename_i items hitems
    rw [hitems] at h
    cases h
  · exact bind_pure _

theorem propertyField_of_target (h : nestTarget? schema = some target) :
    propertyField schema name required parent
      = targetField schema target name required parent := by
  have hinline := isInline_of_nestTarget? h
  have hplain := isInline_iff.mp hinline
  rw [propertyField, if_neg (by simpa using hplain)]
  by_cases harray : (Schema.typeOf schema).1 = some "array"
  · have hitems : (schema.field "items").isMap = true := by
      rw [nestTarget?_of_array hinline harray] at h
      obtain ⟨hget, hmap⟩ := Option.filter_eq_some_iff.mp h
      rw [Value.field, hget]
      exact hmap
    rw [if_pos (by rw [isArray_iff.mpr harray, hitems]; rfl)]
    exact listField_of_target hinline harray h
  · rw [nestTarget?_of_single hinline harray] at h
    cases h
    rw [if_neg (by simp [Schema.isArray, harray])]
    rfl

theorem propertyField_of_no_target (h : nestTarget? schema = none) :
    propertyField schema name required parent = fieldOf schema name required := by
  rw [propertyField]
  split
  · rfl
  · rename_i hother
    have hinline : IsInline schema := isInline_iff.mpr (by simpa using hother)
    by_cases harray : (Schema.typeOf schema).1 = some "array"
    · split
      · exact listField_of_no_target hinline harray h
      · have hsingle (field : Field) : wantsNested field schema = false := by
          simp [wantsNested, harray]
        simp only [hsingle, Bool.false_eq_true, if_false]
        exact bind_pure _
    · rw [nestTarget?_of_single hinline harray] at h
      cases h

/-- A field succeeds with its nested model, if it gets one. -/
theorem succeeds_targetField_iff (h : nestTarget? schema = some target)
    (hmodel : Nests target → ∀ name,
      (Succeeds (model target name .null) ↔ Readable .null target)) :
    Succeeds (targetField schema target name required parent) ↔ FieldReadable schema := by
  have hinline := isInline_of_nestTarget? h
  have hfield : Succeeds (fieldOf schema name required) ↔ _ := succeeds_fieldOf_iff name required
  rw [fieldReadable_iff_of_target h]
  unfold targetField
  rw [← (hfield.trans ⟨fun henum => henum hinline, fun henum _ => henum⟩)]
  refine succeeds_bind_and fun field hok => ?_
  have hwants := wantsNested_iff (flatField hok) h
  split
  · rename_i hnested
    obtain ⟨hnests, hunlisted⟩ := hwants.mp hnested
    rw [succeeds_bind_of_forall fun nested => succeeds_pure _, hmodel hnests]
    exact ⟨fun hreadable _ _ => hreadable, fun hreadable => hreadable hnests hunlisted⟩
  · rename_i hsingle
    exact iff_of_true (succeeds_pure _)
      fun hnests hunlisted => absurd (hwants.mpr ⟨hnests, hunlisted⟩) hsingle

/-- The field of a property, if its nested model succeeds as it should. -/
theorem succeeds_propertyField_iff
    (hmodel : ∀ target, nestTarget? schema = some target → Nests target → ∀ name,
      (Succeeds (model target name .null) ↔ Readable .null target)) :
    Succeeds (propertyField schema name required parent) ↔ FieldReadable schema := by
  cases htarget : nestTarget? schema with
  | none =>
    rw [propertyField_of_no_target htarget, fieldReadable_iff_of_no_target htarget]
    exact succeeds_fieldOf_iff name required
  | some target =>
    rw [propertyField_of_target htarget]
    exact succeeds_targetField_iff htarget (hmodel target htarget)

/-- The same for the items of a list. -/
theorem succeeds_listField_iff (hinline : IsInline schema)
    (harray : (Schema.typeOf schema).1 = some "array")
    (hmodel : ∀ target, nestTarget? schema = some target → Nests target → ∀ name,
      (Succeeds (model target name .null) ↔ Readable .null target)) :
    Succeeds (listField schema name required parent) ↔ FieldReadable schema := by
  cases htarget : nestTarget? schema with
  | none =>
    rw [listField_of_no_target hinline harray htarget, fieldReadable_iff_of_no_target htarget]
    exact succeeds_fieldOf_iff name required
  | some target =>
    rw [listField_of_target hinline harray htarget]
    exact succeeds_targetField_iff htarget (hmodel target htarget)

theorem succeeds_fieldsOf_iff {properties : Members} (keys : List Scalar)
    (hfield : ∀ p ∈ properties, ∀ required,
      Succeeds (propertyField p.2 p.1.text required parent) ↔ FieldReadable p.2) :
    Succeeds (fieldsOf parent keys properties) ↔ ∀ p ∈ properties, FieldReadable p.2 := by
  induction properties with
  | nil =>
    rw [fieldsOf]
    exact iff_of_true (succeeds_pure _) fun p hp => absurd hp List.not_mem_nil
  | cons p rest ih =>
    obtain ⟨key, node⟩ := p
    obtain ⟨hfirst, hrest⟩ := List.forall_mem_cons.mp hfield
    rw [fieldsOf, List.forall_mem_cons, ← hfirst (Schema.isRequired keys key), ← ih hrest]
    exact succeeds_bind_and fun field _ => succeeds_bind_of_forall fun fields => succeeds_pure _

/-! ## Models -/

variable {symbol : String} {description : Value} {lines : List String}

theorem succeeds_modelDescription_iff :
    Succeeds (modelDescription description) ↔ Schema.isText description = true :=
  Schema.succeeds_descriptionOf_iff "GeneratedModel"

theorem succeeds_leafModel_iff :
    Succeeds (leafModel symbol description lines) ↔ Schema.isText description = true := by
  rw [← succeeds_modelDescription_iff]
  exact succeeds_bind_of_forall fun about => succeeds_pure _

theorem succeeds_openModel_of_tree (symbol : String) (h : Json.Tree description) :
    Succeeds (openModel symbol description) := by
  unfold openModel
  split
  · obtain ⟨literal, hliteral⟩ := Json.succeeds_jsonLiteral h
    exact succeeds_bind.mpr ⟨literal, hliteral, succeeds_pure _⟩
  · exact succeeds_pure _

theorem succeeds_aliasModel_iff (h : Json.Tree description) {scalar : Contract.ScalarType} :
    Succeeds (aliasModel symbol description scalar) ↔ Schema.isText description = true := by
  obtain ⟨opening, hopening⟩ := succeeds_openModel_of_tree symbol h
  unfold aliasModel
  rw [hopening]
  exact succeeds_leafModel_iff

theorem succeeds_emptyModel_iff (h : Json.Tree description) :
    Succeeds (emptyModel symbol description) ↔ Schema.isText description = true := by
  obtain ⟨opening, hopening⟩ := succeeds_openModel_of_tree symbol h
  unfold emptyModel
  rw [hopening]
  exact succeeds_leafModel_iff

theorem succeeds_objectModel_iff (h : Json.Tree description) (fields : List Field) :
    Succeeds (objectModel symbol description fields) ↔ Schema.isText description = true := by
  obtain ⟨opening, hopening⟩ := succeeds_openModel_of_tree symbol h
  unfold objectModel
  dsimp only
  rw [hopening, ← succeeds_modelDescription_iff]
  exact succeeds_bind_of_forall fun about => succeeds_pure _

/-- The description that counts is a text where the schema has to have one. -/
theorem isText_chooseDescription_iff (hgiven : IsGiven given) (schema : Value) :
    Schema.isText (chooseDescription given schema) = true
      ↔ (given.isTruthy = false → Part.description.isReadable schema = true) := by
  unfold chooseDescription
  split
  · rename_i htruthy
    refine iff_of_true ?_ fun hmissing => absurd htruthy (by rw [hmissing]; decide)
    rcases hgiven with rfl | ⟨text, rfl⟩
    · cases htruthy
    · rfl
  · rename_i hmissing
    exact ⟨fun h _ => h, fun h => h (by simpa using hmissing)⟩

/-- A list keeps the description that counts only where it is there. -/
theorem isText_caption_iff (hgiven : IsGiven given) :
    Schema.isText (if (chooseDescription given schema).isTruthy then chooseDescription given schema
        else .null) = true
      ↔ (given.isTruthy = false → Part.caption.isReadable schema = true) := by
  have habout := isText_chooseDescription_iff hgiven schema
  split
  · rename_i htruthy
    rw [habout]
    refine forall_congr' fun hmissing => ?_
    have hfield : chooseDescription given schema = schema.field "description" := by
      rw [chooseDescription, hmissing, if_neg (by decide)]
    rw [hfield] at htruthy
    unfold Part.isReadable
    dsimp only
    rw [htruthy, Bool.not_true, Bool.false_or]
  · rename_i hfalsy
    refine iff_of_true rfl fun hmissing => ?_
    have hfield : chooseDescription given schema = schema.field "description" := by
      rw [chooseDescription, hmissing, if_neg (by decide)]
    rw [hfield] at hfalsy
    unfold Part.isReadable
    dsimp only
    rw [Bool.eq_false_iff.mpr hfalsy, Bool.not_false, Bool.true_or]

theorem readable_of_reference {pointer : String} (h : Reference.pointer? schema = some pointer) :
    Readable given schema := by
  intro part node hreads
  cases hreads with
  | enumeration other => cases h.symm.trans other
  | caption other _ => cases h.symm.trans other
  | description other _ _ => cases h.symm.trans other
  | required other _ _ => cases h.symm.trans other
  | property other _ _ _ _ => cases h.symm.trans other
  | item other _ _ => cases h.symm.trans other

theorem readable_iff_of_single (other : Reference.pointer? schema = none) (single : ¬IsList schema) :
    Readable given schema ↔ Part.enumeration.isReadable schema = true
      ∧ ((schema.field "enum").isTruthy = false → ∀ properties,
        Schema.properties? schema = some properties →
        Part.required.isReadable schema = true ∧ ∀ p ∈ properties, FieldReadable p.2)
      ∧ (given.isTruthy = false → Part.description.isReadable schema = true) := by
  constructor
  · intro h
    refine ⟨h _ _ (.enumeration other), fun unlisted properties found => ?_,
      fun missing => h _ _ (.description other missing single)⟩
    exact ⟨h _ _ (.required other unlisted found),
      fun p hp part node hreads => h _ _ (.property other unlisted found hp hreads)⟩
  · rintro ⟨henum, hproperties, hdescription⟩ part node hreads
    cases hreads with
    | enumeration _ => exact henum
    | caption _ missing =>
      have htext := hdescription missing
      unfold Part.isReadable at htext ⊢
      dsimp only at htext ⊢
      rw [htext, Bool.or_true]
    | description _ missing _ => exact hdescription missing
    | required _ unlisted found => exact (hproperties unlisted _ found).1
    | property _ unlisted found member reads =>
      exact (hproperties unlisted _ found).2 _ member _ _ reads
    | item _ list _ => exact absurd list single

theorem readable_iff_of_list (other : Reference.pointer? schema = none) (list : IsList schema) :
    Readable given schema ↔ Part.enumeration.isReadable schema = true ∧ FieldReadable schema
      ∧ (given.isTruthy = false → Part.caption.isReadable schema = true) := by
  constructor
  · intro h
    exact ⟨h _ _ (.enumeration other), fun part node hreads => h _ _ (.item other list hreads),
      fun missing => h _ _ (.caption other missing)⟩
  · rintro ⟨henum, hitem, hcaption⟩ part node hreads
    cases hreads with
    | enumeration _ => exact henum
    | caption _ missing => exact hcaption missing
    | description _ _ single => exact absurd list single
    | required _ _ found => cases list.2.1.symm.trans found
    | property _ _ found _ _ => cases list.2.1.symm.trans found
    | item _ _ reads => exact hitem _ _ reads

theorem size_le_of_nestTarget? (h : nestTarget? schema = some target) :
    target.size ≤ schema.size := by
  have hinline := isInline_of_nestTarget? h
  by_cases harray : (Schema.typeOf schema).1 = some "array"
  · rw [nestTarget?_of_array hinline harray] at h
    exact (Value.size_lt_of_get? (Option.filter_eq_some_iff.mp h).1).le
  · rw [nestTarget?_of_single hinline harray] at h
    cases h
    exact le_rfl

theorem tree_of_nestTarget? (htree : Json.Tree schema) (h : nestTarget? schema = some target) :
    Json.Tree target := by
  have hinline := isInline_of_nestTarget? h
  by_cases harray : (Schema.typeOf schema).1 = some "array"
  · rw [nestTarget?_of_array hinline harray] at h
    exact htree.get? (Option.filter_eq_some_iff.mp h).1
  · rw [nestTarget?_of_single hinline harray] at h
    cases h
    exact htree

/-- A target other than the schema itself is smaller. -/
theorem size_lt_of_array (harray : (Schema.typeOf schema).1 = some "array")
    (h : nestTarget? schema = some target) : target.size < schema.size := by
  rw [nestTarget?_of_array (isInline_of_nestTarget? h) harray] at h
  exact Value.size_lt_of_get? (Option.filter_eq_some_iff.mp h).1

theorem size_lt_of_property {properties : Members} {property : Scalar × Value}
    (found : Schema.properties? schema = some properties) (member : property ∈ properties)
    (h : nestTarget? property.2 = some target) : target.size < schema.size := by
  have hproperty := Schema.size_property_lt found member
  have htarget := size_le_of_nestTarget? h
  omega

/-- **The model of a schema**, by recursion on the schema. -/
theorem succeeds_model_iff {schema given : Value} (hgiven : IsGiven given) (h : Json.Tree schema)
    (name : String) : Succeeds (model schema name given) ↔ Readable given schema := by
  have habout := tree_chooseDescription hgiven h
  rw [model]
  cases hpointer : Reference.pointer? schema with
  | some pointer => exact iff_of_true (succeeds_pure _) (readable_of_reference hpointer)
  | none =>
    dsimp only
    by_cases hlist : IsList schema
    · rw [readable_iff_of_list hpointer hlist, ← Schema.succeeds_enumValues_iff]
      obtain ⟨hunlisted, habsent, harray⟩ := hlist
      refine succeeds_bind_and fun values hvalues => ?_
      cases (Schema.enumValues_isNone hvalues).mpr hunlisted
      dsimp only
      split
      · rename_i properties hproperties
        cases habsent.symm.trans hproperties
      · rw [harray, Option.filter_some_pos (by decide), scalarFor_array, if_pos rfl,
          ← isText_caption_iff hgiven]
        have hitem : Succeeds (listField schema "items" true (Naming.modelName name))
            ↔ FieldReadable schema :=
          succeeds_listField_iff (isInline_of_array hpointer harray) harray
            fun target htarget _ name =>
              have := size_lt_of_array harray htarget
              succeeds_model_iff (.inl rfl) (tree_of_nestTarget? h htarget) name
        rw [← hitem]
        refine succeeds_bind_and fun items _ => succeeds_objectModel_iff ?_ _
        split
        · exact habout
        · exact .null
    · rw [readable_iff_of_single hpointer hlist, ← Schema.succeeds_enumValues_iff]
      refine succeeds_bind_and fun values hvalues => ?_
      rw [← isText_chooseDescription_iff hgiven]
      have hlisted := Schema.enumValues_isNone hvalues
      cases values with
      | some values =>
        have hother : (schema.field "enum").isTruthy ≠ false := mt hlisted.mpr (Option.some_ne_none _)
        exact succeeds_leafModel_iff.trans
          ⟨fun htext => ⟨fun unlisted => absurd unlisted hother, htext⟩, And.right⟩
      | none =>
        have hunlisted := hlisted.mp rfl
        dsimp only
        split
        · rename_i properties hproperties
          have hfields (keys : List Scalar) :
              Succeeds (fieldsOf (Naming.modelName name) keys properties)
                ↔ ∀ p ∈ properties, FieldReadable p.2 :=
            succeeds_fieldsOf_iff keys fun p hp required =>
              succeeds_propertyField_iff fun target htarget _ name =>
                have := size_lt_of_property hproperties hp htarget
                succeeds_model_iff (.inl rfl)
                  (tree_of_nestTarget? (tree_of_properties? h hproperties p hp) htarget) name
          have hparts : Succeeds (do
                let required ← Schema.requiredKeys schema
                objectModel (Naming.modelName name) (chooseDescription given schema)
                  (← fieldsOf (Naming.modelName name) required properties))
              ↔ Part.required.isReadable schema = true ∧ (∀ p ∈ properties, FieldReadable p.2)
                ∧ Schema.isText (chooseDescription given schema) = true := by
            rw [← Schema.succeeds_requiredKeys_iff]
            refine succeeds_bind_and fun keys _ => ?_
            rw [← hfields keys]
            exact succeeds_bind_and fun fields _ => succeeds_objectModel_iff habout fields
          refine hparts.trans ⟨?_, ?_⟩
          · rintro ⟨hrequired, hall, htext⟩
            refine ⟨fun _ properties' found => ?_, htext⟩
            cases hproperties.symm.trans found
            exact ⟨hrequired, hall⟩
          · rintro ⟨hall, htext⟩
            obtain ⟨hrequired, hall⟩ := hall hunlisted properties hproperties
            exact ⟨hrequired, hall, htext⟩
        · rename_i hproperties
          have hleaf : Schema.isText (chooseDescription given schema) = true
              ↔ ((schema.field "enum").isTruthy = false → ∀ properties,
                  Schema.properties? schema = some properties →
                  Part.required.isReadable schema = true ∧ ∀ p ∈ properties, FieldReadable p.2)
                ∧ Schema.isText (chooseDescription given schema) = true :=
            ⟨fun htext => ⟨fun _ properties found =>
              absurd (hproperties.symm.trans found) ((Option.some_ne_none _).symm), htext⟩, And.right⟩
          rw [← hleaf]
          split
          · exact succeeds_aliasModel_iff habout
          · rw [if_neg fun harray => hlist ⟨hunlisted, hproperties, harray⟩]
            split
            · exact succeeds_leafModel_iff
            · exact succeeds_emptyModel_iff habout
termination_by schema.size

theorem generateModel_succeeds_iff (conventions : Conventions) (name : String)
    (hgiven : IsGiven given) (h : Json.Tree schema) :
    Succeeds (generateModel conventions schema name given) ↔ Readable given schema := by
  rw [← succeeds_model_iff hgiven h name]
  exact succeeds_bind_of_forall fun found => succeeds_pure _

end ApiContract.Codegen.Declaration
