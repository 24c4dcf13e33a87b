import ApiContract.Codegen.GraphQl
import ApiContract.Proofs.Schema.Parts

/-!
# GraphQL types

A reference is named after its target and a list after its items; any other node has the scalar of
its format or type. So what is read of a schema are the required names and, for each property, the
format of its node or of the innermost items of its list.

* **`typeName_of_reference`** / **`typeName_of_items`** / **`typeName_of_single`** — names of types.
* **`succeeds_typeName_iff`** — a format that cannot be looked up, by recursion on the items.
* **`generateModel_succeeds_iff`** — the headline.
-/

namespace ApiContract.Codegen

open Schema (Part)

/-- A format that is no leaf cannot be looked up. -/
theorem Zod.succeeds_lookupFormat_iff (table : List (String × String)) {schema : Value} :
    Succeeds (lookupFormat table (schema.field "format"))
      ↔ Part.format.isReadable schema = true := by
  unfold Part.isReadable
  dsimp only
  cases schema.field "format" with
  | scalar s => cases s <;> exact iff_of_true (succeeds_ok _) rfl
  | list items => exact iff_of_false (not_succeeds_error _) Bool.noConfusion
  | map members => exact iff_of_false (not_succeeds_error _) Bool.noConfusion
  | set items => exact iff_of_false (not_succeeds_error _) Bool.noConfusion

namespace GraphQl

variable {schema : Value}

/-! ## Names -/

/-- The name of a type without items. -/
def scalarName (schema : Value) : Except Failure String := do
  match ← Zod.lookupFormat formats (schema.field "format") with
  | some name => return name
  | none => return ((Schema.typeOf schema).1.bind fun t => types.lookup t).getD "JSON"

theorem typeName_of_reference {pointer : String} (h : Reference.pointer? schema = some pointer) :
    typeName schema = .ok (referenceSymbol pointer) := by
  rw [typeName, h]
  rfl

theorem typeName_of_items {items : Members} (hpointer : Reference.pointer? schema = none)
    (harray : (Schema.typeOf schema).1 = some "array")
    (hitems : schema.get? "items" = some (.map items)) :
    typeName schema = do return "[" ++ (← typeName (.map items)) ++ "]" := by
  rw [typeName, hpointer]
  dsimp only
  rw [if_pos harray]
  split
  · next found hfound =>
    cases hitems.symm.trans hfound
    rfl
  · next hother => exact absurd hitems (hother items)

/-- A node that is no list of nodes. -/
theorem typeName_of_single (hpointer : Reference.pointer? schema = none)
    (hsingle : (Schema.typeOf schema).1 = some "array" →
      ∀ items, schema.get? "items" ≠ some (.map items)) :
    typeName schema = scalarName schema := by
  rw [typeName, hpointer]
  dsimp only
  split
  · next harray =>
    split
    · next items hitems => exact absurd hitems (hsingle harray items)
    · rfl
  · rfl

/-! ## What is read -/

/-- The node that gives the name of the type: the schema, or the innermost items of a list. -/
inductive Names : (node schema : Value) → Prop where
  | single {schema : Value} (other : Reference.pointer? schema = none)
      (single : (Schema.typeOf schema).1 = some "array" →
        ∀ items, schema.get? "items" ≠ some (.map items)) : Names schema schema
  | item {node schema : Value} {items : Members} (other : Reference.pointer? schema = none)
      (array : (Schema.typeOf schema).1 = some "array")
      (found : schema.get? "items" = some (.map items)) (names : Names node (.map items)) :
      Names node schema

/-- **The name of a type**, by recursion on the items. -/
theorem succeeds_typeName_iff {schema : Value} :
    Succeeds (typeName schema) ↔ ∀ node, Names node schema → Part.format.isReadable node = true := by
  cases hpointer : Reference.pointer? schema with
  | some pointer =>
    rw [typeName_of_reference hpointer]
    refine iff_of_true (succeeds_ok _) fun node hnames => ?_
    cases hnames with
    | single other _ => cases hpointer.symm.trans other
    | item other _ _ _ => cases hpointer.symm.trans other
  | none =>
    by_cases hlist : (Schema.typeOf schema).1 = some "array"
        ∧ ∃ items, schema.get? "items" = some (.map items)
    · obtain ⟨harray, items, hitems⟩ := hlist
      rw [typeName_of_items hpointer harray hitems,
        succeeds_bind_of_forall fun inner => succeeds_pure _, succeeds_typeName_iff]
      refine ⟨fun h node hnames => ?_, fun h node hnames => h node (.item hpointer harray hitems hnames)⟩
      cases hnames with
      | single _ single => exact absurd hitems (single harray items)
      | item _ _ found names =>
        cases hitems.symm.trans found
        exact h node names
    · have hsingle : (Schema.typeOf schema).1 = some "array" →
          ∀ items, schema.get? "items" ≠ some (.map items) :=
        fun harray items hitems => hlist ⟨harray, items, hitems⟩
      have hscalar : Succeeds (scalarName schema) ↔ Part.format.isReadable schema = true := by
        unfold scalarName
        rw [← Zod.succeeds_lookupFormat_iff formats]
        refine succeeds_bind_of_forall fun found => ?_
        cases found <;> exact succeeds_pure _
      rw [typeName_of_single hpointer hsingle, hscalar]
      refine ⟨fun h node hnames => ?_, fun h => h schema (.single hpointer hsingle)⟩
      cases hnames with
      | single _ _ => exact h
      | item _ array found _ => exact absurd found (hsingle array _)
termination_by schema.size
decreasing_by exact Value.size_lt_of_get? (by assumption)

/-- The part of the node is read where a type is defined by the schema. -/
inductive Reads : (part : Part) → (node schema : Value) → Prop where
  | required {schema : Value} : Reads .required schema schema
  | format {node schema : Value} {properties : Members} {property : Scalar × Value}
      (found : Schema.properties? schema = some properties) (member : property ∈ properties)
      (names : Names node property.2) : Reads .format node schema

/-- **A type is defined** if and only if every part that is read is well-formed. -/
theorem generateModel_succeeds_iff (schema : Value) (name : String) (given : Value) :
    Succeeds (generateModel schema name given)
      ↔ ∀ part node, Reads part node schema → part.isReadable node = true := by
  have hproperties (keys : List Scalar) :
      Succeeds (((Schema.properties? schema).getD []).mapM (propertyLine keys))
        ↔ ∀ p ∈ (Schema.properties? schema).getD [], ∀ node, Names node p.2 →
          Part.format.isReadable node = true := by
    rw [succeeds_mapM]
    refine forall₂_congr fun p _ => ?_
    rw [← succeeds_typeName_iff]
    exact succeeds_bind_of_forall fun name => succeeds_pure _
  have hdefinition (symbol : String) (description : Value) :
      Succeeds (typeDefinition symbol schema description)
        ↔ Part.required.isReadable schema = true
          ∧ ∀ p ∈ (Schema.properties? schema).getD [], ∀ node, Names node p.2 →
            Part.format.isReadable node = true := by
    rw [← Schema.succeeds_requiredKeys_iff]
    refine succeeds_bind_and fun keys _ => ?_
    rw [← hproperties keys]
    exact succeeds_bind_of_forall fun lines => succeeds_pure _
  refine (succeeds_bind_of_forall fun definition => succeeds_pure _).trans
    ((hdefinition _ (chooseDescription given schema)).trans ?_)
  constructor
  · rintro ⟨hrequired, hformats⟩ part node hreads
    cases hreads with
    | required => exact hrequired
    | format found member names =>
      rw [found] at hformats
      exact hformats _ member _ names
  · intro h
    refine ⟨h _ _ .required, fun p hp node hnames => ?_⟩
    cases found : Schema.properties? schema with
    | none =>
      rw [found] at hp
      exact absurd hp List.not_mem_nil
    | some properties =>
      rw [found] at hp
      exact h _ _ (.format found hp hnames)

end GraphQl

end ApiContract.Codegen
