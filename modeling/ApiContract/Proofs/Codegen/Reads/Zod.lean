import ApiContract.Proofs.Codegen.Generator
import ApiContract.Proofs.Codegen.GraphQl
import ApiContract.Proofs.Json.Written

/-!
# What is read for a validator

An object that is written out reads its required names; any other node reads its values, and without
values the items of a list or the format. At the top, properties count whatever the type is, and a
schema without type and properties is not read at all.

* **`succeeds_expression_iff`** — an expression, by recursion on the schema.
* **`generateModel_succeeds_iff`** — the headline.
-/

namespace ApiContract.Codegen.Zod

open Schema (Part)

variable {schema given : Value}

/-- The part of the node is read where an expression is written for the schema. -/
inductive Reads : (part : Part) → (node schema : Value) → Prop where
  | required {schema : Value} {properties : Members} (other : Reference.pointer? schema = none)
      (found : inlineProperties? schema = some properties) : Reads .required schema schema
  | property {part : Part} {node schema : Value} {properties : Members} {property : Scalar × Value}
      (other : Reference.pointer? schema = none)
      (found : inlineProperties? schema = some properties) (member : property ∈ properties)
      (reads : Reads part node property.2) : Reads part node schema
  | enumeration {schema : Value} (other : Reference.pointer? schema = none)
      (absent : inlineProperties? schema = none) : Reads .enumeration schema schema
  | item {part : Part} {node schema : Value} {items : Members}
      (other : Reference.pointer? schema = none) (absent : inlineProperties? schema = none)
      (unlisted : (schema.field "enum").isTruthy = false)
      (array : (Schema.typeOf schema).1 = some "array")
      (found : schema.get? "items" = some (.map items)) (reads : Reads part node (.map items)) :
      Reads part node schema
  | format {schema : Value} (other : Reference.pointer? schema = none)
      (absent : inlineProperties? schema = none)
      (unlisted : (schema.field "enum").isTruthy = false)
      (single : (Schema.typeOf schema).1 ≠ some "array") : Reads .format schema schema

def Readable (schema : Value) : Prop :=
  ∀ part node, Reads part node schema → part.isReadable node = true

theorem readable_of_reference {pointer : String} (h : Reference.pointer? schema = some pointer) :
    Readable schema := by
  intro part node hreads
  cases hreads with
  | required other _ => cases h.symm.trans other
  | property other _ _ _ => cases h.symm.trans other
  | enumeration other _ => cases h.symm.trans other
  | item other _ _ _ _ _ => cases h.symm.trans other
  | format other _ _ _ => cases h.symm.trans other

theorem readable_iff_of_properties {properties : Members}
    (other : Reference.pointer? schema = none)
    (found : inlineProperties? schema = some properties) :
    Readable schema
      ↔ Part.required.isReadable schema = true ∧ ∀ p ∈ properties, Readable p.2 := by
  constructor
  · exact fun h => ⟨h _ _ (.required other found),
      fun p hp part node hreads => h _ _ (.property other found hp hreads)⟩
  · rintro ⟨hrequired, hproperties⟩ part node hreads
    cases hreads with
    | required _ _ => exact hrequired
    | property _ found' member reads =>
      cases found.symm.trans found'
      exact hproperties _ member _ _ reads
    | enumeration _ absent => cases found.symm.trans absent
    | item _ absent _ _ _ _ => cases found.symm.trans absent
    | format _ absent _ _ => cases found.symm.trans absent

theorem readable_iff_of_no_properties (other : Reference.pointer? schema = none)
    (absent : inlineProperties? schema = none) :
    Readable schema ↔ Part.enumeration.isReadable schema = true
      ∧ ((schema.field "enum").isTruthy = false →
        ((Schema.typeOf schema).1 = some "array" →
          ∀ items, schema.get? "items" = some (.map items) → Readable (.map items))
        ∧ ((Schema.typeOf schema).1 ≠ some "array" → Part.format.isReadable schema = true)) := by
  constructor
  · intro h
    exact ⟨h _ _ (.enumeration other absent), fun unlisted =>
      ⟨fun array items found part node hreads =>
        h _ _ (.item other absent unlisted array found hreads),
      fun single => h _ _ (.format other absent unlisted single)⟩⟩
  · rintro ⟨henum, hrest⟩ part node hreads
    cases hreads with
    | required _ found => cases found.symm.trans absent
    | property _ found _ _ => cases found.symm.trans absent
    | enumeration _ _ => exact henum
    | item _ _ unlisted array found reads => exact (hrest unlisted).1 array _ found _ _ reads
    | format _ _ unlisted single => exact (hrest unlisted).2 single

theorem tree_of_inlineProperties? {properties : Members} (h : Json.Tree schema)
    (found : inlineProperties? schema = some properties) : ∀ p ∈ properties, Json.Tree p.2 := by
  unfold inlineProperties? at found
  split at found
  · exact tree_of_properties? h found
  · cases found

theorem succeeds_completed (h : Json.Tree schema) (required : Bool) (base : Expression) :
    Succeeds (completed schema required base) := by
  have hdefault : Succeeds (defaultCode schema) := by
    unfold defaultCode
    split
    · rename_i v hget
      obtain ⟨literal, hliteral⟩ := Json.succeeds_jsonLiteral (h.get? hget)
      exact succeeds_bind.mpr ⟨literal, hliteral, succeeds_pure _⟩
    · exact succeeds_pure _
  exact (succeeds_bind_of_forall fun default => succeeds_pure _).mpr hdefault

mutual

/-- **The expression for a node**, by recursion on the schema. -/
theorem succeeds_expression_iff {schema : Value} (h : Json.Tree schema) (required : Bool) :
    Succeeds (expression schema required) ↔ Readable schema := by
  cases hpointer : Reference.pointer? schema with
  | some pointer =>
    rw [expression, hpointer]
    exact iff_of_true (succeeds_pure _) (readable_of_reference hpointer)
  | none =>
    cases hproperties : inlineProperties? schema with
    | some properties =>
      rw [expression_of_properties hpointer hproperties,
        readable_iff_of_properties hpointer hproperties, ← Schema.succeeds_requiredKeys_iff]
      refine succeeds_bind_and fun keys _ => ?_
      rw [← succeeds_memberExpressions_iff (tree_of_inlineProperties? h hproperties) keys]
      exact succeeds_bind_of_forall fun es => succeeds_completed h required _
    | none =>
      rw [expression_of_no_properties hpointer hproperties,
        readable_iff_of_no_properties hpointer hproperties, ← Schema.succeeds_enumValues_iff]
      refine succeeds_bind_and fun values hvalues => ?_
      have hlisted := Schema.enumValues_isNone hvalues
      cases values with
      | some values =>
        have hother : (schema.field "enum").isTruthy ≠ false := mt hlisted.mpr (Option.some_ne_none _)
        exact iff_of_true (succeeds_completed h required _) fun unlisted => absurd unlisted hother
      | none =>
        have unlisted := hlisted.mp rfl
        by_cases harray : (Schema.typeOf schema).1 = some "array"
        · dsimp only
          rw [if_pos harray]
          refine Iff.trans (b := ∀ items, schema.get? "items" = some (.map items) →
            Readable (.map items)) ?_ ⟨fun hitem _ => ⟨fun _ => hitem, fun single =>
              absurd harray single⟩, fun hall => (hall unlisted).1 harray⟩
          split
          · rename_i items hitems
            rw [succeeds_bind_of_forall fun item => succeeds_completed h required _,
              succeeds_expression_iff (h.get? hitems) true]
            refine ⟨fun hitem items' hitems' => ?_, fun hitem => hitem items hitems⟩
            cases hitems.symm.trans hitems'
            exact hitem
          · rename_i hother
            exact iff_of_true (succeeds_completed h required _)
              fun items hitems => absurd hitems (hother items)
        · have hscalar : Succeeds (scalarCode (Schema.typeOf schema).1 (schema.field "format"))
              ↔ Part.format.isReadable schema = true := by
            rw [← succeeds_lookupFormat_iff formats]
            refine succeeds_bind_of_forall fun found => ?_
            cases found <;> exact succeeds_pure _
          dsimp only
          rw [if_neg harray, succeeds_bind_of_forall fun code => succeeds_completed h required _,
            hscalar]
          exact ⟨fun hformat _ => ⟨fun array => absurd array harray, fun _ => hformat⟩,
            fun hall => (hall unlisted).2 harray⟩
termination_by (schema.size, 0)
decreasing_by
  · exact Prod.Lex.left _ _ (Value.size_lt_of_get? (by assumption))
  · exact Prod.Lex.left _ _ (membersSize_lt_of_inlineProperties? (by assumption))

/-- The properties of an object. -/
theorem succeeds_memberExpressions_iff {properties : List (Scalar × Value)}
    (h : ∀ p ∈ properties, Json.Tree p.2) (keys : List Scalar) :
    Succeeds (memberExpressions keys properties) ↔ ∀ p ∈ properties, Readable p.2 := by
  match properties with
  | [] =>
    rw [memberExpressions]
    exact iff_of_true (succeeds_pure _) fun p hp => absurd hp List.not_mem_nil
  | (key, schema) :: rest =>
    obtain ⟨hfirst, hrest⟩ := List.forall_mem_cons.mp h
    rw [memberExpressions, List.forall_mem_cons,
      ← succeeds_expression_iff hfirst (Schema.isRequired keys key),
      ← succeeds_memberExpressions_iff hrest keys]
    exact succeeds_bind_and fun value _ => succeeds_bind_of_forall fun lines => succeeds_pure _
termination_by (membersSize properties, 1)
decreasing_by
  · simp only [membersSize]
    rcases Nat.eq_zero_or_pos (membersSize rest) with h | h
    · rw [h]
      exact Prod.Lex.right _ (by omega)
    · exact Prod.Lex.left _ _ (by omega)
  · simp only [membersSize]
    exact Prod.Lex.left _ _ (by have := Value.size_pos schema; omega)

end

/-- The part of the node is read where a validator is generated of the schema. Properties count
whatever the type is. -/
inductive ModelReads : (part : Part) → (node schema : Value) → Prop where
  | required {schema : Value} {properties : Members}
      (found : Schema.properties? schema = some properties) : ModelReads .required schema schema
  | property {part : Part} {node schema : Value} {properties : Members} {property : Scalar × Value}
      (found : Schema.properties? schema = some properties) (member : property ∈ properties)
      (reads : Reads part node property.2) : ModelReads part node schema
  | whole {part : Part} {node schema : Value} (absent : Schema.properties? schema = none)
      (typed : (schema.field "type").isTruthy = true) (reads : Reads part node schema) :
      ModelReads part node schema

theorem succeeds_modelExpression_iff (h : Json.Tree schema) :
    Succeeds (modelExpression schema)
      ↔ ∀ part node, ModelReads part node schema → part.isReadable node = true := by
  unfold modelExpression
  cases hproperties : Schema.properties? schema with
  | some properties =>
    have hparts : Succeeds (Schema.requiredKeys schema >>= fun keys => do
          return objectOf (← memberExpressions keys properties))
        ↔ Part.required.isReadable schema = true ∧ ∀ p ∈ properties, Readable p.2 := by
      rw [← Schema.succeeds_requiredKeys_iff]
      refine succeeds_bind_and fun keys _ => ?_
      rw [← succeeds_memberExpressions_iff (tree_of_properties? h hproperties) keys]
      exact succeeds_bind_of_forall fun es => succeeds_pure _
    refine hparts.trans ⟨?_, fun hall => ⟨hall _ _ (.required hproperties),
      fun p hp part node hreads => hall _ _ (.property hproperties hp hreads)⟩⟩
    rintro ⟨hrequired, hall⟩ part node hreads
    cases hreads with
    | required _ => exact hrequired
    | property found member reads =>
      cases hproperties.symm.trans found
      exact hall _ member _ _ reads
    | whole absent _ _ => cases hproperties.symm.trans absent
  | none =>
    have hwhole (hreadable : (schema.field "type").isTruthy = true → Readable schema) :
        ∀ part node, ModelReads part node schema → part.isReadable node = true := by
      intro part node hreads
      cases hreads with
      | required found => cases hproperties.symm.trans found
      | property found _ _ => cases hproperties.symm.trans found
      | whole _ typed reads => exact hreadable typed _ _ reads
    dsimp only
    split
    · rename_i hkept
      rw [succeeds_expression_iff h true]
      refine ⟨fun hreadable => hwhole fun _ => hreadable, fun hall => ?_⟩
      obtain ⟨-, htyped⟩ := Bool.and_eq_true_iff.mp hkept
      rcases Bool.or_eq_true_iff.mp htyped with htyped | hreference
      · exact fun part node hreads => hall _ _ (.whole hproperties htyped hreads)
      · obtain ⟨pointer, hpointer⟩ := Option.isSome_iff_exists.mp hreference
        exact readable_of_reference hpointer
    · rename_i hother
      refine iff_of_true (succeeds_pure _) (hwhole fun htyped => absurd ?_ hother)
      have hmap : schema.isMap = true := by
        refine (Bool.eq_false_or_eq_true _).resolve_right fun hmap => ?_
        rw [Schema.field_of_not_map hmap] at htyped
        cases htyped
      rw [hmap, htyped]
      rfl

/-- **A validator is generated** if and only if every part that is read is well-formed. -/
theorem generateModel_succeeds_iff (conventions : Conventions) (name : String)
    (hgiven : IsGiven given) (h : Json.Tree schema) :
    Succeeds (generateModel conventions schema name given)
      ↔ ∀ part node, ModelReads part node schema → part.isReadable node = true := by
  have hliteral : Succeeds (jsonLiteral (chooseDescription given schema)) :=
    Json.succeeds_jsonLiteral (tree_chooseDescription hgiven h)
  rw [← succeeds_modelExpression_iff h]
  refine succeeds_bind_of_forall fun body => ?_
  exact (succeeds_bind_of_forall fun about => succeeds_pure _).mpr hliteral

end ApiContract.Codegen.Zod
