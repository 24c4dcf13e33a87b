import ApiContract.Proofs.Codegen.References

/-!
# The types that declarations write

The declaration of a field says its type in one of four ways: values, a scalar, a nested model, or
the name of another model. `writtenType` is what it says, and `fieldType` its text. Of a field without
references, the type follows from the node: its values come first, then a nested model, then the
scalar of the node or of the items of its lists, and with none of them it is `JSONObject`.

* **`fieldType_eq`** — the text of a type.
* **`writtenAs`** — which type a field has.
-/

namespace ApiContract.Codegen.Declaration

open Contract (ScalarType)

/-! ## Types and their texts -/

/-- What the declaration of a field says about its type. -/
inductive WrittenType where
  | values (texts : List String)
  | scalar (code : String)
  | nested (m : Model)
  | named (symbol : String)

/-- The expression of a type. -/
def WrittenType.text (name : String) : WrittenType → String
  | .values texts =>
    let symbol := stringLiteral (Naming.pascalCase name ++ "Enum")
    s!"new EnumType({symbol}, [{literalList texts}])"
  | .scalar code => s!"{code}()"
  | .nested m => m.name
  | .named symbol => symbol

/-- The type of a field. -/
def writtenType (f : Field) : WrittenType :=
  match f.enumValues, f.scalarType, f.nestedModel with
  | some texts, _, _ => .values texts
  | none, some code, _ => .scalar code
  | none, none, some m => .nested m
  | none, none, none =>
    if f.type.primitive then .scalar (primitiveCode f.type.type)
    else if f.type.isReference then .named f.type.type
    else .scalar (scalarCode .jsonObject)

/-- **The text of a type** is its expression, with a remark where the node says nothing. -/
theorem fieldType_eq (f : Field) : ∃ remark, fieldType f = (writtenType f).text f.name ++ "," ++ remark
    ∧ (remark = "" ∨ remark = s!" // TODO: Define nested model for {f.name}") := by
  obtain ⟨name, type, scalarType, enumValues, nestedModel⟩ := f
  have hvalues : "])," = "])" ++ "," := by decide
  have hcall : "()," = "()" ++ "," := by decide
  have hobject : "ScalarTypeEnum.JSONObject()," = scalarCode .jsonObject ++ "()" ++ "," := by decide
  have htodo : "ScalarTypeEnum.JSONObject(), // TODO: Define nested model for "
      = scalarCode .jsonObject ++ "()" ++ "," ++ " // TODO: Define nested model for " := by decide
  unfold fieldType writtenType
  cases enumValues with
  | some texts =>
    refine ⟨"", ?_, .inl rfl⟩
    show "new EnumType(" ++ stringLiteral _ ++ ", [" ++ literalList texts ++ "]),"
      = "new EnumType(" ++ stringLiteral _ ++ ", [" ++ literalList texts ++ "])" ++ "," ++ ""
    rw [hvalues, String.append_empty, ← String.append_assoc]
  | none =>
    cases scalarType with
    | some code =>
      refine ⟨"", ?_, .inl rfl⟩
      show code ++ "()," = code ++ "()" ++ "," ++ ""
      rw [hcall, String.append_empty, ← String.append_assoc]
    | none =>
      cases nestedModel with
      | some m => exact ⟨"", (String.append_empty).symm, .inl rfl⟩
      | none =>
        dsimp only
        split
        · refine ⟨"", ?_, .inl rfl⟩
          show primitiveCode type.type ++ "()," = primitiveCode type.type ++ "()" ++ "," ++ ""
          rw [hcall, String.append_empty, ← String.append_assoc]
        · split
          · exact ⟨"", (String.append_empty).symm, .inl rfl⟩
          · split
            · refine ⟨"", ?_, .inl rfl⟩
              rw [String.append_empty]
              exact hobject
            · refine ⟨_, ?_, .inr rfl⟩
              show "ScalarTypeEnum.JSONObject(), // TODO: Define nested model for " ++ name = _
              rw [htodo, String.append_assoc]
              rfl

/-- The line of the type of a field stands in the code of its model. -/
theorem exists_typeLine {symbol : String} {description : Value} {fields : List Field} {m : Model}
    (h : objectModel symbol description fields = .ok m) {f : Field} (hf : f ∈ fields)
    {start : String} (hone : '\n' ∉ start.toList)
    (hstart : start.toList <+: ("      type: " ++ (writtenType f).text f.name ++ ",").toList) :
    ∃ line ∈ linesOf m.code, start.toList <+: line := by
  obtain ⟨remark, htype, -⟩ := fieldType_eq f
  have hmem : ("      type: " ++ fieldType f) ∈ fieldLines f := by simp [fieldLines, toString]
  have hprefix : start.toList <+: ("      type: " ++ fieldType f).toList := by
    rw [htype, ← String.append_assoc, ← String.append_assoc]
    exact prefix_append hstart remark
  obtain ⟨line, hline, hfound⟩ := exists_line_of_prefix hone hprefix
  unfold objectModel at h
  obtain ⟨opening, -, h⟩ := bind_eq_ok.mp h
  obtain ⟨about, -, h⟩ := bind_eq_ok.mp h
  cases h
  refine ⟨line, mem_linesOf_joinLines ?_ hline, hfound⟩
  exact List.mem_append_left _ (List.mem_append_right _ (List.mem_flatMap.mpr ⟨f, hf, hmem⟩))

/-! ## Fields without references -/

variable {v target : Value} {name parent : String} {required : Bool} {f : Field}

theorem scalarFor_isSome {type : String} (h : (Schema.scalarTable.lookup type).isSome = true)
    (format : Value) : (Schema.scalarFor (some type) format).isSome = true := by
  unfold Schema.scalarFor
  dsimp only [bind, Option.bind]
  rw [Option.isSome_or, h, Bool.or_true]

/-- A primitive has a scalar. -/
theorem isSome_scalarType_of_primitive (h : (typeRef v (some name)).primitive = true) :
    (Schema.scalarType v).isSome = true := by
  induction hsize : v.size using Nat.strongRecOn generalizing v with
  | ind n ih =>
    subst hsize
    cases hpointer : Reference.pointer? v with
    | some pointer =>
      rw [typeRef_of_reference hpointer] at h
      cases h
    | none =>
      cases hmap : v.isMap with
      | false =>
        rw [typeRef, hpointer, hmap] at h
        cases h
      | true =>
        have hinline : IsInline v := ⟨hmap, hpointer⟩
        by_cases harray : (Schema.typeOf v).1 = some "array"
        · by_cases hitems : ∃ members, v.get? "items" = some (.map members)
          · obtain ⟨members, hitems⟩ := hitems
            rw [typeRef_of_items hinline harray hitems] at h
            rw [scalarType_of_array hinline harray hitems]
            exact ih _ (Value.size_lt_of_get? hitems) h rfl
          · rw [typeRef_of_no_items hinline harray fun members hget => hitems ⟨members, hget⟩] at h
            cases h
        · rw [typeRef, hpointer, hmap] at h
          dsimp only at h
          rw [if_neg (by decide), if_neg harray] at h
          split at h
          · cases h
          · split at h
            · cases h
            · rename_i hlisted
              rw [scalarType_of_single hinline harray, if_neg hlisted]
              split at h
              · rename_i htype
                rw [htype]
                exact scalarFor_isSome (by decide) _
              · rename_i htype
                rw [htype]
                exact scalarFor_isSome (by decide) _
              · rename_i htype
                rw [htype]
                exact scalarFor_isSome (by decide) _
              · rename_i htype
                rw [htype]
                exact scalarFor_isSome (by decide) _
              · cases h

/-- The type of a field, as it follows from its node. -/
inductive WrittenAs (v : Value) (name parent : String) (f : Field) : Prop where
  | values {values : List Value} (inline : IsInline v)
      (listed : Schema.enumValues v = .ok (some values))
      (written : writtenType f = .values (values.map Value.text))
  | nested {target : Value} {m : Model} (unlisted : (v.field "enum").isTruthy = false)
      (found : nestTarget? v = some target) (nests : Nests target)
      (built : model target (parent ++ Naming.pascalCase name) .null = .ok m)
      (written : writtenType f = .nested m)
  | scalar (unlisted : (v.field "enum").isTruthy = false)
      (single : ∀ target, nestTarget? v = some target → ¬Nests target)
      (written : writtenType f
        = .scalar (scalarCode ((Schema.scalarType v).getD .jsonObject)))

/-- Without values and without a nested model, the type is the scalar if there is one. -/
theorem writtenType_flat (hfree : ∀ pointer, ¬ItemRefers pointer v)
    (field : FlatField v name required f) (hvalues : f.enumValues = none) :
    writtenType f = .scalar (scalarCode ((Schema.scalarType v).getD .jsonObject)) := by
  obtain ⟨description, htype⟩ := field.htype
  unfold writtenType
  rw [hvalues, field.hnested, field.hscalar]
  cases hscalar : Schema.scalarType v with
  | some scalar => rfl
  | none =>
    have hprimitive : f.type.primitive = false := by
      refine Bool.eq_false_iff.mpr fun h => ?_
      rw [htype] at h
      have hsome := isSome_scalarType_of_primitive h
      rw [hscalar] at hsome
      cases hsome
    have hreference : f.type.isReference = false := by
      refine Bool.eq_false_iff.mpr fun h => ?_
      rw [htype] at h
      obtain ⟨pointer, hrefers⟩ := exists_itemRefers h
      exact hfree pointer hrefers
    dsimp only [Option.map_none]
    rw [hprimitive, hreference]
    rfl

/-- **The type of a field without references.** -/
theorem writtenAs (hfree : ∀ pointer, ¬ItemRefers pointer v)
    (h : DeclaredField v name required parent f) : WrittenAs v name parent f := by
  cases h with
  | flat field single =>
    by_cases hinline : IsInline v
    · obtain ⟨values, hvalues, htexts⟩ := field.hinline hinline
      cases values with
      | some values =>
        refine .values hinline hvalues ?_
        unfold writtenType
        rw [htexts]
        rfl
      | none =>
        have hunlisted := (Schema.enumValues_isNone hvalues).mp rfl
        refine .scalar hunlisted (fun target htarget => single target htarget hunlisted) ?_
        exact writtenType_flat hfree field htexts
    · have hvalues := field.hother hinline
      have hunlisted : (v.field "enum").isTruthy = false := by
        cases hpointer : Reference.pointer? v with
        | some pointer => exact absurd (.here hpointer) (hfree pointer)
        | none =>
          have hmap : v.isMap = false := Bool.eq_false_iff.mpr fun hmap => hinline ⟨hmap, hpointer⟩
          rw [Schema.field_of_not_map hmap]
          rfl
      refine .scalar hunlisted (fun target htarget => single target htarget hunlisted) ?_
      exact writtenType_flat hfree field hvalues
  | @nested f target nested field found nests unlisted built =>
    refine .nested unlisted found nests built ?_
    have hvalues := (field.enumValues_eq_none_iff (isInline_of_nestTarget? found)).mpr unlisted
    have hscalar : f.scalarType = none := by
      rw [field.hscalar, scalarType_of_nests found nests]
      rfl
    unfold writtenType withNested
    dsimp only
    rw [hvalues, hscalar]

end ApiContract.Codegen.Declaration
