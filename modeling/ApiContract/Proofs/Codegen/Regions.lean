import ApiContract.Proofs.Codegen.Comments
import ApiContract.Proofs.Codegen.Generator
import ApiContract.Proofs.Codegen.GraphQl

/-!
# Regions of generated code that hold text of a document

Besides comments, a type definition of the GraphQL dialect is held in a template literal, and a
validator may have the pattern of a schema as a regular expression literal. Of the first only the
backquotes are escaped, of the second nothing. So each region ends where it should, with the text it
was meant to hold, exactly for the texts that mean nothing else there.

* **`keepsTemplate_typeDefinition`** — what a definition takes over of the document are the
  description and the names of the properties.
* **`pattern_of_written`** — the pattern of any node that a validator is written out with.
* **`regions_close_iff`** — the headline, over the regions of all dialects and of operation files.
-/

namespace ApiContract.Codegen

open Script
open Text (pair_infix_separated)

variable {schema given description : Value} {name symbol : String} {code : GeneratedCode}

namespace GraphQl

/-! ## Definitions in template literals -/

/-- None of the characters that mean something in a template literal. -/
def Harmless (text : List Char) : Prop := ∀ c ∈ text, c ∉ ['\\', '\r', '$', '\x7b']

instance (text : List Char) : Decidable (Harmless text) :=
  decidable_of_iff (text.all (fun c => c ∉ ['\\', '\r', '$', '\x7b']) = true)
    (by simp only [List.all_eq_true, decide_eq_true_eq, Harmless])

theorem Harmless.append {xs ys : List Char} (hxs : Harmless xs) (hys : Harmless ys) :
    Harmless (xs ++ ys) := List.forall_mem_append.mpr ⟨hxs, hys⟩

/-- A character without a meaning of its own keeps what stands before it from what stands after. -/
theorem keepsTemplate_separated {c : Char} (hc : c ∉ ['\\', '\r', '$', '\x7b'])
    (xs ys : List Char) :
    KeepsTemplate (xs ++ c :: ys) ↔ KeepsTemplate xs ∧ KeepsTemplate ys := by
  simp only [List.mem_cons, List.not_mem_nil, or_false, not_or] at hc
  obtain ⟨hback, hreturn, hdollar, hopen⟩ := hc
  unfold KeepsTemplate
  rw [pair_infix_separated (Ne.symm hdollar) (Ne.symm hopen)]
  simp only [List.mem_append, List.mem_cons, not_or, Ne.symm hback, Ne.symm hreturn,
    not_false_eq_true, true_and]
  tauto

theorem keepsTemplate_of_harmless {text : List Char} (h : Harmless text) : KeepsTemplate text := by
  refine ⟨fun hmem => h _ hmem (by simp), fun hmem => h _ hmem (by simp), fun hpair => ?_⟩
  exact h '$' (hpair.subset List.mem_cons_self) (by simp)

theorem keepsTemplate_harmless_append {xs ys : List Char} (h : Harmless xs) :
    KeepsTemplate (xs ++ ys) ↔ KeepsTemplate ys := by
  induction xs with
  | nil => rfl
  | cons c xs ih =>
    obtain ⟨hc, hxs⟩ := List.forall_mem_cons.mp h
    have hnil : KeepsTemplate [] := by decide
    have hstep := keepsTemplate_separated hc [] (xs ++ ys)
    rw [List.nil_append] at hstep
    rw [List.cons_append, hstep, and_iff_right hnil, ih hxs]

theorem keepsTemplate_append_harmless {xs ys : List Char} (h : Harmless ys) :
    KeepsTemplate (xs ++ ys) ↔ KeepsTemplate xs := by
  cases ys with
  | nil => rw [List.append_nil]
  | cons c ys =>
    obtain ⟨hc, hys⟩ := List.forall_mem_cons.mp h
    rw [keepsTemplate_separated hc, and_iff_left (keepsTemplate_of_harmless hys)]

theorem keepsTemplate_joinLines {ls : List String} :
    KeepsTemplate (joinLines ls).toList ↔ ∀ line ∈ ls, KeepsTemplate line.toList := by
  induction ls with
  | nil => exact iff_of_true (by decide) (by simp)
  | cons line rest ih =>
    cases rest with
    | nil =>
      rw [List.forall_mem_singleton]
      rfl
    | cons next more =>
      rw [joinLines_cons (List.cons_ne_nil next more), keepsTemplate_separated (by decide) _ _, ih]
      exact ⟨fun h => List.forall_mem_cons.mpr h, fun h => List.forall_mem_cons.mp h⟩

theorem harmless_modelName (name : String) : Harmless (Naming.modelName name).toList := by
  have hplain : ['\\', '\r', '$', '\x7b'].all (fun c => !c.isAlphanum && c != '_') = true := by
    decide
  intro c hc hmem
  have hc' := List.all_eq_true.mp hplain c hmem
  simp only [Bool.and_eq_true, Bool.not_eq_true', bne_iff_ne] at hc'
  exact Naming.notMem_modelName hc'.1 hc'.2 name hc

theorem mem_of_lookup {table : List (String × String)} {key found : String}
    (h : table.lookup key = some found) : (key, found) ∈ table := by
  induction table with
  | nil => cases h
  | cons entry rest ih =>
    obtain ⟨k, v⟩ := entry
    rw [List.lookup_cons] at h
    split at h
    · next heq =>
      cases h
      rw [beq_iff_eq.mp heq]
      exact List.mem_cons_self
    · exact List.mem_cons_of_mem _ (ih h)

/-- A format has a name from the table. -/
theorem entry_of_lookupFormat {table : List (String × String)} {format : Value} {found : String}
    (h : Zod.lookupFormat table format = .ok (some found)) : ∃ entry ∈ table, entry.2 = found := by
  unfold Zod.lookupFormat at h
  split at h
  · exact ⟨_, mem_of_lookup (Except.ok.inj h), rfl⟩
  · cases h
  · cases h

/-- The letters of a symbol or a table, and brackets. -/
def IsTypeName (text : List Char) : Prop := ∀ c ∈ text, c.isAlphanum = true ∨ c ∈ ['[', ']']

instance (text : List Char) : Decidable (IsTypeName text) :=
  decidable_of_iff (text.all (fun c => c.isAlphanum || c ∈ ['[', ']']) = true)
    (by simp only [List.all_eq_true, Bool.or_eq_true, decide_eq_true_eq, IsTypeName])

theorem IsTypeName.notMem {text : List Char} (h : IsTypeName text) {c : Char}
    (hplain : c.isAlphanum = false) (hother : c ∉ ['[', ']']) : c ∉ text := by
  intro hc
  rcases h c hc with halphanum | hbracket
  · rw [hplain] at halphanum
    cases halphanum
  · exact hother hbracket

theorem isTypeName_scalarName (h : scalarName schema = .ok name) : IsTypeName name.toList := by
  have htables : ∀ entry ∈ formats ++ types, IsTypeName entry.2.toList := by decide
  unfold scalarName at h
  obtain ⟨found, hfound, h⟩ := bind_eq_ok.mp h
  cases found with
  | some found =>
    cases h
    obtain ⟨entry, hentry, rfl⟩ := entry_of_lookupFormat hfound
    exact htables entry (List.mem_append_left _ hentry)
  | none =>
    rw [← pure_eq_ok.mp h]
    cases htype : (Schema.typeOf schema).1.bind fun t => types.lookup t with
    | none => decide
    | some found =>
      obtain ⟨type, -, hlookup⟩ := Option.bind_eq_some_iff.mp htype
      exact htables _ (List.mem_append_right _ (mem_of_lookup hlookup))

/-- **Names of types** are made of the letters of a symbol or a table, and of brackets. -/
theorem isTypeName_typeName {schema : Value} {name : String} (h : typeName schema = .ok name) :
    IsTypeName name.toList := by
  cases hpointer : Reference.pointer? schema with
  | some pointer =>
    rw [typeName_of_reference hpointer] at h
    rw [← Except.ok.inj h]
    exact fun c hc => .inl (Naming.isAlphanum_of_mem_pascalCase hc)
  | none =>
    by_cases hlist : (Schema.typeOf schema).1 = some "array"
        ∧ ∃ items, schema.get? "items" = some (.map items)
    · obtain ⟨harray, items, hitems⟩ := hlist
      rw [typeName_of_items hpointer harray hitems] at h
      obtain ⟨inner, hinner, h⟩ := bind_eq_ok.mp h
      have hbrackets : IsTypeName "[".toList ∧ IsTypeName "]".toList := by decide
      rw [← pure_eq_ok.mp h, String.toList_append, String.toList_append]
      exact List.forall_mem_append.mpr
        ⟨List.forall_mem_append.mpr ⟨hbrackets.1, isTypeName_typeName hinner⟩, hbrackets.2⟩
    · rw [typeName_of_single hpointer fun harray items hitems => hlist ⟨harray, items, hitems⟩] at h
      exact isTypeName_scalarName h
termination_by schema.size
decreasing_by exact Value.size_lt_of_get? (by assumption)

theorem harmless_typeName (h : typeName schema = .ok name) : Harmless name.toList := by
  have hplain : ['\\', '\r', '$', '\x7b'].all
      (fun c => !c.isAlphanum && c != '[' && c != ']') = true := by decide
  intro c hc hmem
  have hc' := List.all_eq_true.mp hplain c hmem
  simp only [Bool.and_eq_true, Bool.not_eq_true', bne_iff_ne] at hc'
  exact (isTypeName_typeName h).notMem hc'.1.1 (by simp [hc'.1.2, hc'.2]) hc

theorem keepsTemplate_propertyLine {required : List Scalar} {property : Scalar × Value}
    {line : String} (h : propertyLine required property = .ok line) :
    KeepsTemplate line.toList ↔ KeepsTemplate property.1.text.toList := by
  unfold propertyLine at h
  obtain ⟨name, hname, h⟩ := bind_eq_ok.mp h
  have hmark : Harmless (if Schema.isRequired required property.1 then "!" else "").toList := by
    split <;> decide
  have hindent : Harmless "  ".toList := by decide
  have hcolon : Harmless ": ".toList := by decide
  rw [← pure_eq_ok.mp h]
  simp only [toString, String.toList_append]
  rw [keepsTemplate_append_harmless hmark,
    keepsTemplate_append_harmless (harmless_typeName hname),
    keepsTemplate_append_harmless hcolon, keepsTemplate_harmless_append hindent]

/-- Every item of a list of computations has its result among the results. -/
theorem exists_of_mapM_eq_ok {α β : Type} {f : α → Except Failure β} {xs : List α} {ys : List β}
    (h : xs.mapM f = .ok ys) {x : α} (hx : x ∈ xs) : ∃ y ∈ ys, f x = .ok y := by
  have hmem : f x ∈ xs.map f := List.mem_map_of_mem hx
  rw [mapM_eq_ok.mp h] at hmem
  obtain ⟨y, hy, hread⟩ := List.mem_map.mp hmem
  exact ⟨y, hy, hread.symm⟩

/-- **What a definition takes over of the document**: the description and the names of the
properties. The rest of it means nothing in a template literal. -/
theorem keepsTemplate_typeDefinition {lines : List String} (hsymbol : Harmless symbol.toList)
    (h : typeDefinition symbol schema description = .ok lines) :
    KeepsTemplate (joinLines lines).toList
      ↔ (∀ d ∈ descriptionText description, KeepsTemplate d.toList)
        ∧ ∀ property ∈ (Schema.properties? schema).getD [],
          KeepsTemplate property.1.text.toList := by
  unfold typeDefinition at h
  obtain ⟨required, -, h⟩ := bind_eq_ok.mp h
  obtain ⟨properties, hproperties, h⟩ := bind_eq_ok.mp h
  have hquotes : Harmless "\"\"\"".toList := by decide
  have hstart : KeepsTemplate ("type " ++ symbol ++ " \x7b").toList := by
    have htype : Harmless "type ".toList := by decide
    have hopen : KeepsTemplate " \x7b".toList := by decide
    rw [String.toList_append, String.toList_append,
      keepsTemplate_harmless_append (htype.append hsymbol)]
    exact hopen
  have hend : KeepsTemplate "\x7d".toList := by decide
  have habout : (∀ line ∈ (descriptionText description).map fun d => "\"\"\"" ++ d ++ "\"\"\"",
      KeepsTemplate line.toList) ↔ ∀ d ∈ descriptionText description, KeepsTemplate d.toList := by
    rw [List.forall_mem_map]
    refine forall₂_congr fun d _ => ?_
    rw [String.toList_append, String.toList_append, keepsTemplate_append_harmless hquotes,
      keepsTemplate_harmless_append hquotes]
  have hnames : (∀ line ∈ properties, KeepsTemplate line.toList)
      ↔ ∀ property ∈ (Schema.properties? schema).getD [],
        KeepsTemplate property.1.text.toList := by
    constructor
    · intro hall property hproperty
      obtain ⟨line, hline, hread⟩ := exists_of_mapM_eq_ok hproperties hproperty
      exact (keepsTemplate_propertyLine hread).mp (hall line hline)
    · intro hall line hline
      obtain ⟨property, hproperty, hread⟩ := mem_of_mapM_eq_ok hproperties hline
      exact (keepsTemplate_propertyLine hread).mpr (hall property hproperty)
  rw [← pure_eq_ok.mp h, keepsTemplate_joinLines, List.forall_mem_append, List.forall_mem_append,
    List.forall_mem_append, List.forall_mem_singleton, List.forall_mem_singleton, habout, hnames,
    and_iff_left hstart, and_iff_left hend]

/-! ## The template literal of a model -/

/-- A model holds its definition in a template literal. -/
theorem template_of_generateModel (h : generateModel schema name given = .ok code) :
    ∃ definition, typeDefinition (Naming.modelName name) schema (chooseDescription given schema)
        = .ok definition
      ∧ ∃ before after, code.code.toList
        = before ++ ("export const " ++ Naming.modelName name ++ "TypeDef = ").toList
          ++ '\x60' :: (templateChars (joinLines definition).toList ++ '\x60' :: after) := by
  unfold generateModel at h
  obtain ⟨definition, hdefinition, h⟩ := bind_eq_ok.mp h
  refine ⟨definition, hdefinition, ?_⟩
  have hline : (s!"export const {Naming.modelName name}TypeDef = \x60"
      ++ templateText (joinLines definition) ++ "\x60;").toList <:+: code.code.toList := by
    rw [← pure_eq_ok.mp h]
    exact infix_joinLines_of_mem (List.mem_append_right _ List.mem_cons_self)
  obtain ⟨before, after, hcode⟩ := hline
  refine ⟨before, ';' :: after, ?_⟩
  rw [← hcode, String.toList_append, String.toList_append, toList_templateText]
  simp [toString, String.toList_append]

end GraphQl

namespace Zod

/-! ## Patterns of validators -/

/-- The expression of a node is written out with that of an inner node: a property of an object, the
items of a list, and so on inwards. -/
inductive WrittenWith (node : Value) : Value → Prop where
  | self : WrittenWith node node
  | property {schema inner : Value} {properties : Members} {key : Scalar}
      (other : Reference.pointer? schema = none)
      (found : inlineProperties? schema = some properties) (member : (key, inner) ∈ properties)
      (written : WrittenWith node inner) : WrittenWith node schema
  | item {schema : Value} {items : Members} (other : Reference.pointer? schema = none)
      (single : inlineProperties? schema = none) (unlisted : (schema.field "enum").isTruthy = false)
      (array : (Schema.typeOf schema).1 = some "array")
      (found : schema.get? "items" = some (.map items))
      (written : WrittenWith node (.map items)) : WrittenWith node schema

/-- The nodes that a model begins with: the properties of an object, whatever its type, or else the
schema itself where it says something. -/
inductive Root (schema : Value) : Value → Prop where
  | property {inner : Value} {properties : Members} {key : Scalar}
      (found : Schema.properties? schema = some properties) (member : (key, inner) ∈ properties) :
      Root schema inner
  | whole (absent : Schema.properties? schema = none) (map : schema.isMap = true)
      (typed : (schema.field "type").isTruthy = true) : Root schema schema

theorem infix_completed {schema : Value} {required : Bool} {base e : Expression}
    (h : completed schema required base = .ok e) : base.code.toList <:+: e.code.toList := by
  unfold completed at h
  obtain ⟨default, -, h⟩ := bind_eq_ok.mp h
  rw [← pure_eq_ok.mp h]
  dsimp only
  rw [String.toList_append, String.toList_append, String.toList_append, List.append_assoc,
    List.append_assoc]
  exact (List.prefix_append _ _).isInfix

theorem infix_of_mem_memberExpressions {required : List Scalar} {properties : Members}
    {es : List Expression} {key : Scalar} {inner : Value}
    (h : memberExpressions required properties = .ok es) (hmem : (key, inner) ∈ properties) :
    ∃ isRequired e, expression inner isRequired = .ok e
      ∧ e.code.toList <:+: (objectOf es).code.toList := by
  -- the line of the property is one of the lines of the object
  have hline : ∃ isRequired e, expression inner isRequired = .ok e
      ∧ ∃ line ∈ es, e.code.toList <:+: line.code.toList := by
    induction properties generalizing es with
    | nil => cases hmem
    | cons property rest ih =>
      obtain ⟨k, v⟩ := property
      rw [memberExpressions] at h
      obtain ⟨value, hvalue, h⟩ := bind_eq_ok.mp h
      obtain ⟨others, hothers, h⟩ := bind_eq_ok.mp h
      rw [← pure_eq_ok.mp h]
      rcases List.mem_cons.mp hmem with heq | hmem
      · cases heq
        refine ⟨_, value, hvalue, _, List.mem_cons_self, ?_⟩
        dsimp only
        rw [String.toList_append, String.toList_append]
        exact (List.suffix_append _ _).isInfix.trans (List.prefix_append _ _).isInfix
      · obtain ⟨isRequired, e, he, line, hline, hcode⟩ := ih hothers hmem
        exact ⟨isRequired, e, he, line, List.mem_cons_of_mem _ hline, hcode⟩
  obtain ⟨isRequired, e, he, line, hline, hcode⟩ := hline
  refine ⟨isRequired, e, he, hcode.trans (infix_joinLines_of_mem ?_)⟩
  exact List.mem_append_left _ (List.mem_append_right _ (List.mem_map_of_mem hline))

/-- **Inner nodes are written out** within the expression of the whole. -/
theorem expression_of_written {node schema : Value} (hwritten : WrittenWith node schema)
    {required : Bool} {e : Expression} (h : expression schema required = .ok e) :
    ∃ isRequired e', expression node isRequired = .ok e' ∧ e'.code.toList <:+: e.code.toList := by
  induction hwritten generalizing required e with
  | self => exact ⟨required, e, h, List.infix_rfl⟩
  | property other found member _ ih =>
    rw [expression_of_properties other found] at h
    obtain ⟨keys, -, h⟩ := bind_eq_ok.mp h
    obtain ⟨es, hes, h⟩ := bind_eq_ok.mp h
    obtain ⟨isRequired, inner, hinner, hcode⟩ := infix_of_mem_memberExpressions hes member
    obtain ⟨isRequired', e', he', hcode'⟩ := ih hinner
    exact ⟨isRequired', e', he', hcode'.trans (hcode.trans (infix_completed h))⟩
  | item other single unlisted array found _ ih =>
    rw [expression_of_no_properties other single] at h
    obtain ⟨values, hvalues, h⟩ := bind_eq_ok.mp h
    rw [(Schema.enumValues_isNone hvalues).mpr unlisted] at h
    dsimp only at h
    rw [if_pos array, found] at h
    obtain ⟨inner, hinner, h⟩ := bind_eq_ok.mp h
    obtain ⟨isRequired, e', he', hcode⟩ := ih hinner
    refine ⟨isRequired, e', he', hcode.trans (List.IsInfix.trans ?_ (infix_completed h))⟩
    dsimp only [toString]
    rw [String.toList_append, String.toList_append]
    exact (List.suffix_append _ _).isInfix.trans (List.prefix_append _ _).isInfix

/-- Whatever an inline node is based on, its constraints follow. -/
theorem exists_completed {required : Bool} {e : Expression}
    (hpointer : Reference.pointer? schema = none) (h : expression schema required = .ok e) :
    ∃ base, completed schema required base = .ok e := by
  cases hproperties : inlineProperties? schema with
  | some properties =>
    rw [expression_of_properties hpointer hproperties] at h
    obtain ⟨keys, -, h⟩ := bind_eq_ok.mp h
    obtain ⟨es, -, h⟩ := bind_eq_ok.mp h
    exact ⟨_, h⟩
  | none =>
    rw [expression_of_no_properties hpointer hproperties] at h
    obtain ⟨values, -, h⟩ := bind_eq_ok.mp h
    split at h
    · exact ⟨_, h⟩
    split at h
    · split at h
      · obtain ⟨item, -, h⟩ := bind_eq_ok.mp h
        exact ⟨_, h⟩
      · exact ⟨_, h⟩
    · obtain ⟨scalar, -, h⟩ := bind_eq_ok.mp h
      exact ⟨_, h⟩

theorem infix_constraints {pattern : Value} (h : schema.get? "pattern" = some pattern) :
    (".regex(/" ++ pattern.text ++ "/)").toList <:+: (constraints schema (some "string")).toList := by
  have hconstraints : constraints schema (some "string")
      = String.join (bound schema "min" "minLength" ++ bound schema "max" "maxLength" ++
        [".regex(/" ++ pattern.text ++ "/)"]) := by
    simp only [constraints, h]
  rw [hconstraints, String.toList_join, List.flatMap_append, List.flatMap_singleton]
  exact (List.suffix_append _ _).isInfix

/-- The pattern of a node that takes texts stands in its expression. -/
theorem pattern_of_expression {required : Bool} {e : Expression} {pattern : Value}
    (hpointer : Reference.pointer? schema = none)
    (htype : (Schema.typeOf schema).1 = some "string")
    (hpattern : schema.get? "pattern" = some pattern) (h : expression schema required = .ok e) :
    (".regex(/" ++ pattern.text ++ "/)").toList <:+: e.code.toList := by
  obtain ⟨base, hbase⟩ := exists_completed hpointer h
  unfold completed at hbase
  obtain ⟨default, -, hbase⟩ := bind_eq_ok.mp hbase
  rw [← pure_eq_ok.mp hbase]
  show _ <:+: (base.code ++ constraints schema (Schema.typeOf schema).1 ++ default ++ _).toList
  refine (infix_constraints hpattern).trans ?_
  rw [htype, String.toList_append, String.toList_append, String.toList_append]
  exact (List.suffix_append _ _).isInfix.trans
    ((List.prefix_append _ _).isInfix.trans (List.prefix_append _ _).isInfix)

/-- **Every node that a model begins with or goes on to** is written out within its code. -/
theorem expression_of_generateModel {conventions : Conventions} {root node : Value}
    (h : generateModel conventions schema name given = .ok code) (hroot : Root schema root)
    (hwritten : WrittenWith node root) :
    ∃ isRequired e, expression node isRequired = .ok e ∧ e.code.toList <:+: code.code.toList := by
  unfold generateModel at h
  obtain ⟨body, hbody, h⟩ := bind_eq_ok.mp h
  obtain ⟨literal, -, h⟩ := bind_eq_ok.mp h
  have hcode : body.code.toList <:+: code.code.toList := by
    rw [← pure_eq_ok.mp h]
    refine List.IsInfix.trans ?_ (infix_joinLines_of_mem (List.mem_append_right _ List.mem_cons_self))
    dsimp only [toString]
    rw [String.toList_append, String.toList_append]
    exact (List.suffix_append _ _).isInfix.trans (List.prefix_append _ _).isInfix
  unfold modelExpression at hbody
  cases hroot with
  | property found member =>
    rw [found] at hbody
    obtain ⟨keys, -, hbody⟩ := bind_eq_ok.mp hbody
    obtain ⟨es, hes, hbody⟩ := bind_eq_ok.mp hbody
    rw [← pure_eq_ok.mp hbody] at hcode
    obtain ⟨isRequired, inner, hinner, hpart⟩ := infix_of_mem_memberExpressions hes member
    obtain ⟨isRequired', e, he, hinfix⟩ := expression_of_written hwritten hinner
    exact ⟨isRequired', e, he, hinfix.trans (hpart.trans hcode)⟩
  | whole absent map typed =>
    rw [absent] at hbody
    dsimp only at hbody
    rw [if_pos (by simp [map, typed])] at hbody
    obtain ⟨isRequired, e, he, hinfix⟩ := expression_of_written hwritten hbody
    exact ⟨isRequired, e, he, hinfix.trans hcode⟩

/-- **The pattern of every node that a validator is written out with** stands in its code. -/
theorem pattern_of_written {conventions : Conventions} {root node pattern : Value}
    (h : generateModel conventions schema name given = .ok code) (hroot : Root schema root)
    (hwritten : WrittenWith node root) (hpointer : Reference.pointer? node = none)
    (htype : (Schema.typeOf node).1 = some "string")
    (hpattern : node.get? "pattern" = some pattern) :
    (".regex(/" ++ pattern.text ++ "/)").toList <:+: code.code.toList := by
  obtain ⟨isRequired, e, he, hcode⟩ := expression_of_generateModel h hroot hwritten
  exact (pattern_of_expression hpointer htype hpattern he).trans hcode

end Zod

/-! ## All regions -/

/-- **Regions close where they should**, exactly for texts that mean nothing else in them.

The comment of an operation file, and the header of a model in any dialect, nested or not, end at
their own ends if and only if what the document gives for them holds no end of a comment. The
template literal of a GraphQL definition ends at its own backquote and stands for the definition if
and only if neither the description nor the name of a property has a backslash, a carriage return or
the opening of a substitution. The regular expression literal of a pattern ends at its own slash with
the pattern as its body if and only if the grammar takes the pattern for one. -/
theorem regions_close_iff (operation : OpenApi.Operation) (dialect : Dialect)
    (conventions : Conventions) (schema : Value) (name : String) (given : Value) :
    (∀ options identity input output, ∃ before after,
      (Import.specFile operation options identity input output).toList
          = before ++ (joinLines (Import.specComment operation)).toList ++ after
        ∧ (comment? ((joinLines (Import.specComment operation)).toList ++ after) = some after
          ↔ KeepsComment (Import.titleOf operation).toList
            ∧ (∀ d ∈ operation.description, KeepsComment d.toList)
            ∧ KeepsComment operation.path.toList))
    ∧ (∀ code front back, dialect.generateModel conventions schema name given = .ok code →
      frame? dialect schema (Naming.modelName name) (chooseDescription given schema)
        = some (front, back) →
      ∃ rest, code.code.toList
          = header front (headerText dialect (chooseDescription given schema)) back ++ rest
        ∧ (comment? code.code.toList = some rest
          ↔ ∀ d ∈ headerText dialect (chooseDescription given schema), KeepsComment d.toList))
    ∧ (∀ m k, Declaration.model schema name given = .ok m → Declaration.Within k m →
      k.code.toList <:+: m.code.toList ∧ ∃ node name' given',
        Declaration.model node name' given' = .ok k ∧ ∀ front back,
          Declaration.frame? node (Naming.modelName name') = some (front, back) →
          ∃ rest, k.code.toList
              = header front (descriptionText (chooseDescription given' node)) back ++ rest
            ∧ (comment? k.code.toList = some rest
              ↔ ∀ d ∈ descriptionText (chooseDescription given' node), KeepsComment d.toList))
    ∧ (∀ code, GraphQl.generateModel schema name given = .ok code →
      ∃ definition before after,
        GraphQl.typeDefinition (Naming.modelName name) schema (chooseDescription given schema)
            = .ok definition
          ∧ code.code.toList
            = before ++ ("export const " ++ Naming.modelName name ++ "TypeDef = ").toList
              ++ '\x60' :: (templateChars (joinLines definition).toList ++ '\x60' :: after)
          ∧ (readTemplate (templateChars (joinLines definition).toList ++ '\x60' :: after)
              = some (unitsOf (joinLines definition).toList, after)
            ↔ (∀ d ∈ descriptionText (chooseDescription given schema), KeepsTemplate d.toList)
              ∧ ∀ property ∈ (Schema.properties? schema).getD [],
                KeepsTemplate property.1.text.toList))
    ∧ (∀ code root node pattern, Zod.generateModel conventions schema name given = .ok code →
      Zod.Root schema root → Zod.WrittenWith node root → Reference.pointer? node = none →
      (Schema.typeOf node).1 = some "string" → node.get? "pattern" = some pattern →
      ∃ before after, code.code.toList
          = before ++ ".regex(/".toList ++ (pattern.text.toList ++ '/' :: ')' :: after)
        ∧ (readPattern (pattern.text.toList ++ '/' :: ')' :: after)
            = some (pattern.text.toList, ')' :: after) ↔ IsPattern pattern.text.toList)) := by
  refine ⟨comment?_specFile operation, ?_, ?_, ?_, ?_⟩
  · intro code front back h hframe
    obtain ⟨rest, hcode⟩ := header_of_generateModel h hframe
    have hlines := keepsComment_frame (keepsComment_modelName name) hframe
    refine ⟨rest, hcode.symm, ?_⟩
    rw [← hcode, comment?_header hlines]
  · intro m k h hk
    obtain ⟨hpart, node, name', given', hmodel⟩ := Declaration.model_of_within h hk
    refine ⟨hpart, node, name', given', hmodel, fun front back hframe => ?_⟩
    obtain ⟨rest, hcode⟩ := Declaration.header_of_model hmodel hframe
    have hlines := keepsComment_declarationFrame (keepsComment_modelName name') hframe
    refine ⟨rest, hcode.symm, ?_⟩
    rw [← hcode, comment?_header hlines]
  · intro code h
    obtain ⟨definition, hdefinition, before, after, hcode⟩ := GraphQl.template_of_generateModel h
    refine ⟨definition, before, after, hdefinition, hcode, ?_⟩
    rw [readTemplate_iff,
      GraphQl.keepsTemplate_typeDefinition (GraphQl.harmless_modelName name) hdefinition]
  · intro code root node pattern h hroot hwritten hpointer htype hpattern
    obtain ⟨before, after, hcode⟩ :=
      Zod.pattern_of_written h hroot hwritten hpointer htype hpattern
    refine ⟨before, after, ?_, readPattern_iff⟩
    rw [← hcode]
    simp [String.toList_append]

/-- A text with a description and a pattern. -/
def slugSchema (about pattern : String) : Value :=
  .map [(.str "type", .str "string"), (.str "description", .str about),
    (.str "pattern", .str pattern)]

theorem root_slugSchema (about pattern : String) :
    Zod.Root (slugSchema about pattern) (slugSchema about pattern) := .whole rfl rfl rfl

theorem succeeds_zod (about pattern : String) :
    ∃ code, Zod.generateModel {} (slugSchema about pattern) "Slug" .null = .ok code := by
  have hexpression : ∃ e, Zod.expression (slugSchema about pattern) true = .ok e := by
    rw [Zod.expression]
    exact ⟨_, rfl⟩
  obtain ⟨e, he⟩ := hexpression
  exact ⟨_, bind_eq_ok.mpr ⟨e, he, rfl⟩⟩

/-- An operation at a path. -/
def rawOperation (path : String) : OpenApi.Operation where
  id := "rawFile"
  method := .get
  path
  summary := none
  description := none
  tags := []
  pathParams := []
  queryParams := []
  headerParams := []
  cookieParams := []
  requestBody := none
  responses := []
  deprecated := false
  security := none
  identity := none

/-- An operation and a schema whose regions all close: the comment with the path of the operation, the
header of the declaration, the template literal of the definition and the literal of the pattern,
which has a slash inside of a class. -/
theorem regions_close_of_slug :
    (∀ options identity input output, ∃ after,
      comment? ((joinLines (Import.specComment (rawOperation "/files/raw"))).toList ++ after)
          = some after
        ∧ (joinLines (Import.specComment (rawOperation "/files/raw"))).toList ++ after
          <:+ (Import.specFile (rawOperation "/files/raw") options identity input output).toList)
    ∧ (∃ code rest, Declaration.generateModel {} (slugSchema "A slug" "[a-z/]+") "Slug" .null = .ok code
      ∧ comment? code.code.toList = some rest)
    ∧ (∃ code definition after,
      GraphQl.generateModel (slugSchema "A slug" "[a-z/]+") "Slug" .null = .ok code
        ∧ readTemplate (templateChars (joinLines definition).toList ++ '\x60' :: after)
          = some (unitsOf (joinLines definition).toList, after))
    ∧ (∃ code after, Zod.generateModel {} (slugSchema "A slug" "[a-z/]+") "Slug" .null = .ok code
      ∧ readPattern ("[a-z/]+".toList ++ '/' :: ')' :: after)
        = some ("[a-z/]+".toList, ')' :: after)) := by
  obtain ⟨hoperation, hheader, -, htemplate, hpattern⟩ := regions_close_iff
    (rawOperation "/files/raw") .declaration {} (slugSchema "A slug" "[a-z/]+") "Slug" .null
  refine ⟨fun options identity input output => ?_, ?_, ?_, ?_⟩
  · obtain ⟨before, after, hfile, hcomment⟩ := hoperation options identity input output
    refine ⟨after, hcomment.mpr (by decide), before, ?_⟩
    rw [hfile, List.append_assoc]
  · have hmodel : ∃ m, Declaration.model (slugSchema "A slug" "[a-z/]+") "Slug" .null = .ok m := by
      rw [Declaration.model]
      exact ⟨_, rfl⟩
    obtain ⟨m, hm⟩ := hmodel
    obtain ⟨rest, -, hcomment⟩ := hheader ⟨_, _, _, _⟩ ["Type alias: Slug"]
      ["Underlying type: ScalarTypeEnum.String_unsecure"] (bind_eq_ok.mpr ⟨m, hm, rfl⟩) rfl
    exact ⟨_, rest, bind_eq_ok.mpr ⟨m, hm, rfl⟩, hcomment.mpr (by decide)⟩
  · obtain ⟨definition, _, after, -, -, hdefinition⟩ := htemplate _ rfl
    have hproperties : Schema.properties? (slugSchema "A slug" "[a-z/]+") = none := rfl
    have hnames : ∀ property ∈ (Schema.properties? (slugSchema "A slug" "[a-z/]+")).getD [],
        KeepsTemplate property.1.text.toList := by
      rw [hproperties]
      simp
    exact ⟨_, definition, after, rfl, hdefinition.mpr ⟨by decide, hnames⟩⟩
  · obtain ⟨code, hcode⟩ := succeeds_zod "A slug" "[a-z/]+"
    obtain ⟨_, after, -, hliteral⟩ := hpattern code _ _ (.str "[a-z/]+") hcode
      (root_slugSchema _ _) .self rfl rfl rfl
    exact ⟨code, after, hcode, hliteral.mpr (by decide)⟩

/-- **Regions that do not close**: a comment with the path of an operation, a definition with a
backslash in its description, and a pattern with a slash. -/
theorem regions_open_of_text :
    (∀ options identity input output, ∃ before after,
      (Import.specFile (rawOperation "/files/*/raw") options identity input output).toList
          = before ++ (joinLines (Import.specComment (rawOperation "/files/*/raw"))).toList ++ after
        ∧ comment? ((joinLines (Import.specComment (rawOperation "/files/*/raw"))).toList ++ after)
          ≠ some after)
    ∧ (∃ code definition before after,
      GraphQl.generateModel (slugSchema "As in C:\\new" "^a/b$") "Slug" .null = .ok code
        ∧ GraphQl.typeDefinition "Slug" (slugSchema "As in C:\\new" "^a/b$") (.str "As in C:\\new")
          = .ok definition
        ∧ code.code.toList = before ++ "export const SlugTypeDef = ".toList
          ++ '\x60' :: (templateChars (joinLines definition).toList ++ '\x60' :: after)
        ∧ readTemplate (templateChars (joinLines definition).toList ++ '\x60' :: after)
          ≠ some (unitsOf (joinLines definition).toList, after))
    ∧ (∃ code before after,
      Zod.generateModel {} (slugSchema "As in C:\\new" "^a/b$") "Slug" .null = .ok code
        ∧ code.code.toList = before ++ (".regex(/" ++ "^a/b$" ++ "/)").toList ++ after
        ∧ readPattern ("^a/b$".toList ++ '/' :: ')' :: after)
          ≠ some ("^a/b$".toList, ')' :: after)) := by
  refine ⟨fun options identity input output => ?_, ?_, ?_⟩
  · obtain ⟨before, after, hfile, hiff⟩ :=
      comment?_specFile (rawOperation "/files/*/raw") options identity input output
    exact ⟨before, after, hfile, fun h => absurd (hiff.mp h).2.2 (by decide)⟩
  · have hgenerated : ∃ code,
        GraphQl.generateModel (slugSchema "As in C:\\new" "^a/b$") "Slug" .null = .ok code := ⟨_, rfl⟩
    obtain ⟨code, hgenerated⟩ := hgenerated
    obtain ⟨definition, hdefinition, before, after, hcode⟩ :=
      GraphQl.template_of_generateModel hgenerated
    have hsymbol : Naming.modelName "Slug" = "Slug" := by decide +kernel
    rw [hsymbol] at hdefinition hcode
    refine ⟨code, definition, before, after, hgenerated, hdefinition, hcode, fun h => ?_⟩
    have hkeeps := (GraphQl.keepsTemplate_typeDefinition (by decide) hdefinition).mp
      (readTemplate_iff.mp h)
    exact absurd (hkeeps.1 "As in C:\\new" List.mem_cons_self) (by decide)
  · obtain ⟨code, hcode⟩ := succeeds_zod "As in C:\\new" "^a/b$"
    obtain ⟨before, after, hpart⟩ :=
      Zod.pattern_of_written hcode (root_slugSchema _ _) .self rfl rfl rfl
    exact ⟨code, before, after, hcode, hpart.symm, fun h => absurd (readPattern_iff.mp h) (by decide)⟩

end ApiContract.Codegen
