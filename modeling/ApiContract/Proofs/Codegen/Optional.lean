import ApiContract.Proofs.Codegen.Marks
import ApiContract.Proofs.Codegen.Readable
import ApiContract.Proofs.Codegen.Scope

/-!
# Optional properties

A property is optional if the object does not require it, or if its node allows null. All dialects
report it so for a single field. In the code of a model each dialect has a sign of its own: a
declaration says it in a line, a validator ends in a call, and a type definition leaves out the
exclamation mark. The type definition looks at the required names alone, so a required property that
may be null is not optional there.

* **`flags_of_generateField`** / **`succeeds_generateField_iff`** — single fields.
* **`exists_declaredLines`** / **`exists_validatedLines`** / **`exists_definedLines`** — the lines of
  the properties in a model, and what they say.
* **`optionality_iff`** — the headline.
-/

namespace ApiContract.Codegen

variable {schema node given : Value} {name fieldName : String} {required : Bool}
  {properties : Members} {keys : List Scalar} {conventions : Conventions} {code : GeneratedCode}

/-! ## Nodes -/

/-- Null is allowed at a node, whatever a reference leads to: the node says so, or lists null among
its types. -/
def Nullable (node : Value) : Prop :=
  (node.field "nullable").isTruthy = true
    ∨ ∃ types, node.field "type" = .list types ∧ .str "null" ∈ types

/-- A property of an object with these required names may be absent, or null. -/
def IsOptional (keys : List Scalar) (property : Scalar × Value) : Prop :=
  Schema.isRequired keys property.1 = false ∨ Nullable property.2

theorem typeOf_nullable_iff : (Schema.typeOf node).2 = true ↔ Nullable node := by
  unfold Nullable
  cases hmap : node.isMap with
  | false =>
    rw [Schema.typeOf_of_not_map hmap, Schema.field_of_not_map hmap, Schema.field_of_not_map hmap]
    refine iff_of_false (by decide) ?_
    rintro (h | ⟨types, h, -⟩) <;> cases h
  | true =>
    obtain ⟨members, rfl⟩ := Schema.exists_members hmap
    unfold Schema.typeOf
    dsimp only
    split
    · rename_i h
      simp [h]
    · rename_i types h
      simp [h]
    · rename_i hnull hlist
      refine (or_iff_left ?_).symm
      rintro ⟨types, htypes, -⟩
      exact hlist types htypes

theorem isOptional_iff {property : Scalar × Value} :
    (!Schema.isRequired keys property.1 || (Schema.typeOf property.2).2) = true
      ↔ IsOptional keys property := by
  unfold IsOptional
  rw [← typeOf_nullable_iff]
  simp

/-- A reference by itself says nothing else. -/
theorem typeOf_of_bare (hbare : BareReferences node) {pointer : String}
    (h : Reference.pointer? node = some pointer) : Schema.typeOf node = (none, false) := by
  cases hbare with
  | mk alone _ _ =>
    obtain ⟨⟨key, value⟩, rfl⟩ := alone pointer h
    have hkey : key = .str "$ref" := by
      unfold Reference.pointer? at h
      simp only [Value.get?, Members.get?_cons, Members.get?_nil] at h
      by_cases href : key.sameKey (.str "$ref") = true
      · exact Scalar.sameKey_str_iff.mp href
      · rw [if_neg href] at h
        cases h
    subst hkey
    rfl

/-! ## Single fields -/

/-- A field of a declaration, which may be a reference. -/
theorem flags_of_propertyField {parent : String} {f : Field} (hbare : BareReferences node)
    (h : Declaration.propertyField node fieldName required parent = .ok f) :
    f.type.optional = (!required || (Schema.typeOf node).2)
      ∧ f.type.array = Schema.isArray node := by
  have hfield := Declaration.declaredField h
  cases hpointer : Reference.pointer? node with
  | none => exact Declaration.flags_of_declared hpointer hfield
  | some pointer =>
    rw [Schema.isArray, typeOf_of_bare hbare hpointer]
    cases hfield with
    | flat field _ =>
      obtain ⟨description, htype⟩ := field.htype
      rw [htype, Declaration.typeRef_of_reference hpointer]
      exact ⟨rfl, rfl⟩
    | nested _ found _ _ _ => cases hpointer.symm.trans (Declaration.isInline_of_nestTarget? found).2

/-- **Every dialect reports a field alike**: whether it is optional, and whether it is a list. -/
theorem flags_of_generateField {dialect : Dialect} {field : GeneratedField}
    (hbare : BareReferences node)
    (h : dialect.generateField node fieldName required = .ok field) :
    field.isOptional = (!required || (Schema.typeOf node).2)
      ∧ field.isArray = Schema.isArray node := by
  cases dialect with
  | declaration =>
    obtain ⟨f, hf, h⟩ := bind_eq_ok.mp h
    cases h
    exact flags_of_propertyField hbare hf
  | jsonSchema =>
    obtain ⟨literal, -, h⟩ := bind_eq_ok.mp h
    cases h
    exact ⟨rfl, rfl⟩
  | zod =>
    obtain ⟨body, -, h⟩ := bind_eq_ok.mp h
    cases hpointer : Reference.pointer? node with
    | some pointer =>
      rw [hpointer] at h
      cases h
      rw [Schema.isArray, typeOf_of_bare hbare hpointer]
      exact ⟨(Bool.or_false _).symm, rfl⟩
    | none =>
      rw [hpointer] at h
      cases h
      exact ⟨rfl, rfl⟩
  | graphQl =>
    obtain ⟨type, -, h⟩ := bind_eq_ok.mp h
    split at h
    · rename_i href
      obtain ⟨pointer, hpointer⟩ := Option.isSome_iff_exists.mp href
      cases h
      rw [Schema.isArray, typeOf_of_bare hbare hpointer]
      exact ⟨(Bool.or_false _).symm, rfl⟩
    · cases h
      exact ⟨rfl, rfl⟩

/-- The part of the node is read where a field of the dialect is generated of the schema. -/
def Dialect.FieldReads : Dialect → (part : Schema.Part) → (node schema : Value) → Prop
  | .declaration => Declaration.FieldReads
  | .zod => Zod.Reads
  | .jsonSchema => fun _ _ _ => False
  | .graphQl => fun part node schema => part = .format ∧ GraphQl.Names node schema

/-- **A field is generated** of a tree of JSON exactly if what its dialect reads is well-formed. -/
theorem succeeds_generateField_iff (dialect : Dialect) (htree : Json.Tree schema) :
    Succeeds (dialect.generateField schema fieldName required)
      ↔ ∀ part node, dialect.FieldReads part node schema → part.isReadable node = true := by
  cases dialect with
  | declaration =>
    refine (succeeds_bind_of_forall fun field => succeeds_pure _).trans ?_
    exact Declaration.succeeds_propertyField_iff fun target htarget _ name =>
      Declaration.succeeds_model_iff (.inl rfl) (Declaration.tree_of_nestTarget? htree htarget) name
  | zod =>
    refine (succeeds_bind_of_forall fun body => ?_).trans (Zod.succeeds_expression_iff htree required)
    split <;> exact succeeds_pure _
  | jsonSchema =>
    refine iff_of_true ?_ fun _ _ hreads => False.elim hreads
    exact (succeeds_bind_of_forall fun literal => succeeds_pure _).mpr (Json.succeeds_jsonLiteral htree)
  | graphQl =>
    refine (succeeds_bind_of_forall fun type => ?_).trans (GraphQl.succeeds_typeName_iff.trans ?_)
    · split <;> exact succeeds_pure _
    · constructor
      · rintro h _ node ⟨rfl, hnames⟩
        exact h node hnames
      · exact fun h node hnames => h _ node ⟨rfl, hnames⟩

/-! ## The lines of properties -/

/-- The line after which the properties of a model stand. -/
def Dialect.opening (dialect : Dialect) (symbol : String) : String :=
  match dialect with
  | .declaration => "  fields: \x7b"
  | .zod => s!"export const {symbol}Schema = z.object(\x7b"
  | .jsonSchema => ""
  | .graphQl => s!"type {symbol} \x7b"

/-- The line before which they stand. -/
def Dialect.closing : Dialect → String
  | .declaration => "  \x7d,"
  | .zod => "\x7d);"
  | .jsonSchema => ""
  | .graphQl => "\x7d\x60;"

/-- The lines stand in the code between those that open and close a model. -/
def Encloses (dialect : Dialect) (symbol : String) (code : String) (lines : List String) : Prop :=
  ∃ front start back, code
    = joinLines (front ++ [start ++ dialect.opening symbol] ++ lines ++ [dialect.closing] ++ back)

/-- The lines of a property, and whether they say that it is optional: a line of a declaration says it,
an expression ends in a call, a type has no exclamation mark behind it. -/
def Shows (dialect : Dialect) (property : Scalar × Value) (lines : List String) (mark : Bool) : Prop :=
  match dialect with
  | .declaration => ∃ f : Field, f.name = property.1.text ∧ f.type.optional = mark
    ∧ lines = Declaration.fieldLines f
  | .zod => ∃ expression : String, lines = [s!"  {objectKey property.1.text}: {expression},"]
    ∧ (mark = true ↔ Zod.Marked expression.toList)
  | .jsonSchema => False
  | .graphQl => ∃ type : String, '!' ∉ type.toList
    ∧ lines = [GraphQl.templateText (s!"  {property.1.text}: {type}" ++ if mark then "" else "!")]

/-- Lines that are joined first, in one line with what stands around them. -/
theorem joinLines_piece (front : List String) (start first : String) (lines : List String)
    (last stop : String) (back : List String) :
    joinLines (front ++ (start ++ joinLines ([first] ++ lines ++ [last]) ++ stop) :: back)
      = joinLines (front ++ [start ++ first] ++ lines ++ [last ++ stop] ++ back) := by
  have hcons (line : String) (rest : List String) : (joinLines (line :: rest)).toList
      = line.toList ++ rest.flatMap fun l => '\n' :: l.toList := by
    induction rest generalizing line with
    | nil => simp [joinLines]
    | cons next more ih => rw [joinLines_cons (List.cons_ne_nil _ _), ih, List.flatMap_cons]; rfl
  apply String.toList_inj.mp
  cases front <;> simp [hcons, String.toList_append, List.flatMap_append]

theorem encloses_of_piece {dialect : Dialect} {symbol text start start' first last stop : String}
    {lines : List String} (front back : List String)
    (htext : text = joinLines
      (front ++ (start ++ joinLines ([first] ++ lines ++ [last]) ++ stop) :: back))
    (hopening : start ++ first = start' ++ dialect.opening symbol)
    (hclosing : last ++ stop = dialect.closing) : Encloses dialect symbol text lines := by
  rw [joinLines_piece, hopening, hclosing] at htext
  exact ⟨front, start', back, htext⟩

/-- **The lines of a declaration** say what the field says. -/
theorem exists_declaredLines (hbare : BareReferences schema)
    (hproperties : Schema.properties? schema = some properties)
    (hunlisted : (schema.field "enum").isTruthy = false)
    (hkeys : Schema.requiredKeys schema = .ok keys)
    (h : Declaration.generateModel conventions schema name given = .ok code) :
    ∃ blocks, Encloses .declaration (Naming.modelName name) code.code blocks.flatten
      ∧ List.Forall₂ (fun p lines => Shows .declaration p lines
        (!Schema.isRequired keys p.1 || (Schema.typeOf p.2).2)) properties blocks := by
  have hother := hbare.pointer?_eq_none (by simp [hproperties])
  obtain ⟨m, hm, h⟩ := bind_eq_ok.mp h
  cases h
  rw [Declaration.model, hother] at hm
  obtain ⟨values, hvalues, hm⟩ := bind_eq_ok.mp hm
  rw [(Schema.enumValues_isNone hvalues).mpr hunlisted] at hm
  dsimp only at hm
  split at hm
  · rename_i properties' hfound
    cases hproperties.symm.trans hfound
    obtain ⟨keys', hkeys', hm⟩ := bind_eq_ok.mp hm
    cases hkeys.symm.trans hkeys'
    obtain ⟨fields, hfields, hm⟩ := bind_eq_ok.mp hm
    unfold Declaration.objectModel at hm
    obtain ⟨opening, -, hm⟩ := bind_eq_ok.mp hm
    obtain ⟨about, -, hm⟩ := bind_eq_ok.mp hm
    cases hm
    refine ⟨fields.map Declaration.fieldLines, ?_, ?_⟩
    · refine ⟨Declaration.hoistedLines fields ++ opening, "", ["\x7d);"], ?_⟩
      rw [← List.flatMap_def, List.append_assoc _ [Dialect.closing .declaration]]
      rfl
    · rw [List.forall₂_map_right_iff]
      have hbares : ∀ p ∈ properties, BareReferences p.2 := fun p hp => hbare.property hproperties hp
      refine ((List.forall₂_and_left _ _).mpr
        ⟨hbares, Declaration.forall₂_fieldsOf hfields⟩).imp fun p f ⟨hp, hf⟩ => ?_
      exact ⟨f, Declaration.name_of_declared (Declaration.declaredField hf),
        (flags_of_propertyField hp hf).1, rfl⟩
  · rename_i habsent
    cases hproperties.symm.trans habsent

theorem exists_validatedLines (hproperties : Schema.properties? schema = some properties)
    (hkeys : Schema.requiredKeys schema = .ok keys)
    (h : Zod.generateModel conventions schema name given = .ok code) :
    ∃ blocks, Encloses .zod (Naming.modelName name) code.code blocks.flatten
      ∧ List.Forall₂ (fun p lines => ∃ e, Zod.expression p.2 (Schema.isRequired keys p.1) = .ok e
        ∧ Shows .zod p lines (decide (Zod.Marked e.code.toList))) properties blocks := by
  obtain ⟨body, hbody, h⟩ := bind_eq_ok.mp h
  obtain ⟨about, -, h⟩ := bind_eq_ok.mp h
  unfold Zod.modelExpression at hbody
  rw [hproperties] at hbody
  obtain ⟨keys', hkeys', hbody⟩ := bind_eq_ok.mp hbody
  cases hkeys.symm.trans hkeys'
  obtain ⟨es, hes, hbody⟩ := bind_eq_ok.mp hbody
  cases hbody
  cases h
  refine ⟨es.map fun e => [e.code], ?_, ?_⟩
  · have hflat : (es.map fun e => [e.code]).flatten = es.map (·.code) := by
      rw [← List.flatMap_def, ← List.map_eq_flatMap]
    have hopening : "export const " ++ Naming.modelName name ++ "Schema = " ++ "z.object(\x7b"
        = "" ++ Dialect.zod.opening (Naming.modelName name) := by
      rw [String.empty_append, String.append_assoc]
      rfl
    have hclosing : "\x7d)" ++ ";" = Dialect.zod.closing := rfl
    rw [hflat]
    exact encloses_of_piece _ _ rfl hopening hclosing
  · rw [List.forall₂_map_right_iff]
    refine (Zod.forall₂_memberExpressions hes).imp fun p e ⟨value, hvalue, _, hcode⟩ => ?_
    exact ⟨value, hvalue, value.code, by rw [hcode], decide_eq_true_iff⟩

theorem templateText_append (a b : String) :
    GraphQl.templateText (a ++ b) = GraphQl.templateText a ++ GraphQl.templateText b := by
  unfold GraphQl.templateText
  rw [String.toList_append, List.flatMap_append, String.ofList_append]

theorem templateText_of_notMem {text : String} (h : '\x60' ∉ text.toList) :
    GraphQl.templateText text = text := by
  have hchars : text.toList.flatMap (fun c => if c = '\x60' then ['\\', c] else [c]) = text.toList := by
    refine Eq.trans (List.flatMap_congr fun c hc => if_neg ?_) (List.flatMap_singleton' _)
    rintro rfl
    exact h hc
  unfold GraphQl.templateText
  rw [hchars, String.ofList_toList]

/-- Backquotes are escaped line by line. -/
theorem templateText_joinLines (ls : List String) :
    GraphQl.templateText (joinLines ls) = joinLines (ls.map GraphQl.templateText) := by
  induction ls with
  | nil => rfl
  | cons line rest ih =>
    cases rest with
    | nil => simp [joinLines]
    | cons next more =>
      have hsplit (a b : String) (more : List String) :
          joinLines (a :: b :: more) = a ++ "\n" ++ joinLines (b :: more) :=
        String.intercalate_cons_of_ne_nil (List.cons_ne_nil _ _)
      rw [hsplit, templateText_append, templateText_append, ih]
      exact (hsplit _ _ _).symm

/-- The lines of a definition from the one with its name on, in a template literal. -/
theorem exists_start (about : List String) (name : String) (lines : List String) :
    ∃ start, GraphQl.templateText
        (joinLines (about ++ ["type " ++ Naming.modelName name ++ " \x7b"] ++ lines ++ ["\x7d"]))
      = start ++ joinLines (["type " ++ Naming.modelName name ++ " \x7b"]
          ++ lines.map GraphQl.templateText ++ ["\x7d"]) := by
  have hsymbol : '\x60' ∉ ("type " ++ Naming.modelName name ++ " \x7b").toList := by
    have hname := Naming.notMem_modelName (c := '\x60') (by decide) (by decide) name
    rw [String.toList_append, String.toList_append, List.mem_append, List.mem_append, not_or, not_or]
    exact ⟨⟨by decide, hname⟩, by decide⟩
  have hclosing : GraphQl.templateText "\x7d" = "\x7d" := templateText_of_notMem (by decide)
  rw [templateText_joinLines, List.append_assoc, List.append_assoc, List.map_append,
    List.map_append, List.map_append, List.map_singleton, List.map_singleton, hclosing,
    templateText_of_notMem hsymbol]
  refine ⟨String.ofList ((about.map GraphQl.templateText).flatMap fun line => line.toList ++ ['\n']),
    String.toList_inj.mp ?_⟩
  rw [toList_joinLines_append (by simp), String.toList_append, String.toList_ofList,
    ← List.append_assoc [_]]

theorem exists_definedLines (hproperties : Schema.properties? schema = some properties)
    (hkeys : Schema.requiredKeys schema = .ok keys)
    (h : GraphQl.generateModel schema name given = .ok code) :
    ∃ blocks, Encloses .graphQl (Naming.modelName name) code.code blocks.flatten
      ∧ List.Forall₂ (fun p lines => Shows .graphQl p lines (!Schema.isRequired keys p.1))
        properties blocks := by
  obtain ⟨definition, hdefinition, h⟩ := bind_eq_ok.mp h
  unfold GraphQl.typeDefinition at hdefinition
  obtain ⟨keys', hkeys', hdefinition⟩ := bind_eq_ok.mp hdefinition
  cases hkeys.symm.trans hkeys'
  obtain ⟨lines, hlines, hdefinition⟩ := bind_eq_ok.mp hdefinition
  rw [← pure_eq_ok.mp hdefinition] at h
  cases h
  refine ⟨lines.map fun line => [GraphQl.templateText line], ?_, ?_⟩
  · have hflat : (lines.map fun line => [GraphQl.templateText line]).flatten
        = lines.map GraphQl.templateText := by
      rw [← List.flatMap_def, ← List.map_eq_flatMap]
    obtain ⟨start, hstart⟩ := exists_start
      ((descriptionText (chooseDescription given schema)).map fun d => "\"\"\"" ++ d ++ "\"\"\"")
      name lines
    have hclosing : "\x7d" ++ "\x60;" = Dialect.graphQl.closing := rfl
    dsimp only
    rw [hflat, hstart, ← String.append_assoc]
    exact encloses_of_piece _ _ rfl rfl hclosing
  · rw [List.forall₂_map_right_iff]
    have hpairs : List.Forall₂ (fun p line => GraphQl.propertyLine keys p = .ok line)
        properties lines := by
      rw [hproperties] at hlines
      have hmap := mapM_eq_ok.mp hlines
      rwa [← List.forall₂_eq_eq_eq, List.forall₂_map_left_iff, List.forall₂_map_right_iff] at hmap
    refine hpairs.imp fun p line hline => ?_
    obtain ⟨type, htype, hline⟩ := bind_eq_ok.mp hline
    refine ⟨type, (GraphQl.isTypeName_typeName htype).notMem rfl (by decide), ?_⟩
    rw [← pure_eq_ok.mp hline]
    cases Schema.isRequired keys p.1 <;> rfl

/-! ## All dialects -/

/-- What a dialect shows of a property in a model is not whether it is optional: a type definition looks
at the required names alone, and bounds may be written like the end of an optional expression. -/
def Misses (dialect : Dialect) (keys : List Scalar) (property : Scalar × Value) : Prop :=
  match dialect with
  | .declaration | .jsonSchema => False
  | .zod => ¬IsOptional keys property ∧ Zod.Overwritten property.2
  | .graphQl => Schema.isRequired keys property.1 = true ∧ Nullable property.2

theorem marked_iff {property : Scalar × Value} {e : Zod.Expression} (hbare : BareReferences property.2)
    (h : Zod.expression property.2 (Schema.isRequired keys property.1) = .ok e) :
    Zod.Marked e.code.toList ↔ IsOptional keys property ∨ Zod.Overwritten property.2 := by
  have hnull : Reference.pointer? property.2 = none ∧ (Schema.typeOf property.2).2 = true
      ↔ Nullable property.2 := by
    rw [← typeOf_nullable_iff]
    refine and_iff_right_of_imp fun hnullable => Option.eq_none_iff_forall_ne_some.mpr ?_
    intro pointer hpointer
    rw [typeOf_of_bare hbare hpointer] at hnullable
    cases hnullable
  rw [Zod.marked_expression_iff h, hnull, ← or_assoc]
  rfl

/-- **All dialects agree on what is optional**, but for required properties that may be null in a type
definition.

The properties of an object, in which no member stands beside a reference, are reported alike as single
fields by all dialects: optional exactly if they are not required or allow null, and a list exactly if
their type is one. A field is generated exactly if what the dialect reads of it is well-formed. In the
code of a model, each property stands in lines of its own, in their order, and these show whether it
is optional, unless the dialect misses it. -/
theorem optionality_iff (name : String) (conventions : Conventions) (htree : Json.Tree schema)
    (hbare : BareReferences schema) (hproperties : Schema.properties? schema = some properties)
    (hkeys : Schema.requiredKeys schema = .ok keys) :
    (∀ dialect : Dialect, ∀ p ∈ properties, ∀ fieldName,
      (Succeeds (dialect.generateField p.2 fieldName (Schema.isRequired keys p.1))
        ↔ ∀ part node, dialect.FieldReads part node p.2 → part.isReadable node = true)
      ∧ ∀ field, dialect.generateField p.2 fieldName (Schema.isRequired keys p.1) = .ok field →
        (field.isOptional = true ↔ IsOptional keys p) ∧ field.isArray = Schema.isArray p.2)
    ∧ ∀ dialect code, dialect ≠ .jsonSchema →
      (dialect = .declaration → (schema.field "enum").isTruthy = false) →
      dialect.generateModel conventions schema name given = .ok code →
      ∃ blocks, Encloses dialect (Naming.modelName name) code.code blocks.flatten
        ∧ List.Forall₂ (fun p lines => ∃ mark, Shows dialect p lines mark
          ∧ ((mark = true ↔ IsOptional keys p) ↔ ¬Misses dialect keys p)) properties blocks := by
  refine ⟨fun dialect p hp fieldName => ⟨?_, fun field hfield => ?_⟩, ?_⟩
  · exact succeeds_generateField_iff dialect (tree_of_properties? htree hproperties p hp)
  · obtain ⟨hoptional, harray⟩ := flags_of_generateField (hbare.property hproperties hp) hfield
    exact ⟨by rw [hoptional, isOptional_iff], harray⟩
  intro dialect code hother hunlisted hcode
  cases dialect with
  | jsonSchema => exact absurd rfl hother
  | declaration =>
    obtain ⟨blocks, hblocks, hlines⟩ :=
      exists_declaredLines hbare hproperties (hunlisted rfl) hkeys hcode
    refine ⟨blocks, hblocks, hlines.imp fun p lines hshows => ⟨_, hshows, ?_⟩⟩
    rw [isOptional_iff]
    simp [Misses]
  | zod =>
    obtain ⟨blocks, hblocks, hlines⟩ := exists_validatedLines hproperties hkeys hcode
    have hbares : ∀ p ∈ properties, BareReferences p.2 := fun p hp => hbare.property hproperties hp
    refine ⟨blocks, hblocks, ((List.forall₂_and_left _ _).mpr ⟨hbares, hlines⟩).imp ?_⟩
    rintro p lines ⟨hp, e, he, hshows⟩
    refine ⟨_, hshows, ?_⟩
    rw [decide_eq_true_iff, marked_iff hp he, Misses, or_iff_left_iff_imp, not_and]
    exact ⟨fun h hnot hover => hnot (h hover), fun h hover => Classical.not_not.mp fun hnot => h hnot hover⟩
  | graphQl =>
    obtain ⟨blocks, hblocks, hlines⟩ := exists_definedLines hproperties hkeys hcode
    refine ⟨blocks, hblocks, hlines.imp fun p lines hshows => ⟨_, hshows, ?_⟩⟩
    unfold IsOptional Misses
    cases Schema.isRequired keys p.1 <;> simp

/-! ## A note that may be null -/

def noteNode : Value := .map [(.str "type", .str "string"), (.str "nullable", .bool true)]

/-- An object with a note, and what it requires. -/
def noteSchema (required : List Value) : Value :=
  .map [(.str "type", .str "object"), (.str "required", .list required),
    (.str "properties", .map [(.str "note", noteNode)])]

theorem tree_noteSchema (names : List String) : Json.Tree (noteSchema (names.map .str)) := by
  have hnode : Json.Tree noteNode := by
    refine .map ?_ ?_
    · exact List.forall_mem_cons.mpr ⟨⟨_, rfl⟩, List.forall_mem_singleton.mpr ⟨_, rfl⟩⟩
    · exact List.forall_mem_cons.mpr ⟨.str _, List.forall_mem_singleton.mpr (.leaf trivial)⟩
  have hproperties : Json.Tree (.map [(.str "note", noteNode)]) :=
    .map (List.forall_mem_singleton.mpr ⟨_, rfl⟩) (List.forall_mem_singleton.mpr hnode)
  have hnames : Json.Tree (.list (names.map .str)) := by
    refine .list fun v hv => ?_
    obtain ⟨s, -, rfl⟩ := List.mem_map.mp hv
    exact .str s
  refine .map ?_ ?_
  · exact List.forall_mem_cons.mpr ⟨⟨_, rfl⟩, List.forall_mem_cons.mpr ⟨⟨_, rfl⟩,
      List.forall_mem_singleton.mpr ⟨_, rfl⟩⟩⟩
  · exact List.forall_mem_cons.mpr ⟨.str _, List.forall_mem_cons.mpr ⟨hnames,
      List.forall_mem_singleton.mpr hproperties⟩⟩

theorem bareReferences_noteSchema (required : List Value) : BareReferences (noteSchema required) := by
  have hnode : BareReferences noteNode := by
    refine .mk (fun pointer h => ?_) (fun item h => ?_) (fun ps h => ?_) <;> cases h
  refine .mk (fun pointer h => ?_) (fun item h => ?_) (fun ps h => ?_)
  · cases h
  · cases h
  · cases h
    exact List.forall_mem_singleton.mpr hnode

theorem typeName_note : GraphQl.typeName noteNode = .ok "String" := by
  rw [GraphQl.typeName_of_single rfl (fun harray => absurd harray (by decide))]
  rfl

theorem typeDefinition_note (required : List Value) (keys : List Scalar)
    (hkeys : Schema.requiredKeys (noteSchema required) = .ok keys) :
    GraphQl.typeDefinition "Note" (noteSchema required) .null
      = .ok ["type Note \x7b",
        "  note: String" ++ (if Schema.isRequired keys (.str "note") then "!" else ""), "\x7d"] := by
  have hline : GraphQl.propertyLine keys (.str "note", noteNode)
      = .ok ("  note: String" ++ if Schema.isRequired keys (.str "note") then "!" else "") := by
    unfold GraphQl.propertyLine
    dsimp only
    rw [typeName_note]
    rfl
  unfold GraphQl.typeDefinition
  rw [hkeys]
  show (do
    let properties ← [(Scalar.str "note", noteNode)].mapM (GraphQl.propertyLine keys)
    return ["type Note \x7b"] ++ properties ++ ["\x7d"]) = _
  rw [List.mapM_cons, hline]
  rfl

/-- A note that is not required has no exclamation mark behind its type. -/
theorem note_optional :
    ∃ code, Dialect.generateModel .graphQl {} (noteSchema []) "Note" .null = .ok code
      ∧ ∃ lines, Encloses .graphQl "Note" code.code lines
        ∧ Shows .graphQl (.str "note", noteNode) lines true := by
  have hproperties : Schema.properties? (noteSchema []) = some [(.str "note", noteNode)] := rfl
  have hkeys : Schema.requiredKeys (noteSchema []) = .ok [] := rfl
  obtain ⟨code, hcode⟩ :
      ∃ code, Dialect.generateModel .graphQl {} (noteSchema []) "Note" .null = .ok code := by
    show ∃ code, (GraphQl.typeDefinition "Note" (noteSchema []) .null >>= fun _ => _) = .ok code
    rw [typeDefinition_note [] [] hkeys]
    exact ⟨_, rfl⟩
  refine ⟨code, hcode, ?_⟩
  obtain ⟨blocks, hblocks, hlines⟩ := (optionality_iff "Note" {} (tree_noteSchema [])
    (bareReferences_noteSchema []) hproperties hkeys).2 .graphQl code (by decide) nofun hcode
  cases hlines with
  | @cons _ lines _ _ hline hrest =>
    cases hrest
    obtain ⟨mark, hshows, hmark⟩ := hline
    have hmissed : ¬Misses .graphQl [] (.str "note", noteNode) := fun h => absurd h.1 (by decide)
    have hoptional : IsOptional [] (.str "note", noteNode) := .inl rfl
    refine ⟨_, hblocks, ?_⟩
    rw [List.flatten_singleton]
    exact (hmark.mpr hmissed).mpr hoptional ▸ hshows

/-- **A required note that may be null** is optional as a field, and not in the type definition. -/
theorem note_not_optional :
    IsOptional [.str "note"] (.str "note", noteNode)
      ∧ Dialect.generateField .graphQl noteNode "note" true = .ok ⟨"String", "String", true, false⟩
      ∧ ∃ code, Dialect.generateModel .graphQl {} (noteSchema [.str "note"]) "Note" .null = .ok code
        ∧ "  note: String!".toList ∈ linesOf code.code := by
  refine ⟨.inr (.inl rfl), ?_, ?_⟩
  · show (GraphQl.typeName noteNode >>= fun _ => _) = _
    rw [typeName_note]
    rfl
  · show ∃ code, (GraphQl.typeDefinition "Note" (noteSchema [.str "note"]) .null >>= fun _ => _)
      = .ok code ∧ _
    rw [typeDefinition_note [.str "note"] [.str "note"] rfl]
    refine ⟨_, rfl, ?_⟩
    decide +kernel

end ApiContract.Codegen
