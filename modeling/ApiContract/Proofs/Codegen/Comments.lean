import ApiContract.Import.SpecFile
import ApiContract.Codegen.Dialect
import ApiContract.Proofs.Codegen.Declared
import ApiContract.Proofs.Codegen.Script

/-!
# Comments of generated code

The file of an operation holds one block comment, and a model may have one as its header. Nothing in
them is escaped, so a comment ends where it should exactly if no line of it holds the end of a
comment; the lines of the generator itself never do.

* **`comment?_joinLines`** — a comment of any lines.
* **`comment?_specFile`** — the comment of an operation.
* **`header_of_generateModel`** — the header of a model, in every dialect.
* **`Nests.of_within`** — nested models are declared like others, within the code of their parents.
-/

namespace ApiContract.Codegen

open Script
open Text (pair_infix_cons pair_infix_flatMap pair_infix_separated)

/-! ## Comments of lines -/

/-- Joined lines, with those in front written out. -/
theorem toList_joinLines_append {front back : List String} (h : back ≠ []) :
    (joinLines (front ++ back)).toList
      = front.flatMap (fun line => line.toList ++ ['\n']) ++ (joinLines back).toList := by
  induction front with
  | nil => rfl
  | cons line rest ih =>
    rw [List.cons_append, joinLines_cons (by simp [h]), ih, List.flatMap_cons]
    simp

/-- Joined lines go on after the first of them. -/
theorem prefix_joinLines {front : List String} (back : List String) (h : front ≠ []) :
    (joinLines front).toList <+: (joinLines (front ++ back)).toList := by
  cases back with
  | nil => rw [List.append_nil]
  | cons next more =>
    induction front with
    | nil => exact absurd rfl h
    | cons line rest ih =>
      cases rest with
      | nil =>
        rw [List.singleton_append, joinLines_cons (List.cons_ne_nil _ _)]
        exact List.prefix_append _ _
      | cons line' rest =>
        rw [List.cons_append, joinLines_cons (List.cons_ne_nil line' rest),
          joinLines_cons (List.append_ne_nil_of_left_ne_nil (List.cons_ne_nil line' rest) _),
          List.prefix_append_right_inj, List.cons_prefix_cons]
        exact ⟨rfl, ih (List.cons_ne_nil line' rest)⟩

/-- Lines that stay together are joined as they are for themselves. -/
theorem infix_joinLines (front : List String) {block : List String} (back : List String)
    (h : block ≠ []) : (joinLines block).toList <:+: (joinLines (front ++ block ++ back)).toList := by
  rw [List.append_assoc, toList_joinLines_append (by simp [h])]
  exact (prefix_joinLines back h).isInfix.trans (List.suffix_append _ _).isInfix

theorem infix_joinLines_of_mem {ls : List String} {line : String} (h : line ∈ ls) :
    line.toList <:+: (joinLines ls).toList := by
  obtain ⟨front, back, rfl⟩ := List.append_of_mem h
  have hblock := infix_joinLines front back (List.cons_ne_nil line [])
  rwa [List.append_assoc] at hblock

/-- Lines inside of a comment. -/
def commented (ls : List String) : List String := ["/**"] ++ ls ++ [" */"]

/-- What the comment of these lines has between its two marks. -/
def commentText (ls : List String) : List Char :=
  '*' :: '\n' :: ((ls.map String.toList).flatMap (· ++ ['\n']) ++ [' '])

theorem toList_commented (ls : List String) :
    (joinLines (commented ls)).toList = '/' :: '*' :: (commentText ls ++ ['*', '/']) := by
  have hlast : (joinLines [" */"]).toList = [' ', '*', '/'] := by decide
  have hfirst : "/**".toList = ['/', '*', '*'] := by decide
  unfold commented commentText
  rw [toList_joinLines_append (List.cons_ne_nil _ _), hlast, List.singleton_append,
    List.flatMap_cons, hfirst, List.flatMap_map]
  simp

theorem keepsComment_commentText (ls : List String) :
    KeepsComment (commentText ls) ↔ ∀ line ∈ ls, KeepsComment line.toList := by
  unfold KeepsComment commentText
  have hspace : ¬['*', '/'] <:+: [' '] := by decide
  rw [pair_infix_cons, pair_infix_cons, pair_infix_flatMap (by decide) (by decide)]
  simp [hspace]

/-- **A comment of any lines** ends at its own end exactly if none of them holds another one. -/
theorem comment?_joinLines {ls : List String} {rest : List Char} :
    comment? ((joinLines (commented ls)).toList ++ rest) = some rest
      ↔ ∀ line ∈ ls, KeepsComment line.toList := by
  have hread : comment? ((joinLines (commented ls)).toList ++ rest)
      = afterComment (commentText ls ++ '*' :: '/' :: rest) := by
    rw [toList_commented, List.cons_append, List.cons_append, List.append_assoc]
    rfl
  rw [hread, afterComment_iff, keepsComment_commentText]

theorem keepsComment_append {a b : String} (h : KeepsComment a.toList) :
    KeepsComment (a ++ " " ++ b).toList ↔ KeepsComment b.toList := by
  unfold KeepsComment at h ⊢
  have hlist : (a ++ " " ++ b).toList = a.toList ++ ' ' :: b.toList := by
    simp [String.toList_append]
  rw [hlist, pair_infix_separated (by decide) (by decide), or_iff_right h]

/-- The lines of a block comment are those of a comment, each with a star. -/
theorem blockComment_eq (ls : List String) : blockComment ls = commented (ls.map (" * " ++ ·)) := rfl

theorem keepsComment_starred (line : String) :
    KeepsComment (" * " ++ line).toList ↔ KeepsComment line.toList :=
  keepsComment_append (a := " *") (by decide)

theorem comment?_blockComment {ls : List String} {rest : List Char} :
    comment? ((joinLines (blockComment ls)).toList ++ rest) = some rest
      ↔ ∀ line ∈ ls, KeepsComment line.toList := by
  rw [blockComment_eq, comment?_joinLines, List.forall_mem_map]
  exact forall₂_congr fun line _ => keepsComment_starred line

/-! ## The comment of an operation -/

/-- The lines of the comment of an operation. -/
def operationLines (operation : OpenApi.Operation) : List String :=
  [" * " ++ Import.titleOf operation] ++
    ((operation.description.filter (!·.isEmpty)).map fun d => [" *", " * " ++ d]).getD [] ++
    [" *", s!" * @source OpenAPI: {operation.method.verb} {operation.path}"]

theorem specComment_eq (operation : OpenApi.Operation) :
    Import.specComment operation = commented (operationLines operation) := by
  unfold Import.specComment commented operationLines
  simp

theorem keepsComment_verb (method : OpenApi.Method) (path : String) :
    KeepsComment (s!" * @source OpenAPI: {method.verb} {path}").toList
      ↔ KeepsComment path.toList := by
  refine keepsComment_append (a := " * @source OpenAPI: " ++ method.verb) ?_
  cases method <;> decide

theorem keepsComment_operationLines (operation : OpenApi.Operation) :
    (∀ line ∈ operationLines operation, KeepsComment line.toList)
      ↔ KeepsComment (Import.titleOf operation).toList
        ∧ (∀ d ∈ operation.description, KeepsComment d.toList)
        ∧ KeepsComment operation.path.toList := by
  have hstar : KeepsComment " *".toList := by decide
  have hlines {ls : List String} : (∀ line ∈ " *" :: ls, KeepsComment line.toList)
      ↔ ∀ line ∈ ls, KeepsComment line.toList := by
    rw [List.forall_mem_cons, and_iff_right hstar]
  unfold operationLines
  rw [List.forall_mem_append, List.forall_mem_append, List.forall_mem_singleton, hlines,
    List.forall_mem_singleton, keepsComment_starred, keepsComment_verb, and_assoc]
  refine and_congr_right fun _ => and_congr_left fun _ => ?_
  cases operation.description with
  | none => simp
  | some d =>
    by_cases hempty : d.isEmpty = true
    · have hnone : KeepsComment [] := by decide
      rw [Option.filter_some_neg (by simp [hempty])]
      simp [String.isEmpty_iff.mp hempty, hnone]
    · rw [Option.filter_some_pos (by simp [hempty]), Option.map_some, Option.getD_some, hlines,
        List.forall_mem_singleton, keepsComment_starred]
      simp

/-- **The comment of an operation** stands in its file, and ends at its own end exactly if neither the
title nor the description nor the path holds another one. -/
theorem comment?_specFile (operation : OpenApi.Operation) (options : Import.Options)
    (identity : Import.Identity) (input output : Option GeneratedCode) :
    ∃ before after, (Import.specFile operation options identity input output).toList
        = before ++ (joinLines (Import.specComment operation)).toList ++ after
      ∧ (comment? ((joinLines (Import.specComment operation)).toList ++ after) = some after
        ↔ KeepsComment (Import.titleOf operation).toList
          ∧ (∀ d ∈ operation.description, KeepsComment d.toList)
          ∧ KeepsComment operation.path.toList) := by
  have hfile : (joinLines (Import.specComment operation)).toList
      <:+: (Import.specFile operation options identity input output).toList := by
    unfold Import.specFile
    rw [String.toList_append]
    exact (infix_joinLines _ _ (List.cons_ne_nil _ _)).trans (List.prefix_append _ _).isInfix
  obtain ⟨before, after, hfile⟩ := hfile
  refine ⟨before, after, hfile.symm, ?_⟩
  rw [specComment_eq, comment?_joinLines, keepsComment_operationLines]

/-! ## Headers of models -/

theorem keepsComment_modelName (name : String) : KeepsComment (Naming.modelName name).toList := by
  have hstar := Naming.notMem_modelName (c := '*') (by decide) (by decide) name
  exact fun h => hstar (h.subset List.mem_cons_self)

/-- What stands before and behind the description in the header of a declaration. Only enumerations,
aliases of a scalar and dictionaries have one. -/
def Declaration.frame? (schema : Value) (symbol : String) : Option (List String × List String) :=
  let type := (Schema.typeOf schema).1
  if (Reference.pointer? schema).isSome then none
  else if (schema.field "enum").isTruthy then some (["Enum type: " ++ symbol], [])
  else if (Schema.properties? schema).isSome then none
  else
    match Schema.scalarFor (type.filter (!·.isEmpty)) (schema.field "format") with
    | some scalar => some (["Type alias: " ++ symbol], ["Underlying type: " ++ scalarCode scalar])
    | none =>
      if type ≠ some "array" ∧ (schema.field "additionalProperties").isTruthy then
        some (["Dictionary/Record type: " ++ symbol],
          ["Use as: Record<string, unknown> - access via record[key]"])
      else none

/-- What stands before and behind the description in the header of a model, if it has one. -/
def frame? (dialect : Dialect) (schema : Value) (symbol : String) (description : Value) :
    Option (List String × List String) :=
  match dialect with
  | .declaration => Declaration.frame? schema symbol
  | .zod => if descriptionText description = [] then none else some ([], [])
  | .jsonSchema => some (["JSON Schema: " ++ symbol], [])
  | .graphQl => some (["GraphQL type definition: " ++ symbol], [])

/-- What a header holds of the document. -/
def headerText (dialect : Dialect) (description : Value) : List String :=
  match dialect with
  | .graphQl => []
  | _ => descriptionText description

section Headers

variable {schema given description : Value} {name symbol : String} {front back : List String}

theorem keepsComment_symbol (label : String) (hlabel : KeepsComment label.toList)
    (hsymbol : KeepsComment symbol.toList) :
    ∀ line ∈ [label ++ " " ++ symbol], KeepsComment line.toList := by
  rw [List.forall_mem_singleton, keepsComment_append hlabel]
  exact hsymbol

theorem keepsComment_declarationFrame (hsymbol : KeepsComment symbol.toList)
    (h : Declaration.frame? schema symbol = some (front, back)) :
    ∀ line ∈ front ++ back, KeepsComment line.toList := by
  unfold Declaration.frame? at h
  dsimp only at h
  rw [List.forall_mem_append]
  split at h
  · cases h
  split at h
  · cases h
    exact ⟨keepsComment_symbol "Enum type:" (by decide) hsymbol, by simp⟩
  split at h
  · cases h
  split at h
  · next scalar _ =>
    cases h
    exact ⟨keepsComment_symbol "Type alias:" (by decide) hsymbol,
      keepsComment_symbol "Underlying type:" (by decide) (by cases scalar <;> decide)⟩
  · obtain ⟨-, h⟩ := Option.ite_none_right_eq_some.mp h
    cases h
    exact ⟨keepsComment_symbol "Dictionary/Record type:" (by decide) hsymbol, by decide⟩

/-- The lines of the generator itself end no comment. -/
theorem keepsComment_frame {dialect : Dialect} (hsymbol : KeepsComment symbol.toList)
    (h : frame? dialect schema symbol description = some (front, back)) :
    ∀ line ∈ front ++ back, KeepsComment line.toList := by
  unfold frame? at h
  cases dialect with
  | declaration => exact keepsComment_declarationFrame hsymbol h
  | zod =>
    obtain ⟨-, h⟩ := Option.ite_none_left_eq_some.mp h
    cases h
    simp
  | jsonSchema =>
    cases h
    exact keepsComment_symbol "JSON Schema:" (by decide) hsymbol
  | graphQl =>
    cases h
    exact keepsComment_symbol "GraphQL type definition:" (by decide) hsymbol

/-- The header with its description. -/
def header (front about back : List String) : List Char :=
  (joinLines (blockComment (front ++ about ++ back))).toList

theorem header_prefix (front about back rest : List String) :
    header front about back
      <+: (joinLines (blockComment (front ++ about ++ back) ++ rest)).toList :=
  prefix_joinLines rest (List.cons_ne_nil _ _)

/-- **A header** ends at its own end exactly if its description holds no other one. -/
theorem comment?_header {about : List String} {rest : List Char}
    (h : ∀ line ∈ front ++ back, KeepsComment line.toList) :
    comment? (header front about back ++ rest) = some rest
      ↔ ∀ line ∈ about, KeepsComment line.toList := by
  obtain ⟨hfront, hback⟩ := List.forall_mem_append.mp h
  unfold header
  rw [comment?_blockComment, List.forall_mem_append, List.forall_mem_append, and_iff_right hfront,
    and_iff_left hback]

namespace Declaration

variable {m : Model} {lines : List String}

theorem code_of_leafModel (h : leafModel symbol description lines = .ok m) :
    m.code = joinLines lines := by
  unfold leafModel at h
  obtain ⟨about, -, h⟩ := bind_eq_ok.mp h
  cases h
  rfl

theorem header_of_enumModel {values : List Value} (h : enumModel symbol description values = .ok m) :
    header ["Enum type: " ++ symbol] (descriptionText description) [] <+: m.code.toList := by
  unfold enumModel at h
  rw [code_of_leafModel h]
  have hstart := header_prefix ["Enum type: " ++ symbol] (descriptionText description) []
  rw [List.append_nil] at hstart
  exact hstart _

theorem header_of_aliasModel {scalar : Contract.ScalarType}
    (h : aliasModel symbol description scalar = .ok m) :
    header ["Type alias: " ++ symbol] (descriptionText description)
      ["Underlying type: " ++ scalarCode scalar] <+: m.code.toList := by
  unfold aliasModel at h
  obtain ⟨opening, -, h⟩ := bind_eq_ok.mp h
  rw [code_of_leafModel h, List.append_assoc]
  exact header_prefix ["Type alias: " ++ symbol] _ ["Underlying type: " ++ scalarCode scalar] _

theorem header_of_dictionaryModel (h : dictionaryModel symbol description = .ok m) :
    header ["Dictionary/Record type: " ++ symbol] (descriptionText description)
      ["Use as: Record<string, unknown> - access via record[key]"] <+: m.code.toList := by
  unfold dictionaryModel at h
  rw [code_of_leafModel h]
  exact header_prefix ["Dictionary/Record type: " ++ symbol] _ [_] _

/-- **The header of a declaration**, by the same cases as the frame of one. -/
theorem header_of_model (h : model schema name given = .ok m)
    (hframe : frame? schema (Naming.modelName name) = some (front, back)) :
    header front (descriptionText (chooseDescription given schema)) back <+: m.code.toList := by
  unfold frame? at hframe
  dsimp only at hframe
  rw [model] at h
  split at hframe
  · cases hframe
  next hpointer =>
  rw [Option.not_isSome_iff_eq_none.mp hpointer] at h
  dsimp only at h
  obtain ⟨values, hvalues, h⟩ := bind_eq_ok.mp h
  have hlisted := Schema.enumValues_isNone hvalues
  split at hframe
  · next henum =>
    cases hframe
    cases values with
    | none => simp [henum] at hlisted
    | some values => exact header_of_enumModel h
  next henum =>
  rw [hlisted.mpr (by simpa using henum)] at h
  dsimp only at h
  split at hframe
  · cases hframe
  next hproperties =>
  split at h
  · next properties hfound =>
    simp [hfound] at hproperties
  split at hframe
  · next scalar hscalar =>
    cases hframe
    rw [hscalar] at h
    exact header_of_aliasModel h
  next hscalar =>
  obtain ⟨⟨harray, hdictionary⟩, hframe⟩ := Option.ite_none_right_eq_some.mp hframe
  cases hframe
  rw [hscalar] at h
  dsimp only at h
  rw [if_neg harray, if_pos hdictionary] at h
  exact header_of_dictionaryModel h

/-! ### Nested models -/

/-- A model, or one that is nested in it. -/
inductive Within (k : Model) : Model → Prop where
  | self : Within k k
  | nested {m n : Model} {f : Field} (field : f ∈ m.fields) (model : f.nestedModel = some n)
      (within : Within k n) : Within k m

/-- The code of nested models stands before the declaration that uses them. -/
theorem code_of_objectModel {fields : List Field}
    (h : objectModel symbol description fields = .ok m) :
    m.fields = fields
      ∧ ∀ f ∈ fields, ∀ n, f.nestedModel = some n → n.code.toList <:+: m.code.toList := by
  unfold objectModel at h
  obtain ⟨opening, -, h⟩ := bind_eq_ok.mp h
  obtain ⟨about, -, h⟩ := bind_eq_ok.mp h
  cases h
  refine ⟨rfl, fun f hf n hn => infix_joinLines_of_mem ?_⟩
  simp only [List.mem_append, List.mem_flatMap]
  refine .inl (.inl (.inl (.inl ⟨f, hf, ?_⟩)))
  rw [hn]
  exact List.mem_cons_self

/-- A model without fields, or one of an object. -/
theorem fields_of_model (h : model schema name given = .ok m) :
    m.fields = [] ∨ ∃ symbol description fields, objectModel symbol description fields = .ok m := by
  have hleaf {symbol : String} {about : Value} {lines : List String}
      (h : leafModel symbol about lines = .ok m) : m.fields = [] := by
    unfold leafModel at h
    obtain ⟨about, -, h⟩ := bind_eq_ok.mp h
    cases h
    rfl
  rw [model] at h
  split at h
  · cases h
    exact .inl rfl
  · obtain ⟨values, hvalues, h⟩ := bind_eq_ok.mp h
    split at h
    · exact .inl (hleaf h)
    split at h
    · obtain ⟨keys, hkeys, h⟩ := bind_eq_ok.mp h
      obtain ⟨fields, hfields, h⟩ := bind_eq_ok.mp h
      exact .inr ⟨_, _, fields, h⟩
    split at h
    · unfold aliasModel at h
      obtain ⟨opening, -, h⟩ := bind_eq_ok.mp h
      exact .inl (hleaf h)
    split at h
    · obtain ⟨f, hf, h⟩ := bind_eq_ok.mp h
      exact .inr ⟨_, _, [f], h⟩
    split at h
    · exact .inl (hleaf h)
    · unfold emptyModel at h
      obtain ⟨opening, -, h⟩ := bind_eq_ok.mp h
      exact .inl (hleaf h)

/-- The model that a field is given, where it is declared. -/
theorem nested_of_declaredField {required : Bool} {parent : String} {f : Field} {n : Model}
    (h : DeclaredField schema name required parent f) (hn : f.nestedModel = some n) :
    ∃ node name', model node name' .null = .ok n := by
  cases h with
  | flat field _ =>
    rw [field.hnested] at hn
    cases hn
  | nested field found nests unlisted built =>
    cases hn
    exact ⟨_, _, built⟩

theorem exists_of_forall₂ {α β : Type} {r : α → β → Prop} {xs : List α} {ys : List β}
    (h : List.Forall₂ r xs ys) {y : β} (hy : y ∈ ys) : ∃ x ∈ xs, r x y := by
  induction h with
  | nil => cases hy
  | cons hxy _ ih =>
    rcases List.mem_cons.mp hy with rfl | hy
    · exact ⟨_, List.mem_cons_self, hxy⟩
    · obtain ⟨x, hx, hr⟩ := ih hy
      exact ⟨x, List.mem_cons_of_mem _ hx, hr⟩

theorem nested_of_model (h : model schema name given = .ok m) {f : Field} {n : Model}
    (hf : f ∈ m.fields) (hn : f.nestedModel = some n) :
    n.code.toList <:+: m.code.toList ∧ ∃ node name', model node name' .null = .ok n := by
  constructor
  · rcases fields_of_model h with hempty | ⟨symbol, description, fields, hobject⟩
    · rw [hempty] at hf
      cases hf
    · obtain ⟨hfields, hcode⟩ := code_of_objectModel hobject
      exact hcode f (hfields ▸ hf) n hn
  · cases declaredModel h with
    | reference => cases hf
    | leaf _ _ _ hempty =>
      rw [hempty] at hf
      cases hf
    | object _ _ _ _ fields _ =>
      obtain ⟨p, -, hp⟩ := exists_of_forall₂ (forall₂_fieldsOf fields) hf
      exact nested_of_declaredField (declaredField hp) hn
    | list _ _ _ _ field fields _ =>
      rw [fields, List.mem_singleton] at hf
      exact nested_of_declaredField (hf ▸ field) hn

/-- **Nested models are declared like others**, within the code of their parents. -/
theorem model_of_within {k : Model} (h : model schema name given = .ok m) (hk : Within k m) :
    k.code.toList <:+: m.code.toList ∧ ∃ node name' given', model node name' given' = .ok k := by
  induction hk generalizing schema name given with
  | self => exact ⟨List.infix_rfl, schema, name, given, h⟩
  | nested field nested _ ih =>
    obtain ⟨hcode, node, name', hn⟩ := nested_of_model h field nested
    obtain ⟨hinner, hmodel⟩ := ih hn
    exact ⟨hinner.trans hcode, hmodel⟩

end Declaration

/-- **The header of a model**, in every dialect: its code begins with it, and it ends at its own end
exactly if the description holds no other one. -/
theorem header_of_generateModel {dialect : Dialect} {conventions : Conventions}
    {code : GeneratedCode} (h : dialect.generateModel conventions schema name given = .ok code)
    (hframe : frame? dialect schema (Naming.modelName name) (chooseDescription given schema)
      = some (front, back)) :
    header front (headerText dialect (chooseDescription given schema)) back <+: code.code.toList := by
  unfold frame? at hframe
  cases dialect with
  | declaration =>
    obtain ⟨m, hm, h⟩ := bind_eq_ok.mp h
    cases h
    exact Declaration.header_of_model hm hframe
  | zod =>
    obtain ⟨hsome, hframe⟩ := Option.ite_none_left_eq_some.mp hframe
    cases hframe
    obtain ⟨body, -, h⟩ := bind_eq_ok.mp h
    obtain ⟨literal, -, h⟩ := bind_eq_ok.mp h
    cases h
    show header [] (descriptionText (chooseDescription given schema)) [] <+: _
    dsimp only
    cases hlines : descriptionText (chooseDescription given schema) with
    | nil => exact absurd hlines hsome
    | cons line more =>
      have hstart := header_prefix [] (line :: more) []
      rw [List.append_nil, List.nil_append] at hstart
      exact hstart _
  | jsonSchema =>
    cases hframe
    show header _ (descriptionText (chooseDescription given schema)) [] <+: _
    change SchemaConstant.generateModel schema name given = .ok code at h
    unfold SchemaConstant.generateModel at h
    dsimp only at h
    split at h
    · cases h
      have hstart := header_prefix ["JSON Schema: " ++ Naming.modelName name]
        (descriptionText (chooseDescription given schema)) []
      rw [List.append_nil] at hstart
      exact hstart _
    · cases h
  | graphQl =>
    cases hframe
    obtain ⟨definition, -, h⟩ := bind_eq_ok.mp h
    cases h
    have hstart := header_prefix ["GraphQL type definition: " ++ Naming.modelName name] [] []
    rw [List.append_nil, List.append_nil] at hstart
    dsimp only [headerText]
    exact hstart _

end Headers

end ApiContract.Codegen
