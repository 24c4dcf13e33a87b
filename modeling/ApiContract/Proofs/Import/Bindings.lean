import ApiContract.Proofs.Codegen.Layout
import ApiContract.Proofs.Import.Imports

/-!
# The names that the file of an operation binds

The file of an operation binds the symbols that it imports, those of the models that its input and
output declare, and that of the operation. Models are named after the operation and the properties
that lead to them, in Pascal case and with nothing in between. So two of them may have one name, and
a component or the operation may have the name of a model.

* **`importedSymbols_importLine`** — what an import binds.
* **`pascalCase_symbolAt`** / **`symbolAt_eq`** — the names of models.
* **`nodup_importedNames`** / **`nodup_modelNames`** — what is imported, and what is declared.
* **`SpecParts.Of.binds`** — every name is bound by a line of the file.
* **`nodup_boundNames_iff`** — the headline.
-/

namespace ApiContract.Import

open Codegen OpenApi
open Codegen.Declaration (Block Declaring Layout ModelRefers hoistedPaths symbolAt symbolAt_cons)

/-! ## Imported symbols -/

/-- The symbols that a line imports: the identifiers between its braces. -/
def importedSymbols (line : String) : List String :=
  let inside := (line.toList.dropWhile (· ≠ '\x7b')).takeWhile (· ≠ '\x7d')
  ((inside.splitOnP fun c => !Naming.isIdentifierPart c).filter (!·.isEmpty)).map String.ofList

/-- **An import of one symbol** binds it, if it is anything. -/
theorem importedSymbols_importLine {symbol : String} (source : String)
    (h : ∀ c ∈ symbol.toList, Naming.isIdentifierPart c = true) :
    importedSymbols (importLine [symbol] source) = if symbol = "" then [] else [symbol] := by
  have hline : (importLine [symbol] source).toList
      = "import ".toList ++ '\x7b' :: (' ' :: symbol.toList ++ [' ']) ++
        '\x7d' :: (" from '" ++ source ++ "';").toList := by
    unfold importLine
    rw [String.intercalate_singleton]
    simp [String.toList_append]
  have hpart : ∀ c ∈ '\x7b' :: (' ' :: symbol.toList ++ [' ']), c ≠ '\x7d' := by
    intro c hc
    simp only [List.cons_append, List.mem_cons, List.mem_append, List.not_mem_nil, or_false] at hc
    rcases hc with rfl | rfl | hc | rfl
    · decide
    · decide
    · rintro rfl
      exact absurd (h _ hc) (by decide)
    · decide
  have himport : ∀ c ∈ "import ".toList, decide (c ≠ '\x7b') = true := by simp
  have hinside : ((importLine [symbol] source).toList.dropWhile (· ≠ '\x7b')).takeWhile (· ≠ '\x7d')
      = '\x7b' :: (' ' :: symbol.toList ++ [' ']) := by
    rw [hline, List.append_assoc, List.dropWhile_append_of_pos himport, List.cons_append,
      List.dropWhile_cons_of_neg (by decide), ← List.cons_append,
      List.takeWhile_append_of_pos (by simpa using hpart), List.takeWhile_cons_of_neg (by decide),
      List.append_nil]
  have hsplit : ('\x7b' :: (' ' :: symbol.toList ++ [' '])).splitOnP
      (fun c => !Naming.isIdentifierPart c) = [[], [], symbol.toList, []] := by
    have hsymbol : ∀ c ∈ symbol.toList, (!Naming.isIdentifierPart c) = false := by simpa using h
    rw [← List.nil_append ('\x7b' :: _), List.splitOnP_append_cons_of_forall_mem nofun _ (by decide),
      List.cons_append, ← List.nil_append (' ' :: _),
      List.splitOnP_append_cons_of_forall_mem nofun _ (by decide),
      List.splitOnP_append_cons_of_forall_mem hsymbol _ (by decide), List.splitOnP_nil]
  unfold importedSymbols
  dsimp only
  rw [hinside, hsplit]
  by_cases hempty : symbol = ""
  · subst hempty
    rfl
  · have hsymbol : symbol.toList ≠ [] := by simpa using hempty
    simp [hempty, hsymbol]

/-- A line of the text imports the symbol, or declares it. -/
def Binds (text symbol : String) : Prop :=
  (∃ line : String, line.toList ∈ linesOf text ∧ symbol ∈ importedSymbols line)
    ∨ DeclaresIn text symbol

/-- What every file of an operation imports. -/
def contractImport : String := importLine ["defineCommand", "defineQuery"] contractLibrary

def contractSymbols : List String := ["defineCommand", "defineQuery"]

/-- The symbols of the library that models are declared with. -/
def librarySymbols : List String := ["defineSchemaModel", "ScalarTypeEnum", "EnumType"]

theorem importedSymbols_contract : importedSymbols contractImport = contractSymbols := by
  decide +kernel

theorem importedSymbols_library : importedSymbols libraryImport = librarySymbols := by
  decide +kernel

/-! ## Names of models -/

/-- Names in Pascal case that are not empty. -/
def IsPascal (s : String) : Prop := Naming.pascalCase s = s ∧ s ≠ ""

theorem isPascal_append {root : String} (h : IsPascal root) (key : String) :
    IsPascal (root ++ Naming.pascalCase key) := by
  obtain ⟨c, rest, hroot⟩ := List.exists_cons_of_ne_nil (mt String.toList_eq_nil_iff.mp h.2)
  refine ⟨Naming.pascalCase_eq_self ?_ ?_, ?_⟩
  · intro d hd
    rw [String.toList_append] at hd
    rcases List.mem_append.mp hd with hd | hd
    · rw [← h.1] at hd
      exact Naming.isAlphanum_of_mem_pascalCase hd
    · exact Naming.isAlphanum_of_mem_pascalCase hd
  · intro d hd
    rw [String.toList_append, hroot] at hd
    refine @Naming.toUpper_head_pascalCase root d ?_
    rw [h.1, hroot]
    exact hd
  · intro hempty
    have hlist := congrArg String.toList hempty
    rw [String.toList_append, hroot] at hlist
    cases hlist

theorem modelName_of_isPascal {s : String} (h : IsPascal s) : Naming.modelName s = s := by
  rw [Naming.modelName_eq, h.1, if_neg h.2]

/-- The names of properties in Pascal case, one behind the other. -/
def pascalPath (path : List String) : String := String.join (path.map Naming.pascalCase)

theorem pascalPath_cons (key : String) (path : List String) :
    pascalPath (key :: path) = Naming.pascalCase key ++ pascalPath path := by
  unfold pascalPath
  rw [List.map_cons, String.join_cons]

/-- **The name of a nested model** is that of its parent with the names of the properties. -/
theorem symbolAt_eq {root : String} (h : IsPascal root) (path : List String) :
    symbolAt root path = root ++ pascalPath path ∧ IsPascal (symbolAt root path) := by
  induction path generalizing root with
  | nil => exact ⟨(String.append_empty).symm, h⟩
  | cons key path ih =>
    have hkey := isPascal_append h key
    rw [symbolAt_cons, modelName_of_isPascal hkey, pascalPath_cons, ← String.append_assoc]
    exact ih hkey

/-- What the name of a model of an operation ends in. -/
inductive IsSide : String → Prop where
  | input : IsSide "Input"
  | output : IsSide "Output"

theorem IsSide.isWord {side : String} (h : IsSide side) : Naming.IsWord side.toList := by
  cases h with
  | input => exact ⟨by decide, 'I', 'n', _, rfl, by decide, by decide, by decide⟩
  | output => exact ⟨by decide, 'O', 'u', _, rfl, by decide, by decide, by decide⟩

theorem IsSide.isPascal {side : String} (h : IsSide side) (id : String) :
    IsPascal (Naming.pascalCase id ++ side) := by
  have hname := Naming.pascalCase_append id h.isWord
  refine ⟨?_, fun hempty => ?_⟩
  · rw [← hname, Naming.pascalCase_pascalCase]
  · have hlist := congrArg String.toList hempty
    rw [String.toList_append, String.toList_empty, List.append_eq_nil_iff] at hlist
    cases h <;> exact absurd hlist.2 (by decide)

theorem IsSide.modelName {side : String} (h : IsSide side) (id : String) :
    Naming.modelName (id ++ side) = Naming.pascalCase id ++ side := by
  rw [Naming.modelName_eq, Naming.pascalCase_append id h.isWord, if_neg (h.isPascal id).2]

/-! ## Models of a file -/

/-- A model of the file of an operation: what it is generated from, its code, and the declarations
that the code is made of. -/
structure ModelPart where
  schema : Value
  name : String
  code : GeneratedCode
  blocks : List Block

namespace ModelPart

/-- The symbols that the declarations of a model declare. -/
def symbols (part : ModelPart) : List String := part.blocks.filterMap Block.symbol

/-- The symbol of the model that some properties lead to. -/
def symbolOf (part : ModelPart) (path : List String) : String :=
  Naming.modelName part.name ++ pascalPath path

/-- The code is generated from the schema, and made of the declarations. -/
structure Generated (part : ModelPart) : Prop where
  generated : Declaration.generateModel {} part.schema part.name .null = .ok part.code
  laid : ∃ m, Declaration.model part.schema part.name .null = .ok m ∧ part.code.code = m.code
    ∧ Layout part.schema m part.blocks

/-- A model of the input or output of an operation. -/
structure Of (part : ModelPart) (id side : String) : Prop extends Generated part where
  name : part.name = id ++ side
  side : IsSide side

variable {part : ModelPart} {id side : String}

theorem Of.symbolOf_eq (h : part.Of id side) (path : List String) :
    part.symbolOf path = Naming.pascalCase id ++ side ++ pascalPath path := by
  unfold symbolOf
  rw [h.name, h.side.modelName]

theorem Of.isPascal_symbolOf (h : part.Of id side) (path : List String) :
    IsPascal (part.symbolOf path) := by
  obtain ⟨heq, hpascal⟩ := symbolAt_eq (h.side.isPascal id) path
  rw [h.symbolOf_eq, ← heq]
  exact hpascal

/-- **The symbols of a model** are those of the properties that lead to its nested models. -/
theorem Of.symbols_eq (h : part.Of id side) :
    part.symbols = (hoistedPaths part.schema).map part.symbolOf := by
  obtain ⟨m, hm, -, layout⟩ := h.laid
  unfold symbols
  rw [layout.symbols]
  refine List.map_congr_left fun path hpath => ?_
  rw [Declaration.name_of_hoisted hm (List.ne_nil_of_mem hpath), h.symbolOf_eq, h.name,
    h.side.modelName]
  exact (symbolAt_eq (h.side.isPascal id) path).1

theorem Of.nodup_symbols_iff (h : part.Of id side) :
    part.symbols.Nodup ↔ ((hoistedPaths part.schema).map pascalPath).Nodup := by
  have hinjective : Function.Injective fun suffix : String => Naming.modelName part.name ++ suffix :=
    fun a b => (String.append_right_inj _).mp
  have hsame : part.symbolOf = (Naming.modelName part.name ++ ·) ∘ pascalPath := rfl
  rw [h.symbols_eq, hsame, ← List.map_map, List.nodup_map_iff hinjective]

end ModelPart

/-- A file of an operation, taken apart. -/
structure SpecParts where
  identity : Identity
  input : Option ModelPart
  output : Option ModelPart

namespace SpecParts

variable (f : SpecParts)

def parts : List ModelPart := f.input.toList ++ f.output.toList

/-- The lines that import the models. -/
def imports : List String := Distinct.ofList (f.parts.flatMap (·.code.imports))

/-- The symbol of the operation. -/
def exported : String := Naming.exportName f.identity.name f.identity.version

/-- The names that the file binds: imported symbols, models, and the operation. -/
def boundNames : List String :=
  importedSymbols contractImport ++ f.imports.flatMap importedSymbols ++
    f.parts.flatMap ModelPart.symbols ++ [f.exported]

/-- The file of the operation is put together of these parts. -/
structure Of (f : SpecParts) (operation : Operation) (options : Options) (text : String) : Prop where
  text : text = specFile operation options f.identity (f.input.map ModelPart.code)
    (f.output.map ModelPart.code)
  identity : identityOf operation options.namePrefix = .ok f.identity
  inputSchema : inputSchema operation = .ok (f.input.map ModelPart.schema)
  outputSchema : operation.outputSchema = f.output.map ModelPart.schema
  input : ∀ p ∈ f.input, p.Of operation.id "Input"
  output : ∀ p ∈ f.output, p.Of operation.id "Output"

/-- The names are kept apart: no two nested models of one model have the same names of properties
leading to them, once these are in Pascal case and joined; a component that a model refers to has
neither the name of a symbol of the library nor that of a model or the operation; and neither has the
operation the name of a model. -/
structure Apart (f : SpecParts) : Prop where
  nested : ∀ p ∈ f.parts, ((hoistedPaths p.schema).map pascalPath).Nodup
  imported : ∀ p ∈ f.parts, ∀ pointer, ModelRefers pointer p.schema →
    referenceSymbol pointer ∉ librarySymbols ∧ referenceSymbol pointer ≠ f.exported
      ∧ ∀ q ∈ f.parts, ∀ path ∈ hoistedPaths q.schema, referenceSymbol pointer ≠ q.symbolOf path
  exported : ∀ q ∈ f.parts, ∀ path ∈ hoistedPaths q.schema, q.symbolOf path ≠ f.exported

end SpecParts

/-! ## What is bound -/

variable {operation : Operation} {options : Options} {text : String} {f : SpecParts}

theorem SpecParts.Of.part (h : f.Of operation options text) {p : ModelPart} (hp : p ∈ f.parts) :
    ∃ side, p.Of operation.id side := by
  rcases List.mem_append.mp hp with hp | hp
  · exact ⟨_, h.input p (Option.mem_toList.mp hp)⟩
  · exact ⟨_, h.output p (Option.mem_toList.mp hp)⟩

theorem importedSymbols_modelImport (pointer : String) :
    importedSymbols (modelImport .declaration {} (referenceSymbol pointer))
      = if referenceSymbol pointer = "" then [] else [referenceSymbol pointer] := by
  unfold modelImport Dialect.suffix
  rw [String.append_empty]
  refine importedSymbols_importLine _ fun c hc => ?_
  unfold Naming.isIdentifierPart
  rw [Naming.isAlphanum_of_mem_pascalCase hc, Bool.true_or, Bool.true_or]

theorem mem_importedSymbols_modelImport {pointer symbol : String} :
    symbol ∈ importedSymbols (modelImport .declaration {} (referenceSymbol pointer))
      ↔ symbol = referenceSymbol pointer ∧ symbol ≠ "" := by
  rw [importedSymbols_modelImport]
  split
  · next hempty => exact iff_of_false List.not_mem_nil fun h => h.2 (h.1.trans hempty)
  · next hne =>
    exact List.mem_singleton.trans ⟨fun heq => ⟨heq, heq ▸ hne⟩, And.left⟩

/-- A component is imported beside the library without a clash if its name is none of the library's. -/
theorem disjoint_library_iff {pointer : String} :
    (importedSymbols libraryImport).Disjoint
        (importedSymbols (modelImport .declaration {} (referenceSymbol pointer)))
      ↔ referenceSymbol pointer ∉ librarySymbols := by
  rw [importedSymbols_library]
  constructor
  · intro hdisjoint hmem
    have hne : referenceSymbol pointer ≠ "" := fun hempty => absurd (hempty ▸ hmem) (by decide)
    exact hdisjoint hmem (mem_importedSymbols_modelImport.mpr ⟨rfl, hne⟩)
  · intro hother symbol hlibrary hmodel
    exact hother ((mem_importedSymbols_modelImport.mp hmodel).1 ▸ hlibrary)

theorem mem_imports (h : f.Of operation options text) {line : String} :
    line ∈ f.imports ↔ ∃ p ∈ f.parts, line = libraryImport
      ∨ ∃ pointer, ModelRefers pointer p.schema
          ∧ modelImport .declaration {} (referenceSymbol pointer) = line := by
  unfold SpecParts.imports
  rw [Distinct.mem_ofList, List.mem_flatMap]
  refine exists_congr fun p => and_congr_right fun hp => ?_
  obtain ⟨side, hpart⟩ := h.part hp
  have hgenerated : Dialect.declaration.generateModel {} p.schema p.name .null = .ok p.code :=
    hpart.generated
  rw [mem_imports_iff (.inl rfl) hgenerated]
  exact or_congr_left List.mem_singleton

/-- What is imported, besides the library: the components that a model refers to. -/
theorem mem_importedNames (h : f.Of operation options text) {symbol : String} :
    symbol ∈ f.imports.flatMap importedSymbols ↔ ∃ p ∈ f.parts, symbol ∈ librarySymbols
      ∨ ∃ pointer, ModelRefers pointer p.schema ∧ referenceSymbol pointer = symbol ∧ symbol ≠ "" := by
  rw [List.mem_flatMap]
  constructor
  · rintro ⟨line, hline, hsymbol⟩
    obtain ⟨p, hp, rfl | ⟨pointer, hrefers, rfl⟩⟩ := (mem_imports h).mp hline
    · rw [importedSymbols_library] at hsymbol
      exact ⟨p, hp, .inl hsymbol⟩
    · obtain ⟨heq, hne⟩ := mem_importedSymbols_modelImport.mp hsymbol
      exact ⟨p, hp, .inr ⟨pointer, hrefers, heq.symm, hne⟩⟩
  · rintro ⟨p, hp, hsymbol | ⟨pointer, hrefers, rfl, hne⟩⟩
    · exact ⟨libraryImport, (mem_imports h).mpr ⟨p, hp, .inl rfl⟩, importedSymbols_library ▸ hsymbol⟩
    · exact ⟨_, (mem_imports h).mpr ⟨p, hp, .inr ⟨pointer, hrefers, rfl⟩⟩,
        mem_importedSymbols_modelImport.mpr ⟨rfl, hne⟩⟩

/-- **What is imported is bound once** if no component has the name of a symbol of the library. -/
theorem nodup_importedNames (h : f.Of operation options text) :
    (f.imports.flatMap importedSymbols).Nodup
      ↔ ∀ p ∈ f.parts, ∀ pointer, ModelRefers pointer p.schema →
        referenceSymbol pointer ∉ librarySymbols := by
  have hsymmetric : Std.Symm (Function.onFun List.Disjoint importedSymbols) := ⟨fun _ _ h => h.symm⟩
  rw [List.nodup_flatMap]
  constructor
  · rintro ⟨-, hdisjoint⟩ p hp pointer hrefers
    have hlibrary := (mem_imports h).mpr ⟨p, hp, .inl rfl⟩
    have hmodel := (mem_imports h).mpr ⟨p, hp, .inr ⟨pointer, hrefers, rfl⟩⟩
    refine disjoint_library_iff.mp (hdisjoint.forall hlibrary hmodel fun heq => ?_)
    -- the library's line has more than one symbol
    have hlength := congrArg (List.length ∘ importedSymbols) heq
    rw [Function.comp_apply, Function.comp_apply, importedSymbols_library,
      importedSymbols_modelImport] at hlength
    split at hlength <;> simp [librarySymbols] at hlength
  · intro hother
    refine ⟨fun line hline => ?_, (Distinct.nodup_ofList _).pairwise_of_forall_ne ?_⟩
    · obtain ⟨p, hp, rfl | ⟨pointer, hrefers, rfl⟩⟩ := (mem_imports h).mp hline
      · rw [importedSymbols_library]
        decide
      · rw [importedSymbols_modelImport]
        split <;> simp
    · intro a ha b hb hne
      obtain ⟨p, hp, rfl | ⟨pointer, hrefers, rfl⟩⟩ := (mem_imports h).mp ha <;>
        obtain ⟨q, hq, rfl | ⟨pointer', hrefers', rfl⟩⟩ := (mem_imports h).mp hb
      · exact absurd rfl hne
      · exact disjoint_library_iff.mpr (hother q hq pointer' hrefers')
      · exact (disjoint_library_iff.mpr (hother p hp pointer hrefers)).symm
      · -- one symbol is imported by one line
        intro symbol hfirst hsecond
        have heq := (mem_importedSymbols_modelImport.mp hfirst).1
        exact hne (by rw [← heq, (mem_importedSymbols_modelImport.mp hsecond).1])

theorem mem_modelNames (h : f.Of operation options text) {symbol : String} :
    symbol ∈ f.parts.flatMap ModelPart.symbols
      ↔ ∃ q ∈ f.parts, ∃ path ∈ hoistedPaths q.schema, q.symbolOf path = symbol := by
  rw [List.mem_flatMap]
  refine exists_congr fun q => and_congr_right fun hq => ?_
  obtain ⟨side, hpart⟩ := h.part hq
  rw [hpart.symbols_eq, List.mem_map]

/-- The models of the input have other names than those of the output. -/
theorem symbolOf_input_ne_output {p q : ModelPart} {id : String} (hp : p.Of id "Input")
    (hq : q.Of id "Output") (path path' : List String) : p.symbolOf path ≠ q.symbolOf path' := by
  rw [hp.symbolOf_eq, hq.symbolOf_eq]
  intro heq
  rw [String.append_assoc, String.append_assoc] at heq
  have hside := congrArg String.toList ((String.append_right_inj _).mp heq)
  rw [String.toList_append, String.toList_append] at hside
  cases hside

/-- **What the models declare is bound once** if no two paths to nested models of one of them give one
name. -/
theorem nodup_modelNames (h : f.Of operation options text) :
    (f.parts.flatMap ModelPart.symbols).Nodup
      ↔ ∀ p ∈ f.parts, ((hoistedPaths p.schema).map pascalPath).Nodup := by
  have hone : ∀ {part : Option ModelPart} {side : String}, (∀ p ∈ part, p.Of operation.id side) →
      ((part.toList.flatMap ModelPart.symbols).Nodup
        ↔ ∀ p ∈ part.toList, ((hoistedPaths p.schema).map pascalPath).Nodup) := by
    intro part side hpart
    cases part with
    | none => simp
    | some p => simpa using (hpart p rfl).nodup_symbols_iff
  have hapart : ∀ a ∈ f.input.toList.flatMap ModelPart.symbols,
      ∀ b ∈ f.output.toList.flatMap ModelPart.symbols, a ≠ b := by
    intro a ha b hb
    obtain ⟨p, hp, ha⟩ := List.mem_flatMap.mp ha
    obtain ⟨q, hq, hb⟩ := List.mem_flatMap.mp hb
    have hinput := h.input p (Option.mem_toList.mp hp)
    have houtput := h.output q (Option.mem_toList.mp hq)
    rw [hinput.symbols_eq] at ha
    rw [houtput.symbols_eq] at hb
    obtain ⟨path, -, rfl⟩ := List.mem_map.mp ha
    obtain ⟨path', -, rfl⟩ := List.mem_map.mp hb
    exact symbolOf_input_ne_output hinput houtput path path'
  unfold SpecParts.parts
  rw [List.flatMap_append, List.nodup_append, hone h.input, hone h.output, List.forall_mem_append,
    and_iff_left hapart]

/-! ## Symbols of the libraries -/

theorem IsSide.notMem {side : String} (h : IsSide side) :
    ∀ symbol ∈ contractSymbols ++ librarySymbols, ¬side.toList <:+: symbol.toList := by
  cases h <;> decide

/-- No model has the name of an imported symbol of a library. -/
theorem symbolOf_notMem {p : ModelPart} {id side : String} (h : p.Of id side) (path : List String) :
    p.symbolOf path ∉ contractSymbols ++ librarySymbols := by
  intro hmem
  refine h.side.notMem _ hmem ?_
  rw [h.symbolOf_eq, String.toList_append, String.toList_append]
  exact (List.suffix_append _ _).isInfix.trans (List.prefix_append _ _).isInfix

/-- No operation has, either. -/
theorem exportName_notMem (name : String) (version : Int) :
    Naming.exportName name version ∉ contractSymbols ++ librarySymbols := by
  have hend : ∀ symbol ∈ contractSymbols ++ librarySymbols, ¬"Spec".toList <:+ symbol.toList := by
    decide
  intro hmem
  refine hend _ hmem ?_
  unfold Naming.exportName
  rw [String.toList_append]
  exact List.suffix_append _ _

theorem exportName_ne_empty (name : String) (version : Int) :
    Naming.exportName name version ≠ "" := by
  intro hempty
  have hlist := congrArg String.toList hempty
  unfold Naming.exportName at hlist
  rw [String.toList_append, String.toList_empty, List.append_eq_nil_iff] at hlist
  exact absurd hlist.2 (by decide)

theorem notMem_exportName (name : String) (version : Int) :
    '\n' ∉ (Naming.exportName name version).toList := by
  have hbase : '\n' ∉ (Naming.validIdentifier (Naming.pascalCase name)).toList := fun h =>
    absurd (Naming.isIdentifierPart_of_mem_validIdentifier h) (by decide)
  have hversion : '\n' ∉ version.repr.toList := fun h => by
    rcases Text.mem_toString_int h with h | h
    · exact absurd h (by decide)
    · exact absurd h (by decide)
  unfold Naming.exportName
  generalize Naming.validIdentifier (Naming.pascalCase name) = base at hbase ⊢
  dsimp only
  split
  · simp [String.toList_append, hbase]
  · have hnumbered : s!"{base}V{version}" = base ++ "V" ++ toString version := rfl
    rw [hnumbered]
    simp [String.toList_append, hbase, hversion]

theorem referenceSymbol_notMem (pointer : String) : referenceSymbol pointer ∉ contractSymbols := by
  have hsmall : ∀ symbol ∈ contractSymbols, symbol.toList.head? = some 'd' := by decide
  intro hmem
  have hupper := Naming.toUpper_head_pascalCase (hsmall _ hmem)
  exact absurd hupper (by decide)

/-! ## Files -/

theorem exists_modelPart {schema : Option Value} {code : Option GeneratedCode} {id side : String}
    (hside : IsSide side) (h : generateModel? .declaration schema (id ++ side) = .ok code) :
    ∃ part : Option ModelPart, part.map ModelPart.schema = schema
      ∧ part.map ModelPart.code = code ∧ ∀ p ∈ part, p.Of id side := by
  cases schema with
  | none =>
    cases h
    exact ⟨none, rfl, rfl, nofun⟩
  | some schema =>
    obtain ⟨code, hcode, rfl⟩ := map_eq_ok.mp h
    have hgenerated := generateModel_eq_ok hcode
    obtain ⟨m, hm, hsame⟩ := bind_eq_ok.mp hgenerated
    obtain ⟨blocks, layout⟩ := Declaration.exists_layout hm
    have htext : code.code = m.code := by rw [← Except.ok.inj hsame]
    refine ⟨some ⟨schema, id ++ side, code, blocks⟩, rfl, rfl, fun p hp => ?_⟩
    cases Option.mem_some.mp hp
    exact ⟨⟨hgenerated, m, hm, htext, layout⟩, rfl, hside⟩

/-- Every file of an operation can be taken apart. -/
theorem exists_specParts (hdialect : options.dialect = .declaration)
    (h : operationCode operation options = .ok text) :
    ∃ f : SpecParts, f.Of operation options text := by
  obtain ⟨schema, input, output, identity, hschema, hinput, houtput, hidentity, htext⟩ :=
    operationCode_eq_ok.mp h
  rw [hdialect] at hinput houtput
  obtain ⟨inputPart, hinputSchema, rfl, hinputPart⟩ := exists_modelPart .input hinput
  obtain ⟨outputPart, houtputSchema, rfl, houtputPart⟩ := exists_modelPart .output houtput
  refine ⟨⟨identity, inputPart, outputPart⟩, htext.symm, hidentity, ?_, houtputSchema.symm,
    hinputPart, houtputPart⟩
  rw [hschema, hinputSchema]

/-! ## What the text binds -/

/-- What the code of a model declares, the file declares. -/
theorem declaresIn_specFile {identity : Identity} {input output : Option GeneratedCode}
    {code : GeneratedCode} (hcode : code ∈ input.toList ++ output.toList) {symbol : String}
    (h : DeclaresIn code.code symbol) :
    DeclaresIn (specFile operation options identity input output) symbol := by
  have hsection {heading : String} {model : Option GeneratedCode} (hmodel : code ∈ model.toList) :
      code.code ∈ modelSection heading model := by
    cases model with
    | none => cases hmodel
    | some m =>
      rw [List.mem_singleton.mp hmodel]
      exact List.mem_cons_of_mem _ List.mem_cons_self
  obtain ⟨line, hline, hstart⟩ := h
  refine ⟨line, ?_, hstart⟩
  unfold specFile
  rw [linesOf_lineFeed]
  refine List.mem_append_left _ (mem_linesOf_joinLines ?_ hline)
  rcases List.mem_append.mp hcode with hcode | hcode
  · simp only [List.mem_append, hsection hcode, true_or, or_true]
  · simp only [List.mem_append, hsection hcode, true_or, or_true]

/-- The file declares its operation. -/
theorem declaresIn_exportName (identity : Identity) (input output : Option GeneratedCode) :
    DeclaresIn (specFile operation options identity input output)
      (Naming.exportName identity.name identity.version) := by
  have hstart : (declarationStart (Naming.exportName identity.name identity.version)).toList
      <+: ("export const " ++ Naming.exportName identity.name identity.version ++ " = "
        ++ defineFunction identity.kind ++ "(\x7b").toList :=
    prefix_append (prefix_append List.prefix_rfl _) _
  unfold specFile DeclaresIn
  rw [linesOf_lineFeed]
  obtain ⟨line, hline, hprefix⟩ := declaresIn_joinLines
    (List.mem_append_right _ List.mem_cons_self) (notMem_exportName _ _) hstart
  exact ⟨line, List.mem_append_left _ hline, hprefix⟩

/-- What every file imports, stands in its first line. -/
theorem contractImport_mem_linesOf (identity : Identity) (input output : Option GeneratedCode) :
    contractImport.toList ∈ linesOf (specFile operation options identity input output) := by
  have hone : '\n' ∉ contractImport.toList := by decide +kernel
  have hfirst : contractImport
      ∈ ["import \x7b defineCommand, defineQuery \x7d from '" ++ contractLibrary ++ "';"] :=
    List.mem_singleton.mpr (by decide +kernel)
  unfold specFile
  refine mem_linesOf_file ?_ hone
  simp only [List.mem_append, hfirst, true_or]

/-- **Every name of the file is bound in its text**, by an import or a declaration. -/
theorem SpecParts.Of.binds (h : f.Of operation options text) {symbol : String}
    (hsymbol : symbol ∈ f.boundNames) : Binds text symbol := by
  have hcode : ∀ p ∈ f.parts, p.code ∈ (f.input.map ModelPart.code).toList
      ++ (f.output.map ModelPart.code).toList := by
    rw [Option.toList_map, Option.toList_map, ← List.map_append]
    exact fun p hp => List.mem_map_of_mem hp
  rw [h.text]
  unfold SpecParts.boundNames at hsymbol
  simp only [List.mem_append, List.mem_singleton] at hsymbol
  rcases hsymbol with ((hcontract | himported) | hmodel) | rfl
  · exact .inl ⟨contractImport, contractImport_mem_linesOf _ _ _, hcontract⟩
  · obtain ⟨line, hline, hmem⟩ := List.mem_flatMap.mp himported
    refine .inl ⟨line, ?_, hmem⟩
    obtain ⟨p, hp, hline'⟩ := List.mem_flatMap.mp (Distinct.mem_ofList.mp hline)
    refine mem_linesOf_specFile (hcode p hp) hline' ?_
    obtain ⟨-, -, rfl | ⟨pointer, -, rfl⟩⟩ := (mem_imports h).mp hline
    · decide +kernel
    · exact notMem_componentImport .declaration (Reference.name pointer)
  · obtain ⟨p, hp, hmem⟩ := List.mem_flatMap.mp hmodel
    obtain ⟨b, hb, hblock⟩ := List.mem_filterMap.mp hmem
    obtain ⟨side, hpart⟩ := h.part hp
    obtain ⟨m, -, hm, layout⟩ := hpart.laid
    refine .inr (declaresIn_specFile (hcode p hp) ?_)
    rw [hm, layout.code]
    have hlines : b.lines ⊆ Declaration.blockLines p.blocks := fun line hline =>
      Declaration.mem_blockLines hb hline
    refine (layout.declaring b hb).declaresIn hlines hblock ?_
    rw [hpart.symbols_eq] at hmem
    obtain ⟨path, -, rfl⟩ := List.mem_map.mp hmem
    rw [← (hpart.isPascal_symbolOf path).1]
    exact fun hnewline => absurd (Naming.isAlphanum_of_mem_pascalCase hnewline) (by decide)
  · exact .inr (declaresIn_exportName _ _ _)

/-! ## Names without repetition -/

/-- The names of a file, by their kinds. What the file imports for the operation itself is bound once
anyway. -/
theorem nodup_boundNames_split (h : f.Of operation options text) : f.boundNames.Nodup ↔
    (f.imports.flatMap importedSymbols).Nodup ∧ (f.parts.flatMap ModelPart.symbols).Nodup
      ∧ (∀ a ∈ f.imports.flatMap importedSymbols, ∀ b ∈ f.parts.flatMap ModelPart.symbols, a ≠ b)
      ∧ (∀ a ∈ f.imports.flatMap importedSymbols, a ≠ f.exported)
      ∧ ∀ b ∈ f.parts.flatMap ModelPart.symbols, b ≠ f.exported := by
  have hlibraries : ∀ a ∈ contractSymbols, a ∉ librarySymbols := by decide
  have himported : ∀ a ∈ contractSymbols, ∀ b ∈ f.imports.flatMap importedSymbols, a ≠ b := by
    rintro a ha b hb rfl
    obtain ⟨p, -, hlibrary | ⟨pointer, -, rfl, -⟩⟩ := (mem_importedNames h).mp hb
    · exact hlibraries a ha hlibrary
    · exact referenceSymbol_notMem pointer ha
  have hdeclared : ∀ a ∈ contractSymbols, ∀ b ∈ f.parts.flatMap ModelPart.symbols, a ≠ b := by
    rintro a ha b hb rfl
    obtain ⟨q, hq, path, -, rfl⟩ := (mem_modelNames h).mp hb
    obtain ⟨side, hpart⟩ := h.part hq
    exact symbolOf_notMem hpart path (List.mem_append_left _ ha)
  have hexported : ∀ a ∈ contractSymbols, a ≠ f.exported := by
    rintro a ha rfl
    exact exportName_notMem _ _ (List.mem_append_left _ ha)
  have hcontract : contractSymbols.Nodup := by decide
  unfold SpecParts.boundNames
  rw [importedSymbols_contract, List.nodup_append, List.nodup_append, List.nodup_append]
  simp only [List.forall_mem_append, List.forall_mem_singleton, List.nodup_singleton]
  tauto

/-- **The names that a file binds are different** exactly if they are kept apart. -/
theorem nodup_boundNames (h : f.Of operation options text) : f.boundNames.Nodup ↔ f.Apart := by
  rw [nodup_boundNames_split h, nodup_importedNames h, nodup_modelNames h]
  have hlibrary : ∀ a ∈ librarySymbols, a ≠ f.exported
      ∧ ∀ b ∈ f.parts.flatMap ModelPart.symbols, a ≠ b := by
    intro a ha
    refine ⟨?_, ?_⟩
    · rintro rfl
      exact exportName_notMem _ _ (List.mem_append_right _ ha)
    · rintro b hb rfl
      obtain ⟨q, hq, path, -, rfl⟩ := (mem_modelNames h).mp hb
      obtain ⟨side, hpart⟩ := h.part hq
      exact symbolOf_notMem hpart path (List.mem_append_right _ ha)
  constructor
  · rintro ⟨hother, hnested, hmodels, himported, hexported⟩
    refine ⟨hnested, fun p hp pointer hrefers => ?_, fun q hq path hpath => ?_⟩
    · -- a reference without a name imports nothing, and nothing is named like it
      by_cases hne : referenceSymbol pointer = ""
      · refine ⟨hother p hp pointer hrefers, fun heq => ?_, fun q hq path _ heq => ?_⟩
        · exact exportName_ne_empty _ _ (heq.symm.trans hne)
        · obtain ⟨side, hpart⟩ := h.part hq
          exact (hpart.isPascal_symbolOf path).2 (heq.symm.trans hne)
      · have hmem := (mem_importedNames h).mpr ⟨p, hp, .inr ⟨pointer, hrefers, rfl, hne⟩⟩
        refine ⟨hother p hp pointer hrefers, himported _ hmem, fun q hq path hpath => ?_⟩
        exact hmodels _ hmem _ ((mem_modelNames h).mpr ⟨q, hq, path, hpath, rfl⟩)
    · exact hexported _ ((mem_modelNames h).mpr ⟨q, hq, path, hpath, rfl⟩)
  · intro hapart
    refine ⟨fun p hp pointer hrefers => (hapart.imported p hp pointer hrefers).1, hapart.nested,
      fun a ha => ?_, fun a ha => ?_, fun b hb => ?_⟩
    · obtain ⟨p, hp, hmem | ⟨pointer, hrefers, rfl, -⟩⟩ := (mem_importedNames h).mp ha
      · exact (hlibrary a hmem).2
      · intro b hb
        obtain ⟨q, hq, path, hpath, rfl⟩ := (mem_modelNames h).mp hb
        exact (hapart.imported p hp pointer hrefers).2.2 q hq path hpath
    · obtain ⟨p, hp, hmem | ⟨pointer, hrefers, rfl, -⟩⟩ := (mem_importedNames h).mp ha
      · exact (hlibrary a hmem).1
      · exact (hapart.imported p hp pointer hrefers).2.1
    · obtain ⟨q, hq, path, hpath, rfl⟩ := (mem_modelNames h).mp hb
      exact hapart.exported q hq path hpath

/-- **The names that the file of an operation binds are different** exactly if they are kept apart. Each of
them is imported or declared by a line of the file. The models of the input and those of the output never
have one name; and the symbols of the libraries are the names of no model, and of no operation. -/
theorem nodup_boundNames_iff (hdialect : options.dialect = .declaration)
    (h : operationCode operation options = .ok text) :
    ∃ f : SpecParts, f.Of operation options text ∧ (∀ symbol ∈ f.boundNames, Binds text symbol)
      ∧ (f.boundNames.Nodup ↔ f.Apart) := by
  obtain ⟨f, hf⟩ := exists_specParts hdialect h
  exact ⟨f, hf, fun symbol hsymbol => hf.binds hsymbol, nodup_boundNames hf⟩

/-! ## Two addresses -/

def streetProperties : Members := [(.str "street", .map [(.str "type", .str "string")])]

def streetSchema : Value :=
  .map [(.str "type", .str "object"), (.str "properties", .map streetProperties)]

/-- An owner that is a component, and two addresses. -/
def addressProperties (first second : String) : Members :=
  [(.str "owner", Contract.componentReference "Owner"), (.str first, streetSchema),
    (.str second, streetSchema)]

def addressesSchema (first second : String) : Value :=
  .map [(.str "type", .str "object"), (.str "properties", .map (addressProperties first second))]

/-- An operation that answers with two addresses. -/
def addressesOperation (first second : String) : Operation :=
  { originOperation "" with
    id := "getPets"
    path := "/pets"
    responses := [("200", ⟨none, some "application/json", some (addressesSchema first second)⟩)] }

theorem hoistedPaths_addresses (first second : String) :
    hoistedPaths (addressesSchema first second) = [[first], [second], []] := by
  have hstreet : hoistedPaths streetSchema = [[]] := by
    have hnone : Declaration.fieldPaths "street" (.map [(.str "type", .str "string")]) = [] :=
      Declaration.fieldPaths_of_single fun target htarget _ hnests => by
        cases htarget
        cases hnests.1
    rw [Declaration.hoistedPaths_of_properties rfl rfl rfl]
    unfold streetProperties
    rw [Declaration.memberPaths_cons]
    show Declaration.fieldPaths "street" _ ++ _ ++ _ = _
    rw [hnone, Declaration.memberPaths]
    rfl
  have hnested (key : String) : Declaration.fieldPaths key streetSchema = [[key]] := by
    have hfound : Declaration.nestTarget? streetSchema = some streetSchema := rfl
    rw [Declaration.fieldPaths_of_nests hfound ⟨rfl, .inl rfl⟩ rfl, hstreet]
    rfl
  have howner : Declaration.fieldPaths "owner" (Contract.componentReference "Owner") = [] :=
    Declaration.fieldPaths_of_single fun target htarget => absurd htarget (Option.some_ne_none target).symm
  rw [Declaration.hoistedPaths_of_properties rfl rfl rfl]
  unfold addressProperties
  rw [Declaration.memberPaths_cons, Declaration.memberPaths_cons, Declaration.memberPaths_cons]
  show Declaration.fieldPaths "owner" _ ++ (Declaration.fieldPaths first _ ++
    (Declaration.fieldPaths second _ ++ _)) ++ _ = _
  rw [howner, hnested, hnested, Declaration.memberPaths]
  rfl

/-- The addresses refer to the owner only. -/
theorem pointer_of_refers {pointer first second : String}
    (h : ModelRefers pointer (addressesSchema first second)) :
    pointer = Contract.componentPath ++ "Owner" := by
  have hstreet : ¬ModelRefers pointer streetSchema := by
    intro h
    cases h with
    | property _ _ found mem refers =>
      cases found
      cases List.mem_singleton.mp mem
      cases refers with
      | reference found => cases found
      | items _ _ array _ _ _ => exact absurd array (by decide)
      | nested _ found nests _ =>
        cases found
        cases nests.1
    | items _ absent _ _ => cases absent
  have haddress : ¬Declaration.FieldRefers pointer streetSchema := by
    intro h
    cases h with
    | reference found => cases found
    | items _ _ array _ _ _ => exact absurd array (by decide)
    | nested _ found nests refers =>
      cases found
      exact hstreet refers
  cases h with
  | items _ absent _ _ => cases absent
  | property _ _ found mem refers =>
    cases found
    simp only [addressProperties, List.mem_cons, List.not_mem_nil, or_false, Prod.mk.injEq] at mem
    rcases mem with ⟨-, rfl⟩ | ⟨-, rfl⟩ | ⟨-, rfl⟩
    · cases refers with
      | reference found => exact (Option.some.inj found).symm
      | items other _ _ _ _ _ => cases other
      | nested _ found _ _ => cases found
    · exact absurd refers haddress
    · exact absurd refers haddress

/-- The file of the operation is generated. -/
theorem succeeds_addresses (first second : String) :
    Succeeds (operationCode (addressesOperation first second) codeOnly) := by
  have hleaf : Schema.Exported ["Owner"] (.map [(.str "type", .str "string")]) :=
    .leaf ⟨⟨by simp, rfl⟩, fun t ht => ⟨"string", (Option.some.inj ht).symm, by decide⟩, rfl, rfl,
      nofun, nofun⟩
  have hstreet : Schema.Exported ["Owner"] streetSchema :=
    .object ⟨⟨by simp, rfl⟩, rfl, rfl, rfl, rfl, nofun, nofun⟩ (List.forall_mem_singleton.mpr hleaf)
  have hproperties : ∀ p ∈ addressProperties first second, Schema.Exported ["Owner"] p.2 :=
    List.forall_mem_cons.mpr ⟨.reference (List.mem_singleton_self _),
      List.forall_mem_cons.mpr ⟨hstreet, List.forall_mem_singleton.mpr hstreet⟩⟩
  have hnode : Schema.ObjectNode [(.str "type", .str "object"),
      (.str "properties", .map (addressProperties first second))] (addressProperties first second) :=
    ⟨⟨by simp, rfl⟩, rfl, rfl, rfl, rfl, nofun, nofun⟩
  obtain ⟨output, houtput⟩ :=
    Declaration.succeeds_generateModel hnode hproperties {} "getPetsOutput"
  have hgenerated : generateModel .declaration (addressesSchema first second) "getPetsOutput"
      = .ok output := by
    unfold generateModel Dialect.generateModel addressesSchema
    dsimp only
    rw [houtput]
    rfl
  have hinput : inputSchema (addressesOperation first second) = .ok none := rfl
  have hidentity : identityOf (addressesOperation first second) codeOnly.namePrefix
      = .ok ⟨"getPets", 1, .query⟩ := rfl
  exact ⟨_, operationCode_eq_ok.mpr ⟨none, none, some output, _, hinput, rfl,
    map_eq_ok.mpr ⟨output, hgenerated, rfl⟩, hidentity, rfl⟩⟩

/-- The only model of the file is that of its output. -/
theorem parts_addresses {first second : String}
    (h : f.Of (addressesOperation first second) codeOnly text) :
    ∃ p, f.parts = [p] ∧ p.schema = addressesSchema first second ∧ p.Of "getPets" "Output"
      ∧ f.exported = "GetPetsSpec" := by
  have hnone : inputSchema (addressesOperation first second) = .ok none := rfl
  have hinput : f.input = none :=
    Option.map_eq_none_iff.mp (Except.ok.inj (h.inputSchema.symm.trans hnone))
  have hsome : (addressesOperation first second).outputSchema
      = some (addressesSchema first second) := rfl
  obtain ⟨p, hp, hschema⟩ := Option.map_eq_some_iff.mp (h.outputSchema.symm.trans hsome)
  have hidentity : identityOf (addressesOperation first second) codeOnly.namePrefix
      = .ok ⟨"getPets", 1, .query⟩ := rfl
  have hsame := Except.ok.inj (h.identity.symm.trans hidentity)
  refine ⟨p, ?_, hschema, h.output p hp, ?_⟩
  · unfold SpecParts.parts
    rw [hinput, hp]
    rfl
  · unfold SpecParts.exported
    rw [hsame]
    decide +kernel

/-- A home and a work address, and their owner: all names of the file are different. -/
theorem bound_once_of_addresses :
    codeOnly.dialect = .declaration ∧ ∃ text f,
      operationCode (addressesOperation "home" "work") codeOnly = .ok text
        ∧ SpecParts.Of f (addressesOperation "home" "work") codeOnly text ∧ f.boundNames.Nodup := by
  obtain ⟨text, htext⟩ := succeeds_addresses "home" "work"
  obtain ⟨f, hf, -, hiff⟩ := nodup_boundNames_iff rfl htext
  obtain ⟨p, hparts, hschema, hpart, hexported⟩ := parts_addresses hf
  refine ⟨rfl, text, f, htext, hf, hiff.mpr ?_⟩
  have hsymbols : ∀ path ∈ hoistedPaths p.schema, p.symbolOf path
      ∈ ["GetPetsOutputHome", "GetPetsOutputWork", "GetPetsOutput"] := by
    rw [hschema, hoistedPaths_addresses]
    intro path hpath
    rw [hpart.symbolOf_eq]
    revert path
    decide +kernel
  refine ⟨?_, ?_, ?_⟩ <;> rw [hparts] <;> refine List.forall_mem_singleton.mpr ?_
  · rw [hschema, hoistedPaths_addresses]
    decide +kernel
  · intro pointer hrefers
    rw [hschema] at hrefers
    have howner : referenceSymbol (Contract.componentPath ++ "Owner") = "Owner" := by decide +kernel
    rw [pointer_of_refers hrefers, howner, hexported]
    refine ⟨by decide, by decide, List.forall_mem_singleton.mpr fun path hpath heq => ?_⟩
    have hmem := hsymbols path hpath
    rw [← heq] at hmem
    exact absurd hmem (by decide)
  · intro path hpath heq
    have hmem := hsymbols path hpath
    rw [heq, hexported] at hmem
    exact absurd hmem (by decide)

/-- **Two properties that are one in Pascal case** have one model name: the file declares
`GetPetsOutputHomeAddress` twice. -/
theorem bound_twice_of_addresses :
    ∃ text f, operationCode (addressesOperation "home-address" "home_address") codeOnly = .ok text
      ∧ SpecParts.Of f (addressesOperation "home-address" "home_address") codeOnly text
      ∧ f.parts.flatMap ModelPart.symbols
        = ["GetPetsOutputHomeAddress", "GetPetsOutputHomeAddress", "GetPetsOutput"]
      ∧ ¬f.boundNames.Nodup := by
  obtain ⟨text, htext⟩ := succeeds_addresses "home-address" "home_address"
  obtain ⟨f, hf⟩ := exists_specParts rfl htext
  obtain ⟨p, hparts, hschema, hpart, -⟩ := parts_addresses hf
  have hsymbols : f.parts.flatMap ModelPart.symbols
      = ["GetPetsOutputHomeAddress", "GetPetsOutputHomeAddress", "GetPetsOutput"] := by
    have hname : p.symbolOf = fun path => Naming.pascalCase "getPets" ++ "Output" ++ pascalPath path :=
      funext hpart.symbolOf_eq
    rw [hparts, List.flatMap_singleton, hpart.symbols_eq, hschema, hoistedPaths_addresses, hname]
    decide +kernel
  refine ⟨text, f, htext, hf, hsymbols, fun hnodup => ?_⟩
  have hmodels := ((nodup_boundNames_split hf).mp hnodup).2.1
  rw [hsymbols] at hmodels
  exact absurd hmodels (by decide)

end ApiContract.Import
