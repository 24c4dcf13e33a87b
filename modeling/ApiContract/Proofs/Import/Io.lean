import ApiContract.Proofs.Import.Bindings
import ApiContract.Proofs.Reference.Chain

/-!
# The io section of a generated file

The file of an operation names its input and output by the symbols of their models. The code of a model
stands in the file and declares the symbol, in every dialect. A declaration that only refers to another
model is no exception to the naming, but declares nothing, and nothing is imported for it either. An
output is such a reference when it could not be resolved; an input never is one.

* **`binds_joinLines_iff`** — the names that a text binds, line by line.
* **`IoSection`** / **`exists_io`** — the models of a file, and the lines that name them.
* **`IoSection.declares`** — what its models declare, the file declares.
* **`mem_boundNames_of_unresolved`** — what a file binds whose output is a reference.
* **`io_bound_iff`** — the headline.
-/

namespace ApiContract.Import

open Codegen OpenApi
open Codegen.Declaration (ModelRefers hoistedPaths)

variable {operation : Operation} {options : Options} {text : String}
  {input output : Option GeneratedCode} {f : SpecParts}

/-! ## Texts that bind a symbol -/

/-- The identifiers between the braces of a line. -/
def identifiersIn (line : List Char) : List (List Char) :=
  let inside := (line.dropWhile (· ≠ '\x7b')).takeWhile (· ≠ '\x7d')
  (inside.splitOnP fun c => !Naming.isIdentifierPart c).filter (!·.isEmpty)

theorem mem_importedSymbols_iff {line symbol : String} :
    symbol ∈ importedSymbols line ↔ symbol.toList ∈ identifiersIn line.toList := by
  have hline : importedSymbols line = (identifiersIn line.toList).map String.ofList := rfl
  rw [hline, List.mem_map]
  exact ⟨fun ⟨cs, hcs, heq⟩ => by rwa [← heq, String.toList_ofList],
    fun h => ⟨symbol.toList, h, String.ofList_toList⟩⟩

instance (text symbol : String) : Decidable (Binds text symbol) :=
  decidable_of_iff ((∃ line ∈ linesOf text, symbol.toList ∈ identifiersIn line)
    ∨ DeclaresIn text symbol) <| or_congr_left
      ⟨fun ⟨line, hline, hsymbol⟩ => ⟨String.ofList line, by rwa [String.toList_ofList],
          mem_importedSymbols_iff.mpr (by rwa [String.toList_ofList])⟩,
        fun ⟨line, hline, hsymbol⟩ => ⟨line.toList, hline, mem_importedSymbols_iff.mp hsymbol⟩⟩

/-- What lines bind together, one of them does. -/
theorem binds_joinLines_iff {ls : List String} (h : ls ≠ []) {symbol : String} :
    Binds (joinLines ls ++ "\n") symbol ↔ ∃ piece ∈ ls, Binds piece symbol := by
  have hlines : ∀ line, line ∈ linesOf (joinLines ls ++ "\n")
      ↔ (∃ piece ∈ ls, line ∈ linesOf piece) ∨ line = [] := by
    intro line
    rw [linesOf_lineFeed, linesOf_joinLines h, List.mem_append, List.mem_flatMap, List.mem_singleton]
  have hempty : ∀ line : String, line.toList = [] → symbol ∉ importedSymbols line := by
    intro line hline
    rw [String.toList_eq_nil_iff.mp hline]
    exact List.not_mem_nil
  have hstart : ¬(declarationStart symbol).toList <+: [] := by
    intro hprefix
    unfold declarationStart at hprefix
    rw [List.prefix_nil, String.toList_append, String.toList_append, List.append_eq_nil_iff,
      List.append_eq_nil_iff] at hprefix
    exact absurd hprefix.1.1 (by decide)
  constructor
  · rintro (⟨line, hline, hsymbol⟩ | ⟨line, hline, hprefix⟩)
    · rcases (hlines _).mp hline with ⟨piece, hpiece, hline⟩ | hline
      · exact ⟨piece, hpiece, .inl ⟨line, hline, hsymbol⟩⟩
      · exact absurd hsymbol (hempty line hline)
    · rcases (hlines _).mp hline with ⟨piece, hpiece, hline⟩ | rfl
      · exact ⟨piece, hpiece, .inr ⟨line, hline, hprefix⟩⟩
      · exact absurd hprefix hstart
  · rintro ⟨piece, hpiece, ⟨line, hline, hsymbol⟩ | ⟨line, hline, hprefix⟩⟩
    · exact .inl ⟨line, (hlines _).mpr (.inl ⟨piece, hpiece, hline⟩), hsymbol⟩
    · exact .inr ⟨line, (hlines _).mpr (.inl ⟨piece, hpiece, hline⟩), hprefix⟩

/-! ## The models of a file -/

/-- The line of the io section that names a model. -/
def ioLine (side : String) (model : GeneratedCode) : String :=
  "    " ++ side ++ ": " ++ model.name ++ ","

/-- The file is made of these models of the input and output of the operation, and its io section names
them. -/
structure IoSection (operation : Operation) (options : Options) (text : String)
    (input output : Option GeneratedCode) : Prop where
  file : ∃ identity, text = specFile operation options identity input output
  ofInput : ∃ schema, inputSchema operation = .ok schema
    ∧ generateModel? options.dialect schema (operation.id ++ "Input") = .ok input
  ofOutput : generateModel? options.dialect operation.outputSchema (operation.id ++ "Output")
    = .ok output
  inputLine : ∀ m ∈ input, (ioLine "input" m).toList ∈ linesOf text
  outputLine : ∀ m ∈ output, (ioLine "output" m).toList ∈ linesOf text

/-- A model is generated if there is a schema. -/
theorem exists_schema_of_model {dialect : Dialect} {schema : Option Value} {name : String}
    {code : Option GeneratedCode} (h : generateModel? dialect schema name = .ok code)
    {m : GeneratedCode} (hm : m ∈ code) :
    ∃ node, schema = some node ∧ dialect.generateModel {} node name .null = .ok m := by
  cases schema with
  | none =>
    cases h
    cases hm
  | some node =>
    obtain ⟨code, hcode, rfl⟩ := map_eq_ok.mp h
    cases Option.mem_some.mp hm
    exact ⟨node, rfl, generateModel_eq_ok hcode⟩

theorem notMem_name {dialect : Dialect} {schema : Option Value} {name : String}
    {code : Option GeneratedCode} (h : generateModel? dialect schema name = .ok code)
    {m : GeneratedCode} (hm : m ∈ code) : '\n' ∉ m.name.toList := by
  obtain ⟨node, -, hcode⟩ := exists_schema_of_model h hm
  have hpointer (pointer : String) : '\n' ∉ (referenceSymbol pointer).toList := fun h =>
    absurd (Naming.isAlphanum_of_mem_pascalCase h) (by decide)
  rw [name_of_generateModel hcode]
  unfold componentSymbol
  split
  · split
    · exact hpointer _
    · exact Declaration.notMem_modelName _
  · exact Declaration.notMem_modelName _

/-- A line of the declaration of an operation is one of the file. -/
theorem mem_linesOf_specDeclaration {identity : Identity} {line : String}
    (h : line ∈ specDeclaration operation options identity input output)
    (hone : '\n' ∉ line.toList) :
    line.toList ∈ linesOf (specFile operation options identity input output) := by
  unfold specFile
  exact mem_linesOf_file (List.mem_append_right _ h) hone

theorem notMem_ioLine {side : String} (hside : '\n' ∉ side.toList) {m : GeneratedCode}
    (h : '\n' ∉ m.name.toList) : '\n' ∉ (ioLine side m).toList := by
  unfold ioLine
  simp [String.toList_append, hside, h]

/-- Every file has its models, and names them. -/
theorem exists_io (h : operationCode operation options = .ok text) :
    ∃ input output, IoSection operation options text input output := by
  obtain ⟨schema, input, output, identity, hschema, hinput, houtput, -, rfl⟩ :=
    operationCode_eq_ok.mp h
  refine ⟨input, output, ⟨identity, rfl⟩, ⟨schema, hschema, hinput⟩, houtput, fun m hm => ?_,
    fun m hm => ?_⟩
  · refine mem_linesOf_specDeclaration ?_ (notMem_ioLine (by decide) (notMem_name hinput hm))
    rw [Option.mem_def.mp hm]
    simp [specDeclaration, ioLine]
  · refine mem_linesOf_specDeclaration ?_ (notMem_ioLine (by decide) (notMem_name houtput hm))
    rw [Option.mem_def.mp hm]
    simp [specDeclaration, ioLine]

/-- **A model that declares its symbol** declares it in the file it stands in. -/
theorem IoSection.declares (h : IoSection operation options text input output) {m : GeneratedCode}
    (hm : m ∈ input.toList ++ output.toList) (hdeclares : DeclaresIn m.code m.name) :
    DeclaresIn text m.name := by
  obtain ⟨identity, rfl⟩ := h.file
  exact declaresIn_specFile hm hdeclares

/-- The input of an operation is an object, and no reference. -/
theorem pointer?_of_inputSchema {schema : Value} (h : inputSchema operation = .ok (some schema)) :
    Reference.pointer? schema = none := by
  obtain ⟨fields, -, h⟩ := bind_eq_ok.mp h
  split at h
  · cases h
  · cases h
    rfl

/-! ## References that are left -/

/-- The output of the operation is still a reference: it could not be resolved. -/
def Unresolved (operation : Operation) (pointer : String) : Prop :=
  operation.outputSchema.bind Reference.pointer? = some pointer

/-- **A schema that is read is a reference** only if its pointer leads nowhere, or in the end to what is
no mapping. -/
theorem resolve_of_schemaAt {document node schema : Value} {pointer : String}
    (h : schemaAt document node = .ok (some schema))
    (found : Reference.pointer? schema = some pointer) :
    Reference.Astray document pointer
      ∨ ∃ target, Reference.resolve document schema = .ok target ∧ target.isMap = false := by
  unfold schemaAt at h
  split at h
  · cases h
  · obtain ⟨target, htarget, h⟩ := bind_eq_ok.mp h
    cases h
    split at found
    · exact .inl (((Reference.resolve_ends_chain document node).2.2 target htarget).1 pointer found)
    · next hmap =>
      rw [if_neg hmap]
      exact .inr ⟨target, htarget, Bool.eq_false_iff.mpr hmap⟩

/-- The file binds the symbol whatever its output is: it is one of the library, that of the operation,
that of a component that the input refers to, or that of a model of the input. -/
def SpecParts.Elsewhere (f : SpecParts) (symbol : String) : Prop :=
  symbol ∈ librarySymbols ∨ symbol = f.exported
    ∨ ∃ p ∈ f.input,
        (∃ pointer, ModelRefers pointer p.schema ∧ referenceSymbol pointer = symbol ∧ symbol ≠ "")
          ∨ ∃ path ∈ hoistedPaths p.schema, p.symbolOf path = symbol

theorem not_modelRefers_of_reference {schema : Value} {pointer : String}
    (found : Reference.pointer? schema = some pointer) (target : String) :
    ¬ModelRefers target schema := by
  intro h
  cases h with
  | property other => cases found.symm.trans other
  | items other => cases found.symm.trans other

theorem SpecParts.Of.exists_reference (h : f.Of operation options text) {pointer : String}
    (hunresolved : Unresolved operation pointer) :
    ∃ q, f.output = some q ∧ Reference.pointer? q.schema = some pointer := by
  unfold Unresolved at hunresolved
  rw [h.outputSchema] at hunresolved
  obtain ⟨schema, hschema, hpointer⟩ := Option.bind_eq_some_iff.mp hunresolved
  obtain ⟨q, hq, rfl⟩ := Option.map_eq_some_iff.mp hschema
  exact ⟨q, hq, hpointer⟩

/-- **A file whose output is a reference** binds what it imports in any case, and what it binds for
other reasons. -/
theorem mem_boundNames_of_unresolved (h : f.Of operation options text) {pointer : String}
    (hunresolved : Unresolved operation pointer) {symbol : String} :
    symbol ∈ f.boundNames ↔ symbol ∈ contractSymbols ∨ f.Elsewhere symbol := by
  obtain ⟨q, hq, hpointer⟩ := h.exists_reference hunresolved
  have hparts : ∀ p, p ∈ f.parts ↔ p ∈ f.input ∨ p = q := by
    intro p
    unfold SpecParts.parts
    rw [hq, List.mem_append, Option.mem_toList, Option.toList_some, List.mem_singleton,
      Option.mem_def]
  -- the output imports the library as every model does, and nothing else comes from it
  have hnone := not_modelRefers_of_reference hpointer
  have hpaths := Declaration.hoistedPaths_of_reference hpointer
  unfold SpecParts.boundNames SpecParts.Elsewhere
  rw [List.mem_append, List.mem_append, List.mem_append, mem_importedNames h, mem_modelNames h,
    importedSymbols_contract, List.mem_singleton]
  constructor
  · rintro (((hcontract | ⟨p, hp, hlibrary | hrefers⟩) | ⟨p, hp, hpath⟩) | hexported)
    · exact .inl hcontract
    · exact .inr (.inl hlibrary)
    · rcases (hparts p).mp hp with hp | rfl
      · exact .inr (.inr (.inr ⟨p, hp, .inl hrefers⟩))
      · obtain ⟨target, hrefers, -⟩ := hrefers
        exact absurd hrefers (hnone target)
    · rcases (hparts p).mp hp with hp | rfl
      · exact .inr (.inr (.inr ⟨p, hp, .inr hpath⟩))
      · obtain ⟨path, hmem, -⟩ := hpath
        rw [hpaths] at hmem
        cases hmem
    · exact .inr (.inr (.inl hexported))
  · rintro (hcontract | hlibrary | hexported | ⟨p, hp, hrefers | hpath⟩)
    · exact .inl (.inl (.inl hcontract))
    · exact .inl (.inl (.inr ⟨q, (hparts q).mpr (.inr rfl), .inl hlibrary⟩))
    · exact .inr hexported
    · exact .inl (.inl (.inr ⟨p, (hparts p).mpr (.inl hp), .inr hrefers⟩))
    · exact .inl (.inr ⟨p, (hparts p).mpr (.inl hp), hpath⟩)

/-! ## Declarations -/

/-- The models of a file are those of its parts. -/
theorem SpecParts.Of.codes_eq (h : f.Of operation options text)
    (hdialect : options.dialect = .declaration) (hio : IoSection operation options text input output) :
    f.input.map ModelPart.code = input ∧ f.output.map ModelPart.code = output := by
  have hone {part : Option ModelPart} {code : Option GeneratedCode} {side : String}
      (hpart : ∀ p ∈ part, p.Of operation.id side)
      (hcode : generateModel? .declaration (part.map ModelPart.schema) (operation.id ++ side)
        = .ok code) : part.map ModelPart.code = code := by
    cases part with
    | none =>
      cases hcode
      rfl
    | some p =>
      obtain ⟨m, hm, rfl⟩ := map_eq_ok.mp hcode
      have hgenerated := (hpart p rfl).generated
      rw [(hpart p rfl).name] at hgenerated
      exact congrArg some (Except.ok.inj (hgenerated.symm.trans (generateModel_eq_ok hm)))
  obtain ⟨schema, hschema, hinput⟩ := hio.ofInput
  have houtput := hio.ofOutput
  cases h.inputSchema.symm.trans hschema
  rw [hdialect] at hinput houtput
  rw [h.outputSchema] at houtput
  exact ⟨hone h.input hinput, hone h.output houtput⟩

/-- The symbol of a model that is no reference is one of those that its code declares. -/
theorem name_mem_symbols {p : ModelPart} {id side : String} (h : p.Of id side)
    (other : Reference.pointer? p.schema = none) : p.code.name ∈ p.symbols := by
  have hname : p.code.name = p.symbolOf [] := by
    rw [Declaration.name_of_generateModel h.generated]
    unfold componentSymbol ModelPart.symbolOf
    rw [other]
    exact String.append_empty.symm
  rw [hname, h.symbols_eq]
  exact List.mem_map_of_mem (Declaration.nil_mem_hoistedPaths other)

theorem SpecParts.symbols_subset_boundNames {p : ModelPart} (hp : p ∈ f.parts) :
    p.symbols ⊆ f.boundNames := by
  intro symbol hsymbol
  unfold SpecParts.boundNames
  exact List.mem_append_left _ (List.mem_append_right _ (List.mem_flatMap.mpr ⟨p, hp, hsymbol⟩))

/-- The symbol of the input is bound. -/
theorem input_mem_boundNames (h : f.Of operation options text) {p : ModelPart} (hp : p ∈ f.input) :
    p.code.name ∈ f.boundNames := by
  have hschema := h.inputSchema
  rw [Option.mem_def.mp hp] at hschema
  exact SpecParts.symbols_subset_boundNames (List.mem_append_left _ (Option.mem_toList.mpr hp))
    (name_mem_symbols (h.input p hp) (pointer?_of_inputSchema hschema))

/-- **The symbol of the output is bound**, unless it is that of a reference that is left and nothing
else has it. -/
theorem output_mem_boundNames_iff (h : f.Of operation options text) {q : ModelPart}
    (hq : q ∈ f.output) : q.code.name ∈ f.boundNames
      ↔ ∀ pointer, Unresolved operation pointer → f.Elsewhere (referenceSymbol pointer) := by
  have hschema : operation.outputSchema = some q.schema := by
    rw [h.outputSchema, Option.mem_def.mp hq]
    rfl
  have hleft : ∀ pointer, Unresolved operation pointer
      ↔ Reference.pointer? q.schema = some pointer := by
    intro pointer
    unfold Unresolved
    rw [hschema]
    rfl
  cases hpointer : Reference.pointer? q.schema with
  | none =>
    refine iff_of_true ?_ fun pointer hunresolved => ?_
    · exact SpecParts.symbols_subset_boundNames (List.mem_append_right _ (Option.mem_toList.mpr hq))
        (name_mem_symbols (h.output q hq) hpointer)
    · cases hpointer.symm.trans ((hleft pointer).mp hunresolved)
  | some pointer =>
    have hunresolved := (hleft pointer).mpr hpointer
    have hname : q.code.name = referenceSymbol pointer := by
      rw [Declaration.name_of_generateModel (h.output q hq).generated]
      unfold componentSymbol
      rw [hpointer]
    -- no component has the name of a function that every file imports: that begins in lower case
    rw [hname, mem_boundNames_of_unresolved h hunresolved,
      or_iff_right (referenceSymbol_notMem pointer)]
    refine ⟨fun helsewhere target htarget => ?_, fun hall => hall pointer hunresolved⟩
    cases hunresolved.symm.trans htarget
    exact helsewhere

/-! ## The two names -/

/-- **The io section refers to models that the file declares**: the input in any case; the output, but for
a declaration of a reference that could not be resolved, whose name then is bound if something else of
the file has it. -/
theorem io_bound_iff (h : operationCode operation options = .ok text) :
    ∃ input output, IoSection operation options text input output
      ∧ (∀ m ∈ input, DeclaresIn text m.name)
      ∧ ((options.dialect = .declaration → ∀ pointer, ¬Unresolved operation pointer) →
          ∀ m ∈ output, DeclaresIn text m.name)
      ∧ (options.dialect = .declaration → ∃ f : SpecParts, f.Of operation options text
          ∧ (∀ symbol ∈ f.boundNames, Binds text symbol)
          ∧ (∀ m ∈ input, m.name ∈ f.boundNames)
          ∧ ∀ m ∈ output, m.name ∈ f.boundNames
            ↔ ∀ pointer, Unresolved operation pointer → f.Elsewhere (referenceSymbol pointer)) := by
  obtain ⟨input, output, hio⟩ := exists_io h
  refine ⟨input, output, hio, fun m hm => ?_, fun hresolved m hm => ?_, fun hdialect => ?_⟩
  · obtain ⟨schema, hschema, hmodel⟩ := hio.ofInput
    obtain ⟨node, rfl, hcode⟩ := exists_schema_of_model hmodel hm
    exact hio.declares (List.mem_append_left _ (Option.mem_toList.mpr hm))
      (declaresIn_name hcode fun _ => pointer?_of_inputSchema hschema)
  · obtain ⟨node, hnode, hcode⟩ := exists_schema_of_model hio.ofOutput hm
    refine hio.declares (List.mem_append_right _ (Option.mem_toList.mpr hm))
      (declaresIn_name hcode fun hdialect => Option.eq_none_iff_forall_ne_some.mpr ?_)
    intro pointer hpointer
    refine hresolved hdialect pointer ?_
    unfold Unresolved
    rw [hnode]
    exact hpointer
  · obtain ⟨f, hf⟩ := exists_specParts hdialect h
    obtain ⟨rfl, rfl⟩ := hf.codes_eq hdialect hio
    refine ⟨f, hf, fun symbol hsymbol => hf.binds hsymbol, fun m hm => ?_, fun m hm => ?_⟩
    · obtain ⟨p, hp, rfl⟩ := Option.map_eq_some_iff.mp hm
      exact input_mem_boundNames hf hp
    · obtain ⟨q, hq, rfl⟩ := Option.map_eq_some_iff.mp hm
      exact output_mem_boundNames_iff hf hq

/-- The file of two addresses has their model, and declares it. -/
theorem io_bound_of_addresses :
    ∃ text, operationCode (addressesOperation "home" "work") codeOnly = .ok text
      ∧ "    output: GetPetsOutput,".toList ∈ linesOf text
      ∧ DeclaresIn text "GetPetsOutput" := by
  obtain ⟨text, htext⟩ := succeeds_addresses "home" "work"
  obtain ⟨input, output, hio, -, hdeclared, -⟩ := io_bound_iff htext
  obtain ⟨m, hm, hmodel⟩ := map_eq_ok.mp hio.ofOutput
  have hname : m.name = "GetPetsOutput" := by
    rw [name_of_generateModel (generateModel_eq_ok hm)]
    decide +kernel
  subst hmodel
  have hline : ioLine "output" m = "    output: GetPetsOutput," := by
    unfold ioLine
    rw [hname]
    decide
  refine ⟨text, htext, ?_, ?_⟩
  · rw [← hline]
    exact hio.outputLine m rfl
  · rw [← hname]
    have hnone : (addressesOperation "home" "work").outputSchema.bind Reference.pointer? = none := rfl
    exact hdeclared (fun _ pointer hunresolved => nomatch hnone.symm.trans hunresolved) m rfl

/-! ## A thing in another document -/

/-- A reference to another document. -/
def thingReference : Value := .map [(.str "$ref", .str "other.yaml#/Thing")]

/-- A document with an operation that answers with it. -/
def thingDocument : Value :=
  .map [(.str "openapi", .str "3.0.0"),
    (.str "paths", .map [(.str "/thing", .map [(.str "get", .map [
      (.str "operationId", .str "getThing"),
      (.str "responses", .map [(.str "200", .map [(.str "content", .map [
        (.str "application/json", .map [(.str "schema", thingReference)])])])])])])])]

/-- That operation, as it is read. -/
def thingOperation : Operation :=
  { originOperation "" with
    id := "getThing"
    path := "/thing"
    responses := [("200", ⟨none, some "application/json", some thingReference⟩)] }

/-- What is generated for the reference. -/
def thingCode : GeneratedCode where
  code := "// Reference to other.yaml#/Thing"
  fileName := Naming.fileName "getThingOutput"
  imports := [libraryImport]
  name := "Thing"

theorem generateModel_thing :
    generateModel .declaration thingReference "getThingOutput" = .ok thingCode := by
  unfold generateModel Dialect.generateModel Declaration.generateModel
  rw [Declaration.model]
  rfl

/-- **A name that nothing binds**: the output is `Thing`, which is neither declared nor imported. -/
theorem io_unbound_of_thing :
    ∃ api text, Api.ofDocument thingDocument = .ok api ∧ thingOperation ∈ api.operations
      ∧ operationCode thingOperation codeOnly = .ok text
      ∧ "    output: Thing,".toList ∈ linesOf text ∧ ¬Binds text "Thing" := by
  have hversion : detectVersion thingDocument = .ok "3.0" := by cbv
  have hoperations : [thingOperation] = (harvestPaths thingDocument).operations := by
    rw [harvestPaths_operations]
    cbv
  have hcode : operationCode thingOperation codeOnly
      = .ok (specFile thingOperation codeOnly ⟨"getThing", 1, .query⟩ none (some thingCode)) := by
    have houtput : generateModel? .declaration thingOperation.outputSchema "getThingOutput"
        = .ok (some thingCode) := by
      show some <$> generateModel .declaration thingReference "getThingOutput" = _
      rw [generateModel_thing]
      rfl
    exact operationCode_eq_ok.mpr ⟨none, none, some thingCode, _, rfl, rfl, houtput, rfl, rfl⟩
  refine ⟨⟨thingDocument, "3.0", _, [], [thingOperation], [],
    (harvestPaths thingDocument).warnings⟩, _, Api.ofDocument_eq_ok.mpr
      ⟨rfl, hversion, rfl, rfl, hoperations, rfl, rfl, [], rfl, rfl⟩, List.mem_singleton_self _,
    hcode, ?_, ?_⟩
  · exact mem_linesOf_specDeclaration (by simp [specDeclaration, thingCode]) (by decide)
  · -- piece by piece, since the text as a whole is too long to be decided
    unfold specFile
    rw [binds_joinLines_iff (by simp)]
    decide +kernel

end ApiContract.Import
