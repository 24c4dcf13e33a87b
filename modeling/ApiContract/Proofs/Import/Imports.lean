import ApiContract.Proofs.Codegen.Declaration
import ApiContract.Proofs.Codegen.References
import ApiContract.Proofs.Import.Files

/-!
# The models that an operation imports

The file of an operation imports a model for every component that its input or output refers to. The
line is made of the symbol of the component: the module is the symbol in kebab case. The models
themselves are generated into files made of the names of the components. A symbol in kebab case is
the name in kebab case only if the words of the name are still those of the symbol, which has no
separators; so the module that is imported need not be there.

* **`operationCode_eq_ok`** — what the file of an operation is made of.
* **`mem_linesOf_code`** — what the models of an operation import, its file imports.
* **`generatedModels_filter_eq_iff`** — which components the models of a file come from.
* **`component_imports_iff`** — the headline.
-/

namespace ApiContract.Import

open Codegen OpenApi

variable {api : Api} {options : Options} {operation : Operation} {item : Imported}

/-! ## The file of an operation -/

/-- **The file of an operation** is made of the models of its input and output, and its identity. -/
theorem operationCode_eq_ok {text : String} : operationCode operation options = .ok text ↔
    ∃ schema input output identity, inputSchema operation = .ok schema
      ∧ generateModel? options.dialect schema (operation.id ++ "Input") = .ok input
      ∧ generateModel? options.dialect operation.outputSchema (operation.id ++ "Output") = .ok output
      ∧ identityOf operation options.namePrefix = .ok identity
      ∧ specFile operation options identity input output = text := by
  unfold operationCode
  constructor
  · intro h
    obtain ⟨schema, hschema, h⟩ := bind_eq_ok.mp h
    obtain ⟨input, hinput, h⟩ := bind_eq_ok.mp h
    obtain ⟨output, houtput, h⟩ := bind_eq_ok.mp h
    obtain ⟨identity, hidentity, h⟩ := bind_eq_ok.mp h
    exact ⟨schema, input, output, identity, hschema, hinput, houtput, hidentity, pure_eq_ok.mp h⟩
  · rintro ⟨schema, input, output, identity, hschema, hinput, houtput, hidentity, htext⟩
    exact bind_eq_ok.mpr ⟨schema, hschema, bind_eq_ok.mpr ⟨input, hinput, bind_eq_ok.mpr
      ⟨output, houtput, bind_eq_ok.mpr ⟨identity, hidentity, pure_eq_ok.mpr htext⟩⟩⟩⟩

/-- What a model of an operation imports, is imported in the file. -/
theorem mem_linesOf_specFile {identity : Identity} {input output : Option GeneratedCode}
    {code : GeneratedCode} (hcode : code ∈ input.toList ++ output.toList) {line : String}
    (hline : line ∈ code.imports) (hone : '\n' ∉ line.toList) :
    line.toList ∈ linesOf (specFile operation options identity input output) := by
  have hmem : line ∈ Distinct.ofList ((input.toList ++ output.toList).flatMap (·.imports)) :=
    Distinct.mem_ofList.mpr (List.mem_flatMap.mpr ⟨code, hcode, hline⟩)
  unfold specFile
  refine mem_linesOf_file ?_ hone
  simp only [List.mem_append, hmem, true_or, or_true]

/-- The models of an operation, one for its input and one for its output. -/
theorem exists_code_of_operationCode {text : String} (h : operationCode operation options = .ok text)
    {schema : Value}
    (hschema : inputSchema operation = .ok (some schema) ∨ operation.outputSchema = some schema) :
    ∃ name code, generateModel options.dialect schema name = .ok code
      ∧ ∀ line ∈ code.imports, '\n' ∉ line.toList → line.toList ∈ linesOf text := by
  obtain ⟨inputNode, input, output, identity, hinputNode, hinput, houtput, -, rfl⟩ :=
    operationCode_eq_ok.mp h
  rcases hschema with hschema | hschema
  · cases hinputNode.symm.trans hschema
    obtain ⟨code, hcode, rfl⟩ := map_eq_ok.mp hinput
    exact ⟨_, code, hcode, fun line hline => mem_linesOf_specFile (by simp) hline⟩
  · rw [hschema] at houtput
    obtain ⟨code, hcode, rfl⟩ := map_eq_ok.mp houtput
    exact ⟨_, code, hcode, fun line hline => mem_linesOf_specFile (by simp) hline⟩

/-- The code of a schema is that of its dialect. -/
theorem generateModel_eq_ok {dialect : Dialect} {schema : Value} {name : String}
    {code : GeneratedCode} (h : generateModel dialect schema name = .ok code) :
    dialect.generateModel {} schema name .null = .ok code := by
  unfold generateModel at h
  cases hcode : dialect.generateModel {} schema name .null with
  | ok code' =>
    rw [hcode] at h
    cases h
    rfl
  | error cause =>
    rw [hcode] at h
    cases h

/-- The line that an operation imports a component with. -/
def componentImport (dialect : Dialect) (name : String) : String :=
  importLine [Naming.pascalCase name ++ dialect.suffix]
    ("../models/" ++ Naming.kebabCase (Naming.pascalCase name))

theorem notMem_componentImport (dialect : Dialect) (name : String) :
    '\n' ∉ (componentImport dialect name).toList := by
  have hpascal : '\n' ∉ (Naming.pascalCase name).toList := fun h =>
    absurd (Naming.isAlphanum_of_mem_pascalCase h) (by decide)
  have hkebab : '\n' ∉ (Naming.kebabCase (Naming.pascalCase name)).toList := by
    intro h
    rcases Naming.mem_kebabCase h with hsep | halnum
    · exact absurd hsep (by decide)
    · exact absurd halnum (by decide)
  have hsuffix : '\n' ∉ dialect.suffix.toList := by cases dialect <;> decide
  unfold componentImport importLine
  rw [String.intercalate_singleton]
  simp [String.toList_append, hpascal, hkebab, hsuffix]

/-- **The file of an operation imports** the components that its input or output refers to. -/
theorem mem_linesOf_code (hdialect : options.dialect = .declaration ∨ options.dialect = .zod)
    (himported : importOperation api options operation = .imported item) {schema : Value}
    (hschema : inputSchema operation = .ok (some schema) ∨ operation.outputSchema = some schema)
    {pointer name : String} (hrefers : options.dialect.Refers schema pointer)
    (hpointer : Reference.segments? pointer = some ["components", "schemas", name]) :
    (componentImport options.dialect name).toList ∈ linesOf item.code := by
  have hcode := (importedFrom_of_importSpec (importOperation_eq_imported himported)).code
  obtain ⟨modelName, code, hmodel, hlines⟩ := exists_code_of_operationCode hcode hschema
  have hline : modelImport options.dialect {} (referenceSymbol pointer)
      = componentImport options.dialect name := by
    unfold modelImport referenceSymbol componentImport
    rw [Reference.name_of_segments? hpointer rfl]
    rfl
  refine hlines _ ?_ (notMem_componentImport _ _)
  refine (mem_imports_iff hdialect (generateModel_eq_ok hmodel)).mpr (.inr ⟨pointer, hrefers, hline⟩)

/-! ## The files of components -/

/-- The components that can be generated. -/
def generatedComponents (api : Api) (options : Options) : List (String × Value) :=
  api.schemas.filter fun c => (generateModel options.dialect c.2 c.1).isOk

/-- A model stands in the file of the name of a component. -/
theorem exists_component_of_mem {model : GeneratedCode} (h : model ∈ generatedModels api options) :
    ∃ c ∈ api.schemas, model.fileName = Naming.fileName c.1 := by
  rw [generatedModels_eq] at h
  obtain ⟨c, hc, hcode⟩ := List.mem_filterMap.mp h
  cases hmodel : generateModel options.dialect c.2 c.1 with
  | ok code =>
    rw [hmodel] at hcode
    cases hcode
    exact ⟨c, hc, fileName_of_generateModel (generateModel_eq_ok hmodel)⟩
  | error cause =>
    rw [hmodel] at hcode
    cases hcode

/-- A list with one image has one element, if every element has an image. -/
theorem filterMap_eq_singleton_iff {α β : Type} {f : α → Option β} {xs : List α} {y : β}
    (hsome : ∀ x ∈ xs, (f x).isSome = true) :
    xs.filterMap f = [y] ↔ ∃ x, xs = [x] ∧ f x = some y := by
  cases xs with
  | nil => simp
  | cons x rest =>
    obtain ⟨z, hz⟩ := Option.isSome_iff_exists.mp (hsome x List.mem_cons_self)
    rw [List.filterMap_cons_some hz]
    cases rest with
    | nil => simp [hz]
    | cons x' more =>
      obtain ⟨z', hz'⟩ := Option.isSome_iff_exists.mp (hsome x' (by simp))
      rw [List.filterMap_cons_some hz']
      simp

/-- **One model has a file** if one component that can be generated has its words. -/
theorem generatedModels_filter_eq_iff {symbol : String} {model : GeneratedCode} :
    (generatedModels api options).filter (fun m => m.fileName = Naming.fileName symbol) = [model]
      ↔ ∃ c, (generatedComponents api options).filter
            (fun c => Naming.lowerWords c.1 = Naming.lowerWords symbol) = [c]
          ∧ generateModel options.dialect c.2 c.1 = .ok model := by
  have hsame : (generatedModels api options).filter (fun m => m.fileName = Naming.fileName symbol)
      = ((generatedComponents api options).filter
          fun c => Naming.lowerWords c.1 = Naming.lowerWords symbol).filterMap
        fun c => (generateModel options.dialect c.2 c.1).toOption := by
    rw [generatedModels_eq]
    unfold generatedComponents
    rw [List.filter_filterMap, List.filter_filter, List.filterMap_filter]
    refine List.filterMap_congr fun c _ => ?_
    cases hcode : generateModel options.dialect c.2 c.1 with
    | ok code =>
      have hfile := fileName_of_generateModel (generateModel_eq_ok hcode)
      have hwords : code.fileName = Naming.fileName symbol
          ↔ Naming.lowerWords c.1 = Naming.lowerWords symbol := by
        rw [hfile, Naming.fileName_eq_iff]
      simp [Except.toOption, Except.isOk, Except.toBool, Option.filter_some, hwords]
    | error cause => simp [Except.toOption, Except.isOk, Except.toBool]
  rw [hsame, filterMap_eq_singleton_iff]
  · refine exists_congr fun c => and_congr_right fun _ => ?_
    cases generateModel options.dialect c.2 c.1 <;> simp [Except.toOption]
  · intro c hc
    have hok := (List.mem_filter.mp (List.mem_filter.mp hc).1).2
    cases hcode : generateModel options.dialect c.2 c.1 with
    | ok code => rfl
    | error cause =>
      rw [hcode] at hok
      cases hok

/-- **The import of a component** stands in the file of an operation whose input or output refers to
it. The module that it names is generated once, and declares the symbol, exactly if one component that
can be generated has the words of the symbol and provides it. -/
theorem component_imports_iff
    (hdialect : options.dialect = .declaration ∨ options.dialect = .zod)
    (himported : importOperation api options operation = .imported item) {schema : Value}
    (hschema : inputSchema operation = .ok (some schema) ∨ operation.outputSchema = some schema)
    {pointer name : String} (hrefers : options.dialect.Refers schema pointer)
    (hpointer : Reference.segments? pointer = some ["components", "schemas", name]) :
    (componentImport options.dialect name).toList ∈ linesOf item.code
      ∧ ((∃ model, (generatedModels api options).filter
              (fun m => m.fileName = Naming.kebabCase (Naming.pascalCase name) ++ ".ts") = [model]
            ∧ model.Declares options.dialect (Naming.pascalCase name))
          ↔ ∃ c, (generatedComponents api options).filter
              (fun c => Naming.lowerWords c.1 = Naming.lowerWords (Naming.pascalCase name)) = [c]
            ∧ Provides options.dialect c (Naming.pascalCase name)) := by
  refine ⟨mem_linesOf_code hdialect himported hschema hrefers hpointer, ?_⟩
  constructor
  · rintro ⟨model, hone, hdeclares⟩
    obtain ⟨c, hc, hmodel⟩ := generatedModels_filter_eq_iff.mp hone
    exact ⟨c, hc, (declares_iff hdialect (generateModel_eq_ok hmodel)).mp hdeclares⟩
  · rintro ⟨c, hc, hprovides⟩
    have hok : (generateModel options.dialect c.2 c.1).isOk = true := by
      have hmem : c ∈ [c] := List.mem_singleton_self c
      rw [← hc] at hmem
      exact (List.mem_filter.mp (List.mem_filter.mp hmem).1).2
    cases hmodel : generateModel options.dialect c.2 c.1 with
    | ok model =>
      exact ⟨model, generatedModels_filter_eq_iff.mpr ⟨c, hc, hmodel⟩,
        (declares_iff hdialect (generateModel_eq_ok hmodel)).mpr hprovides⟩
    | error cause =>
      rw [hmodel] at hok
      cases hok

/-! ## A point -/

/-- An object whose property `at` is a component. -/
def placeSchema (component : String) : Value :=
  .map [(.str "type", .str "object"),
    (.str "properties", .map [(.str "at", Contract.componentReference component)])]

/-- A document with a component, and an operation that answers with such an object. -/
def originDocument (component : String) : Value :=
  .map [(.str "openapi", .str "3.0.0"),
    (.str "paths", .map [(.str "/origin", .map [(.str "get", .map [
      (.str "operationId", .str "getOrigin"),
      (.str "responses", .map [(.str "200", .map [(.str "content", .map [
        (.str "application/json", .map [(.str "schema", placeSchema component)])])])])])])]),
    (.str "components", .map [(.str "schemas",
      .map [(.str component, .map [(.str "type", .str "object")])])])]

/-- That operation, as it is read. -/
def originOperation (component : String) : Operation where
  id := "getOrigin"
  method := .get
  path := "/origin"
  summary := none
  description := none
  tags := []
  pathParams := []
  queryParams := []
  headerParams := []
  cookieParams := []
  requestBody := none
  responses := [("200", ⟨none, some "application/json", some (placeSchema component)⟩)]
  deprecated := false
  security := none
  identity := none

/-- Its code alone. -/
def codeOnly : Options := { buildSpecs := false }

theorem ofDocument_origin : ∃ api, Api.ofDocument (originDocument "point_3d") = .ok api
    ∧ api.operations = [originOperation "point_3d"]
    ∧ api.schemas = [("point_3d", .map [(.str "type", .str "object")])] := by
  have hversion : detectVersion (originDocument "point_3d") = .ok "3.0" := by cbv
  have hoperations : [originOperation "point_3d"]
      = (harvestPaths (originDocument "point_3d")).operations := by
    rw [harvestPaths_operations]
    cbv
  exact ⟨⟨originDocument "point_3d", "3.0", _, [], [originOperation "point_3d"], _,
    (harvestPaths (originDocument "point_3d")).warnings⟩, Api.ofDocument_eq_ok.mpr
      ⟨rfl, hversion, rfl, rfl, hoperations, rfl, rfl, _, rfl, rfl⟩, rfl, rfl⟩

theorem outputSchema_origin (component : String) :
    (originOperation component).outputSchema = some (placeSchema component) := rfl

/-- The object refers to the component. -/
theorem modelRefers_place (component : String) :
    Declaration.ModelRefers (Contract.componentPath ++ component) (placeSchema component) :=
  .property rfl rfl rfl (List.mem_singleton_self (Scalar.str "at", _)) (.reference rfl)

theorem succeeds_place (component name : String) :
    Succeeds (generateModel .declaration (placeSchema component) name) := by
  have node : Schema.ObjectNode
      [(.str "type", .str "object"),
        (.str "properties", .map [(.str "at", Contract.componentReference component)])]
      [(.str "at", Contract.componentReference component)] :=
    ⟨⟨by simp, rfl⟩, rfl, rfl, rfl, rfl, nofun, nofun⟩
  have exported : ∀ m ∈ [((.str "at" : Scalar), Contract.componentReference component)],
      Schema.Exported [component] m.2 := by
    intro m hm
    rw [List.mem_singleton.mp hm]
    exact .reference (List.mem_singleton_self _)
  obtain ⟨code, hcode⟩ := Declaration.succeeds_generateModel node exported {} name
  unfold generateModel Dialect.generateModel placeSchema
  dsimp only
  rw [hcode]
  exact ⟨code, rfl⟩

/-- The operation is imported. -/
theorem importOperation_origin (api : Api) (component : String) :
    ∃ item, importOperation api codeOnly (originOperation component) = .imported item := by
  have hinput : inputSchema (originOperation component) = .ok none := rfl
  have hidentity : identityOf (originOperation component) codeOnly.namePrefix
      = .ok ⟨"getOrigin", 1, .query⟩ := rfl
  obtain ⟨output, houtput⟩ := succeeds_place component ((originOperation component).id ++ "Output")
  obtain ⟨code, hcode⟩ : Succeeds (operationCode (originOperation component) codeOnly) :=
    ⟨_, operationCode_eq_ok.mpr ⟨none, none, some output, _, hinput, rfl,
      map_eq_ok.mpr ⟨output, houtput, rfl⟩, hidentity, rfl⟩⟩
  obtain ⟨item, hitem⟩ : Succeeds (importSpec api codeOnly (originOperation component)) :=
    succeeds_bind.mpr ⟨code, hcode, succeeds_bind.mpr ⟨none, rfl,
      succeeds_bind.mpr ⟨_, hidentity, succeeds_pure _⟩⟩⟩
  have hskip : skipReason? (originOperation component) codeOnly = none := rfl
  refine ⟨item, ?_⟩
  unfold importOperation
  rw [hskip, hitem]

/-- An object without properties is generated under any name. -/
theorem isOk_object (name : String) :
    (generateModel .declaration (.map [(.str "type", .str "object")]) name).isOk = true := by
  unfold generateModel Dialect.generateModel Declaration.generateModel
  rw [Declaration.model]
  rfl

theorem component_import_of_pet :
    ∃ item, importOperation petApi codeOnly (originOperation "Pet") = .imported item
      ∧ (originOperation "Pet").outputSchema = some (placeSchema "Pet")
      ∧ Dialect.declaration.Refers (placeSchema "Pet") (Contract.componentPath ++ "Pet")
      ∧ Reference.segments? (Contract.componentPath ++ "Pet") = some ["components", "schemas", "Pet"]
      ∧ (componentImport .declaration "Pet").toList ∈ linesOf item.code
      ∧ ∃ model, (generatedModels petApi codeOnly).filter
            (fun m => m.fileName = Naming.kebabCase (Naming.pascalCase "Pet") ++ ".ts") = [model]
          ∧ model.Declares .declaration (Naming.pascalCase "Pet") := by
  obtain ⟨item, himported⟩ := importOperation_origin petApi "Pet"
  have hpointer : Reference.segments? (Contract.componentPath ++ "Pet")
      = some ["components", "schemas", "Pet"] := Reference.segments?_component (by decide)
  have hdialect : codeOnly.dialect = .declaration ∨ codeOnly.dialect = .zod := .inl rfl
  have hpascal : Naming.pascalCase "Pet" = "Pet" := by decide +kernel
  obtain ⟨hline, hfile⟩ := component_imports_iff hdialect himported
    (.inr (outputSchema_origin "Pet")) (modelRefers_place "Pet") hpointer
  refine ⟨item, himported, outputSchema_origin "Pet", modelRefers_place "Pet", hpointer, hline,
    hfile.mpr ⟨("Pet", .map [(.str "type", .str "object")]), ?_, ?_⟩⟩
  · have hall : generatedComponents petApi codeOnly = petApi.schemas :=
      List.filter_eq_self.mpr fun c hc => by
        rw [List.mem_singleton.mp hc]
        exact isOk_object "Pet"
    rw [hall, hpascal]
    exact List.filter_eq_self.mpr fun c hc => by
      rw [List.mem_singleton.mp hc]
      exact decide_eq_true rfl
  · unfold Provides
    rw [hpascal]
    exact ⟨hpascal, by decide⟩

/-- **A module that is not there**: the words of the component are `point` and `3d`, and its symbol
`Point3d` is one word. -/
theorem point_not_found :
    ∃ api item, Api.ofDocument (originDocument "point_3d") = .ok api
      ∧ originOperation "point_3d" ∈ api.operations
      ∧ ("point_3d", .map [(.str "type", .str "object")]) ∈ api.schemas
      ∧ importOperation api codeOnly (originOperation "point_3d") = .imported item
      ∧ (originOperation "point_3d").outputSchema = some (placeSchema "point_3d")
      ∧ Dialect.declaration.Refers (placeSchema "point_3d") "#/components/schemas/point_3d"
      ∧ "import \x7b Point3d \x7d from '../models/point3d';".toList ∈ linesOf item.code
      ∧ (∀ model ∈ generatedModels api codeOnly, model.fileName = "point-3d.ts")
      ∧ ¬∃ model, (generatedModels api codeOnly).filter (fun m => m.fileName = "point3d.ts") = [model]
          ∧ model.Declares .declaration "Point3d" := by
  obtain ⟨api, hapi, hoperations, hschemas⟩ := ofDocument_origin
  obtain ⟨item, himported⟩ := importOperation_origin api "point_3d"
  have hrefers : Dialect.declaration.Refers (placeSchema "point_3d") "#/components/schemas/point_3d" :=
    modelRefers_place "point_3d"
  have hline : componentImport .declaration "point_3d"
      = "import \x7b Point3d \x7d from '../models/point3d';" := by decide +kernel
  have hfiles : ∀ model ∈ generatedModels api codeOnly, model.fileName = "point-3d.ts" := by
    intro model hmodel
    obtain ⟨c, hc, hfile⟩ := exists_component_of_mem hmodel
    rw [hschemas, List.mem_singleton] at hc
    rw [hfile, hc]
    decide +kernel
  refine ⟨api, item, hapi, by rw [hoperations]; exact List.mem_singleton_self _,
    by rw [hschemas]; exact List.mem_singleton_self _, himported, outputSchema_origin _, hrefers, ?_,
    hfiles, ?_⟩
  · rw [← hline]
    have hdialect : codeOnly.dialect = .declaration ∨ codeOnly.dialect = .zod := .inl rfl
    have hpointer : Reference.segments? (Contract.componentPath ++ "point_3d")
        = some ["components", "schemas", "point_3d"] := Reference.segments?_component (by decide)
    exact mem_linesOf_code hdialect himported (.inr (outputSchema_origin _)) hrefers hpointer
  · rintro ⟨model, hone, -⟩
    have hmem : model ∈ [model] := List.mem_singleton_self model
    rw [← hone] at hmem
    obtain ⟨hmodel, hfile⟩ := List.mem_filter.mp hmem
    rw [hfiles model hmodel] at hfile
    exact absurd hfile (by decide)

end ApiContract.Import
