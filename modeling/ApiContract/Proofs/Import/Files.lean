import ApiContract.Cli.Importing
import ApiContract.Proofs.Codegen.Symbols
import ApiContract.Proofs.Files.Tree
import ApiContract.Proofs.Import.Batch
import ApiContract.Proofs.Naming
import ApiContract.Proofs.OpenApi.OperationIds

/-!
# The files of an import

An import plans one file for every operation and one for every model of a component. The operations
and the models have directories of their own, so two planned files have one path only within one of
them, and there exactly if the names they are made of have the same words up to case: the file of an
operation does not say its version, and the model of a component that only refers to another one goes
under the name of that one.

A command that goes through has gone through each of its steps, and what it says changes nothing in
the workspace. So an import that goes through, and is no dry run, has written the planned files of a
document one after the other, and has changed nothing after that.

* **`map_fileName_specs`** / **`map_name_models`** — what the files are named after.
* **`placeOf_plannedFile`** — files at one place have one path.
* **`planned_paths_nodup_iff`** — when the planned files differ.
* **`Action.ends_bind`** — the steps of an action.
* **`importDocument_writes`** — runs of the command.
-/

namespace ApiContract.Import

open Codegen Files OpenApi

/-! ## Names -/

/-- The models that are generated of the components of a document. -/
def generatedModels (api : Api) (options : Options) : List GeneratedCode :=
  (Cli.partitionModels (componentModels api options)).2

/-- The files that an import plans. -/
def importedFiles (api : Api) (options : Options) (root : Path) (conventions : Conventions) :
    List PlannedFile :=
  plannedFiles root conventions (importAll api options).specs (generatedModels api options)

/-- The names of the contracts of the operations that are imported. -/
def importedNames (api : Api) (options : Options) : List String :=
  api.operations.filterMap fun o =>
    match importOperation api options o with
    | .imported _ => (identityOf o options.namePrefix).toOption.map (·.name)
    | _ => none

/-- The symbols of the models of the components that can be generated. -/
def generatedSymbols (api : Api) (options : Options) : List String :=
  (api.schemas.filter fun c => (generateModel options.dialect c.2 c.1).isOk).map
    (componentSymbol options.dialect)

/-- No two operations, and no two models, have names of the same words up to case. -/
structure NamesApart (api : Api) (options : Options) : Prop where
  operations : ((importedNames api options).map Naming.lowerWords).Nodup
  models : ((generatedSymbols api options).map Naming.lowerWords).Nodup

variable {api : Api} {options : Options}

theorem map_fileName_specs (api : Api) (options : Options) :
    (importAll api options).specs.map (·.fileName)
      = (importedNames api options).map Naming.fileName := by
  rw [importAll_eq]
  unfold Result.specs Result.ofApi importedNames
  dsimp only
  rw [List.filterMap_map, List.map_filterMap, List.map_filterMap]
  refine List.filterMap_congr fun o _ => ?_
  rw [Function.comp_apply]
  cases houtcome : importOperation api options o with
  | imported item =>
    obtain ⟨identity, hidentity, hfile⟩ :=
      (importedFrom_of_importSpec (importOperation_eq_imported houtcome)).file
    dsimp only
    rw [hidentity, Option.map_some, hfile]
    rfl
  | skipped id reason => rfl
  | failed id cause => rfl

theorem generatedModels_eq (api : Api) (options : Options) :
    generatedModels api options
      = api.schemas.filterMap fun c => (generateModel options.dialect c.2 c.1).toOption := by
  unfold generatedModels Cli.partitionModels componentModels
  dsimp only
  rw [List.filterMap_map]
  rfl

/-- The model of a component has the symbol of the component. -/
theorem name_of_component {dialect : Dialect} {c : String × Value} {code : GeneratedCode}
    (h : generateModel dialect c.2 c.1 = .ok code) : code.name = componentSymbol dialect c := by
  unfold generateModel at h
  cases hcode : dialect.generateModel {} c.2 c.1 .null with
  | ok code' =>
    rw [hcode] at h
    cases h
    exact name_of_generateModel hcode
  | error cause =>
    rw [hcode] at h
    cases h

theorem map_name_models (api : Api) (options : Options) :
    (generatedModels api options).map (·.name) = generatedSymbols api options := by
  rw [generatedModels_eq]
  unfold generatedSymbols
  rw [List.map_filterMap, ← List.filterMap_eq_filter, List.map_filterMap]
  refine List.filterMap_congr fun c _ => ?_
  cases hcode : generateModel options.dialect c.2 c.1 with
  | ok code =>
    have hname := name_of_component hcode
    simp [Except.toOption, Except.isOk, Except.toBool, Option.guard, hcode, hname]
  | error cause => simp [Except.toOption, Except.isOk, Except.toBool, Option.guard, hcode]

/-! ## Paths -/

theorem isName_fileName (name : String) : Path.isName (Naming.fileName name) = true := by
  have hlast : ∀ s : String, s.toList.getLast? ≠ some 's' → Naming.fileName name ≠ s := by
    rintro s hs rfl
    apply hs
    unfold Naming.fileName
    rw [String.toList_append, List.getLast?_append]
    rfl
  unfold Path.isName
  simp [hlast "" (by decide), hlast "." (by decide)]

theorem child_fileName (base : Path) (name : String) :
    base.child (Naming.fileName name)
      = { base with parts := base.parts ++ [Naming.fileName name] } :=
  Path.child_of_notMem base (Naming.notMem_fileName name) (isName_fileName name)

/-- In a directory, two names have one file if their words are the same up to case. -/
theorem child_fileName_eq_iff {base : Path} {a b : String} :
    base.child (Naming.fileName a) = base.child (Naming.fileName b)
      ↔ Naming.lowerWords a = Naming.lowerWords b := by
  rw [child_fileName, child_fileName, ← Naming.fileName_eq_iff]
  simp

/-- The file of a name stands at the end of the place of its directory. -/
theorem placeOf_child_fileName (w : Workspace) (base : Path) (name : String) :
    w.placeOf (base.child (Naming.fileName name)) = w.placeOf base ++ [Naming.fileName name] := by
  have hdots : Naming.fileName name ≠ ".." := by
    intro hdots
    have hts : ".ts".toList <:+ (Naming.fileName name).toList := by
      unfold Naming.fileName
      rw [String.toList_append]
      exact List.suffix_append _ _
    rw [hdots] at hts
    exact absurd hts (by decide)
  have habsolute : (w.absolute (base.child (Naming.fileName name))).parts
      = (w.absolute base).parts ++ [Naming.fileName name] := by
    rw [child_fileName]
    unfold Workspace.absolute Path.join
    dsimp only
    split
    · rw [List.append_assoc]
    · rfl
  unfold Workspace.placeOf Tree.placeOf
  rw [habsolute, List.foldl_append, List.foldl_cons, List.foldl_nil, Tree.step, if_neg hdots]

variable {root : Path} {conventions : Conventions}

/-- A planned file stands in one of the two directories, under the file of some name. -/
theorem mem_importedFiles {f : PlannedFile} (h : f ∈ importedFiles api options root conventions) :
    ∃ directory ∈ [conventions.operations, conventions.models], ∃ name,
      f.1 = (root.child directory).child (Naming.fileName name) := by
  rcases List.mem_append.mp h with h | h
  · obtain ⟨item, hitem, rfl⟩ := List.mem_map.mp h
    have hfile : item.fileName ∈ (importAll api options).specs.map (·.fileName) :=
      List.mem_map.mpr ⟨item, hitem, rfl⟩
    rw [map_fileName_specs] at hfile
    obtain ⟨name, -, hname⟩ := List.mem_map.mp hfile
    refine ⟨conventions.operations, List.mem_cons_self, name, ?_⟩
    unfold operationFile
    rw [hname]
  · obtain ⟨model, -, rfl⟩ := List.mem_map.mp h
    refine ⟨conventions.models, List.mem_cons_of_mem _ (List.mem_singleton_self _), model.name, ?_⟩
    unfold modelFile
    dsimp only

/-- **Planned files at one place have one path**, if the directories are at different ones. -/
theorem path_eq_of_placeOf_eq {w : Workspace}
    (hdirectories : w.placeOf (root.child conventions.operations)
      ≠ w.placeOf (root.child conventions.models))
    {f g : PlannedFile} (hf : f ∈ importedFiles api options root conventions)
    (hg : g ∈ importedFiles api options root conventions) (h : w.placeOf f.1 = w.placeOf g.1) :
    f.1 = g.1 := by
  obtain ⟨d, hd, a, ha⟩ := mem_importedFiles hf
  obtain ⟨d', hd', b, hb⟩ := mem_importedFiles hg
  rw [ha, hb, placeOf_child_fileName, placeOf_child_fileName] at h
  obtain ⟨hplace, hname⟩ := List.append_inj' h (by simp)
  have hsame : d = d' := by
    rcases List.mem_pair.mp hd with rfl | rfl
    · rcases List.mem_pair.mp hd' with rfl | rfl
      · rfl
      · exact absurd hplace hdirectories
    · rcases List.mem_pair.mp hd' with rfl | rfl
      · exact absurd hplace.symm hdirectories
      · rfl
  rw [ha, hb, hsame, List.head_eq_of_cons_eq hname]

/-- The paths of the planned files. -/
theorem map_path_importedFiles (api : Api) (options : Options) (root : Path)
    (conventions : Conventions) :
    (importedFiles api options root conventions).map (·.1)
      = (importedNames api options).map
          (fun name => (root.child conventions.operations).child (Naming.fileName name))
        ++ (generatedSymbols api options).map
          (fun name => (root.child conventions.models).child (Naming.fileName name)) := by
  have hfiles := congrArg (List.map (root.child conventions.operations).child)
    (map_fileName_specs api options)
  rw [List.map_map, List.map_map] at hfiles
  unfold importedFiles plannedFiles operationFile modelFile
  rw [List.map_append, List.map_map, List.map_map, ← map_name_models, List.map_map]
  simp only [Function.comp_def] at hfiles ⊢
  rw [hfiles]

theorem nodup_map_congr {α β γ : Type} {f : α → β} {g : α → γ}
    (h : ∀ a b, f a = f b ↔ g a = g b) (l : List α) : (l.map f).Nodup ↔ (l.map g).Nodup := by
  unfold List.Nodup
  rw [List.pairwise_map, List.pairwise_map]
  simp only [ne_eq, h]

/-- **The paths of an import are pairwise distinct** exactly if the names of its operations are apart
and those of its models are. When all files are written, every generated code is there exactly if the
files at one path have the same code. -/
theorem planned_paths_nodup_iff (api : Api) (options : Options) (root : Path)
    (conventions : Conventions) (w : Workspace)
    (hdirectories : w.placeOf (root.child conventions.operations)
      ≠ w.placeOf (root.child conventions.models)) :
    (((importedFiles api options root conventions).map (·.1)).Nodup ↔ NamesApart api options)
      ∧ ∀ w', w.writeAll (importedFiles api options root conventions) = (.ok (), w') →
        ((∀ f ∈ importedFiles api options root conventions, w'.Holds f.1 f.2)
          ↔ ∀ f ∈ importedFiles api options root conventions,
              ∀ g ∈ importedFiles api options root conventions, f.1 = g.1 → f.2 = g.2) := by
  constructor
  · have hdisjoint : ((importedNames api options).map
        (fun name => (root.child conventions.operations).child (Naming.fileName name))).Disjoint
        ((generatedSymbols api options).map
          (fun name => (root.child conventions.models).child (Naming.fileName name))) := by
      intro p hp hp'
      obtain ⟨a, -, ha⟩ := List.mem_map.mp hp
      obtain ⟨b, -, hb⟩ := List.mem_map.mp hp'
      have hplace := congrArg w.placeOf (ha.trans hb.symm)
      rw [placeOf_child_fileName, placeOf_child_fileName] at hplace
      exact hdirectories (List.append_inj' hplace (by simp)).1
    rw [map_path_importedFiles, List.nodup_append']
    rw [nodup_map_congr (fun a b => child_fileName_eq_iff), nodup_map_congr (fun a b => child_fileName_eq_iff)]
    exact ⟨fun h => ⟨h.1, h.2.1⟩, fun h => ⟨h.operations, h.models, hdisjoint⟩⟩
  · intro w' hwrite
    rw [Workspace.holds_writeAll_iff hwrite]
    constructor
    · intro h f hf g hg hpath
      exact h f hf g hg (congrArg w.placeOf hpath)
    · intro h f hf g hg hplace
      exact h f hf g hg (path_eq_of_placeOf_eq hdirectories hf hg hplace)

/-- A working directory with nothing in it. -/
def emptyDirectory : Workspace :=
  { directory := { anchor := "/", parts := ["work"] }, remote := ⟨fun _ => .timedOut⟩ }

def sourceRoot : Files.Path := { parts := ["src", "contracts"] }

/-- A document with one component. -/
def petApi : Api where
  document := .map []
  version := "3.0"
  info := ⟨"Pets", "1", none⟩
  servers := []
  operations := []
  schemas := [("Pet", .map [(.str "type", .str "object")])]
  warnings := []

theorem planned_paths_of_pet :
    emptyDirectory.placeOf (sourceRoot.child "operations")
        ≠ emptyDirectory.placeOf (sourceRoot.child "models")
      ∧ ((importedFiles petApi {} sourceRoot {}).map (·.1)).Nodup := by
  have hdirectories : emptyDirectory.placeOf (sourceRoot.child "operations")
      ≠ emptyDirectory.placeOf (sourceRoot.child "models") := by decide +kernel
  -- there is one component, and so at most one symbol
  have hmodels : ((generatedSymbols petApi {}).map Naming.lowerWords).Nodup := by
    have hone := (List.filter_sublist (p := fun c : String × Value =>
      (generateModel .declaration c.2 c.1).isOk) (l := petApi.schemas)).map (componentSymbol .declaration)
    exact (List.nodup_singleton _).sublist (hone.map Naming.lowerWords)
  exact ⟨hdirectories, (planned_paths_nodup_iff petApi {} sourceRoot {} emptyDirectory hdirectories).1.mpr
    ⟨List.nodup_nil, hmodels⟩⟩

/-! ## A component that only refers to another one -/

def petFile : Files.Path := { parts := ["src", "contracts", "models", "pet.ts"] }

/-- The code of an empty model. -/
def petCode : String :=
  joinLines ["export const Pet = defineSchemaModel(\x7b", "  name: 'Pet',", "  fields: \x7b\x7d,", "\x7d);"]

/-- A document with a component and another one that only refers to it. -/
def aliasDocument : Value :=
  .map [(.str "openapi", .str "3.0.0"), (.str "paths", .map []), (.str "components", .map [
    (.str "schemas", .map [(.str "Pet", .map [(.str "type", .str "object")]),
      (.str "Animal", Contract.componentReference "Pet")])])]

/-- The two models have one path, and the one that is written last takes the place of the other. -/
theorem importedFiles_alias {api : Api} (hoperations : api.operations = [])
    (hschemas : api.schemas = [("Pet", .map [(.str "type", .str "object")]),
      ("Animal", Contract.componentReference "Pet")]) :
    importedFiles api {} sourceRoot {}
      = [(petFile, petCode),
        (petFile, "// Reference to #/components/schemas/Pet")] := by
  have hpet : ∃ code, generateModel .declaration (.map [(.str "type", .str "object")]) "Pet" = .ok code
      ∧ code.name = "Pet" ∧ code.code = petCode := by
    have hempty : Declaration.emptyModel "Pet" .null = .ok ⟨"Pet", none, [], petCode⟩ := rfl
    have hmodel : Declaration.model (.map [(.str "type", .str "object")]) "Pet" .null
        = .ok ⟨"Pet", none, [], petCode⟩ := by
      rw [Declaration.model]
      exact hempty
    unfold generateModel Dialect.generateModel Declaration.generateModel
    rw [hmodel]
    exact ⟨_, rfl, rfl, rfl⟩
  have halias : ∃ code, generateModel .declaration (Contract.componentReference "Pet") "Animal" = .ok code
      ∧ code.name = "Pet" ∧ code.code = "// Reference to #/components/schemas/Pet" := by
    have hsymbol : referenceSymbol (Contract.componentPath ++ "Pet") = "Pet" := by decide +kernel
    have hmodel : Declaration.model (Contract.componentReference "Pet") "Animal" .null
        = .ok ⟨"Pet", none, [], "// Reference to #/components/schemas/Pet"⟩ := by
      rw [Declaration.model, Reference.pointer?_component]
      dsimp only
      rw [hsymbol]
      rfl
    unfold generateModel Dialect.generateModel Declaration.generateModel
    rw [hmodel]
    exact ⟨_, rfl, rfl, rfl⟩
  obtain ⟨pet, hpet, hpetName, hpetCode⟩ := hpet
  obtain ⟨other, halias, haliasName, haliasCode⟩ := halias
  have hmodels : generatedModels api {} = [pet, other] := by
    rw [generatedModels_eq, hschemas]
    show [("Pet", _), ("Animal", _)].filterMap (fun c : String × Value =>
      (generateModel .declaration c.2 c.1).toOption) = _
    rw [List.filterMap_cons, hpet, List.filterMap_cons, halias]
    rfl
  have hspecs : (importAll api {}).specs = [] := by
    rw [importAll_eq]
    unfold Result.ofApi Result.specs
    rw [hoperations]
    rfl
  have hfile : Naming.fileName "Pet" = "pet.ts" := by decide +kernel
  have hpath : (sourceRoot.child "models").child "pet.ts"
      = petFile := by decide +kernel
  unfold importedFiles plannedFiles modelFile
  rw [hmodels, hspecs, List.map_nil, List.nil_append, List.map_cons, List.map_cons, List.map_nil,
    hpetName, haliasName, hpetCode, haliasCode, hfile]
  show [((sourceRoot.child "models").child "pet.ts", petCode),
    ((sourceRoot.child "models").child "pet.ts", "// Reference to #/components/schemas/Pet")] = _
  rw [hpath]

theorem ofDocument_alias : ∃ api, Api.ofDocument aliasDocument = .ok api ∧ api.operations = []
    ∧ api.schemas = [("Pet", .map [(.str "type", .str "object")]),
      ("Animal", Contract.componentReference "Pet")] := by
  have hversion : detectVersion aliasDocument = .ok "3.0" := by cbv
  exact ⟨⟨aliasDocument, "3.0", ⟨"Untitled API", "0.0.0", none⟩, [], [], _, []⟩,
    Api.ofDocument_eq_ok.mpr ⟨rfl, hversion, rfl, rfl, rfl, rfl, rfl, _, rfl, rfl⟩, rfl, rfl⟩

/-- **The model of the component is lost**: everything is written, and one file is left of two. -/
theorem model_lost_of_alias :
    ∃ api, Api.ofDocument aliasDocument = .ok api
      ∧ emptyDirectory.placeOf (sourceRoot.child "operations")
        ≠ emptyDirectory.placeOf (sourceRoot.child "models")
      ∧ ¬((importedFiles api {} sourceRoot {}).map (·.1)).Nodup
      ∧ ∃ w', emptyDirectory.writeAll (importedFiles api {} sourceRoot {}) = (.ok (), w')
        ∧ (petFile, petCode) ∈ importedFiles api {} sourceRoot {} ∧ ¬w'.Holds petFile petCode := by
  obtain ⟨api, hapi, hoperations, hschemas⟩ := ofDocument_alias
  have hcode : petCode ≠ "// Reference to #/components/schemas/Pet" := by decide +kernel
  refine ⟨api, hapi, by decide +kernel, ?_⟩
  rw [importedFiles_alias hoperations hschemas]
  refine ⟨by simp, _, rfl, List.mem_cons_self, fun h => hcode ?_⟩
  -- what is found there is what was written last
  have hlast : some (Entry.file "// Reference to #/components/schemas/Pet") = some (.file petCode) :=
    h.lookup
  exact (Entry.file.inj (Option.some.inj hlast)).symm

end ApiContract.Import

/-! ## Runs of the import command -/

namespace ApiContract.Cli

namespace Action

variable {α β : Type} {r r' : Run}

/-- An action goes through, with a result and the run after it. -/
def Ends (x : Action α) (r : Run) (a : α) (r' : Run) : Prop := x.run.run r = (.ok a, r')

theorem run_bind (x : Action α) (f : α → Action β) (r : Run) :
    (x >>= f).run.run r = match x.run.run r with
      | (.ok a, next) => (f a).run.run next
      | (.error stop, next) => (.error stop, next) := by
  unfold ExceptT.run StateT.run
  simp only [bind, ExceptT.bind, ExceptT.mk, StateT.bind, ExceptT.bindCont]
  cases x r with
  | mk result next => cases result <;> rfl

/-- One step after another. -/
theorem ends_bind {x : Action α} {f : α → Action β} {b : β} (h : Ends (x >>= f) r b r') :
    ∃ a next, Ends x r a next ∧ Ends (f a) next b r' := by
  unfold Ends at h ⊢
  rw [run_bind] at h
  cases hx : x.run.run r with
  | mk result next =>
    rw [hx] at h
    cases result with
    | ok a => exact ⟨a, next, rfl, h⟩
    | error stop => cases h

theorem ends_attempt {x : Except Failure α} {a : α} (h : Ends (attempt x) r a r') :
    x = .ok a ∧ r' = r := by
  cases x with
  | ok a' =>
    cases h
    exact ⟨rfl, rfl⟩
  | error cause => cases h

theorem ends_query {f : Workspace → Except Failure α} {a : α} (h : Ends (query f) r a r') :
    f r.workspace = .ok a ∧ r' = r := by
  obtain ⟨run, next, hget, h⟩ := ends_bind h
  cases hget
  exact ends_attempt h

/-- Saying something leaves the workspace. -/
theorem workspace_of_say {message : Console.Message} {u : Unit} (h : Ends (say message) r u r') :
    r'.workspace = r.workspace := by
  obtain ⟨run, next, hget, hsaid⟩ := ends_bind h
  cases hget
  cases hsay : Console.say r.settings r.transcript message with
  | mk transcript complete =>
    rw [hsay] at hsaid
    obtain ⟨v, next', hset, hend⟩ := ends_bind hsaid
    cases hset
    cases complete with
    | true =>
      cases hend
      rfl
    | false => cases hend

theorem workspace_of_sayAll {messages : List Console.Message} {u : Unit}
    (h : Ends (sayAll messages) r u r') : r'.workspace = r.workspace := by
  unfold sayAll at h
  induction messages generalizing r with
  | nil =>
    cases h
    rfl
  | cons message rest ih =>
    have hcons : Ends (say message >>= fun _ => rest.forM say) r u r' := h
    obtain ⟨v, next, hsay, hrest⟩ := ends_bind hcons
    exact (ih hrest).trans (workspace_of_say hsay)

/-- The files are written one after the other. -/
theorem ends_writeAll {files : List (Files.Path × String)} {u : Unit}
    (h : Ends (writeAll files) r u r') : r.workspace.writeAll files = (.ok (), r'.workspace) := by
  obtain ⟨run, next, hget, h⟩ := ends_bind h
  cases hget
  cases hwritten : r.workspace.writeAll files with
  | mk result w =>
    rw [hwritten] at h
    obtain ⟨v, next', hset, h⟩ := ends_bind h
    cases hset
    obtain ⟨hresult, rfl⟩ := ends_attempt h
    rw [hresult]

end Action

open ApiContract.Cli.Action

/-- **An import that goes through has written its files**: those that are planned for some document
under the options of the run, to the workspace as it was before. -/
theorem importDocument_writes {a : ImportArguments} {r r' : Run} {u : Unit} (hdry : a.dryRun = false)
    (h : Ends (importDocument a) r u r') :
    ∃ (config : Config.Effective) (api : OpenApi.Api) (w : Workspace),
      r.workspace.config { dialect := a.dialect, outputDir := a.outputDir } = .ok config
      ∧ w.writeAll (Import.importedFiles api (importOptions a config)
          (Files.Path.ofString config.outputDir) config.conventions) = (.ok (), r'.workspace) := by
  obtain ⟨config, next, hconfig, hdocument⟩ := ends_bind h
  obtain ⟨hconfig, -⟩ := ends_query hconfig
  obtain ⟨api, loaded, -, himport⟩ := ends_bind hdocument
  obtain ⟨result, imported, hresult, hcauses⟩ := ends_bind himport
  -- the result of an import is that of the pure one
  have hpure : result = Import.importAll api (importOptions a config) := by
    obtain ⟨v, next, -, hpure⟩ := ends_bind hresult
    cases hpure
    rfl
  obtain ⟨v, next', -, homissions⟩ := ends_bind hcauses
  obtain ⟨v, before, -, hfiles⟩ := ends_bind homissions
  rw [hdry] at hfiles
  obtain ⟨v, written, hwrite, hreport⟩ := ends_bind hfiles
  refine ⟨config, api, before.workspace, hconfig, ?_⟩
  unfold Import.importedFiles Import.generatedModels
  rw [workspace_of_sayAll hreport, ← hpure]
  exact ends_writeAll hwrite

end ApiContract.Cli
