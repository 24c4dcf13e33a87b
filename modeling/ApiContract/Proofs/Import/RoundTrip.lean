import ApiContract.Proofs.Export.Accepted
import ApiContract.Proofs.Import.Batch
import ApiContract.Proofs.Import.Operation

/-!
# Registries that are exported and imported

The document of a registry is accepted, and every spec comes back with its identity, whatever the
models of its input and its output are, with one exception: where a schema leads into a model without
a name that refers to itself, building the model of the schema fails.

* **`operations_documentOf`** — every operation of the document is that of one spec.
* **`finite_of_named`** — where all models have names, nothing is endless.
* **`round_trip_iff`** — the headline.
* **`not_imported_of_nameless`** — a command whose input refers to itself without a name.
-/

namespace ApiContract.Import

open Contract Export OpenApi Schema
open Reference (IsPlain component?)

/-! ## The import of a whole document -/

/-- The specs that an import has built. -/
def Result.live (r : Result) : List OperationSpec := r.specs.filterMap (·.spec)

theorem skipReason?_everything (o : Operation) : skipReason? o everything = none := by
  simp [skipReason?, everything]

variable {api : Api}

theorem skipped_ofApi (api : Api) : (Result.ofApi api everything).skipped = [] := by
  unfold Result.skipped Result.ofApi
  rw [List.filterMap_map, List.filterMap_eq_nil_iff]
  intro o _
  rw [Function.comp_apply, importOperation, skipReason?_everything]
  cases importSpec api everything o <;> rfl

theorem failed_ofApi_iff (api : Api) :
    (Result.ofApi api everything).failed = []
      ↔ ∀ o ∈ api.operations, Succeeds (importSpec api everything o) := by
  unfold Result.failed Result.ofApi
  rw [List.filterMap_map, List.filterMap_eq_nil_iff]
  refine forall_congr' fun o => forall_congr' fun _ => ?_
  rw [Function.comp_apply, importOperation, skipReason?_everything]
  cases importSpec api everything o with
  | ok item => exact ⟨fun _ => succeeds_ok item, fun _ => rfl⟩
  | error cause => exact ⟨fun h => (nomatch h), fun h => absurd h (not_succeeds_error cause)⟩

theorem specs_ofApi (api : Api) :
    (Result.ofApi api everything).specs
      = api.operations.filterMap fun o => (importSpec api everything o).toOption := by
  unfold Result.specs Result.ofApi
  rw [List.filterMap_map]
  refine List.filterMap_congr fun o _ => ?_
  rw [Function.comp_apply, importOperation, skipReason?_everything]
  cases importSpec api everything o <;> rfl

/-! ## The operations of an exported registry -/

/-- A registry whose operations have an identity and a place of their own. -/
structure Returnable (registry : Registry OperationSpec) : Prop where
  name : ∀ spec ∈ registry.specs, spec.header.name ≠ ""
  version : ∀ spec ∈ registry.specs, spec.header.version ≠ 0
  method : ∀ spec ∈ registry.specs, ∃ m : Method, HasMethod spec m
  path : ∀ spec ∈ registry.specs, spec.path.toList.head? = some '/'
  places : (registry.specs.map fun spec => (spec.verb, spec.path)).Nodup
  plain : ∀ spec ∈ registry.specs, IsPlain spec.header.name
  models : ∀ e ∈ knownModels registry.specs, IsPlain e.1
  texts : HasTexts (knownModels registry.specs)

variable {registry : Registry OperationSpec}

theorem Returnable.placed (h : Returnable registry) : Placed registry :=
  ⟨h.method, h.path, h.places⟩

theorem mem_placedOf (h : Returnable registry) {spec : OperationSpec}
    (hspec : spec ∈ placedOf registry) : spec ∈ registry.specs := h.placed.mem_iff.mp hspec

theorem Returnable.exportable (h : Returnable registry) : Exportable (placedOf registry) := by
  have hknown : ∀ e ∈ knownModels (placedOf registry), e ∈ knownModels registry.specs := by
    intro e he
    obtain ⟨spec, hspec, he⟩ := List.mem_flatMap.mp he
    exact List.mem_flatMap.mpr ⟨spec, mem_placedOf h hspec, he⟩
  exact ⟨fun spec hspec => h.plain spec (mem_placedOf h hspec), fun e he => h.models e (hknown e he),
    fun e he => h.texts e (hknown e he)⟩

theorem Returnable.hasMethod (h : Returnable registry) :
    ∀ spec ∈ placedOf registry, ∃ m, HasMethod spec m := h.placed.hasMethod

/-- What the operation of a spec is: it is imported unless a schema is endless, and then the spec
survives. -/
theorem importSpec_readBack (h : Returnable registry) {m : Method} {spec : OperationSpec}
    (hmem : (m, spec) ∈ arranged (placedOf registry)) (id : String) (hapi : api.document = documentOf registry) :
    let o : Operation :=
      { readBack (documentOf registry) (componentNames (placedOf registry)) m spec with id }
    (Succeeds (importSpec api everything o) ↔ Finite api.document o)
      ∧ ∀ spec', operationSpec o everything api.document = .ok spec' → Survives spec spec' := by
  intro o
  obtain ⟨hplaced, hmethod⟩ := mem_arranged h.hasMethod hmem
  have hspec := mem_placedOf h hplaced
  have supplies : Supplies api.document (componentNames (placedOf registry)) :=
    hapi ▸ supplies_documentOf h.exportable
  obtain ⟨hinput, houtput⟩ := mem_componentNames hplaced
  -- code and identity come of themselves: what is left to ask is whether the schemas end
  have hexchanges := exchanges_readBack supplies m spec
    (fun p hp => exported_parameters h.exportable hplaced hp _) hinput houtput
  rw [hapi] at hexchanges
  have hidentity : identityOf o none
      = .ok ⟨spec.header.name, spec.header.version, spec.header.kind⟩ :=
    identityOf_identity rfl (h.name spec hspec) (h.version spec hspec)
  refine ⟨succeeds_importSpec_iff supplies (hapi ▸ isTruthy_documentOf registry)
    (o := o) ⟨hexchanges.input, hexchanges.output⟩ ⟨_, hidentity⟩, fun spec' hspec' => ?_⟩
  exact survives_of_operationSpec hidentity hmethod rfl rfl rfl rfl hspec'

/-- **The operations of an exported registry** are those of its specs: each is imported unless a
schema of it is endless, and its spec survives. -/
theorem operations_documentOf (h : Returnable registry) :
    ∃ api, Api.ofDocument (documentOf registry) = .ok api ∧ ∃ specs, specs.Perm registry.specs
      ∧ List.Forall₂ (fun spec o => (Succeeds (importSpec api everything o) ↔ Finite api.document o)
          ∧ ∀ spec', operationSpec o everything api.document = .ok spec' → Survives spec spec')
        specs api.operations := by
  obtain ⟨api, hok, hdocument, hoperations⟩ :=
    ofDocument_documentOf h.exportable h.hasMethod fun spec hspec => h.path spec (mem_placedOf h hspec)
  refine ⟨api, hok, _, h.placed.arranged_perm, ?_⟩
  -- the ids may have changed, but neither what succeeds nor what survives depends on them
  have hrenumbered := renumber_forall₂ [] (readBackAll registry)
  rw [← hoperations] at hrenumbered
  unfold readBackAll at hrenumbered
  rw [List.forall₂_map_left_iff] at hrenumbered ⊢
  refine ((List.forall₂_and_left _ _).mpr ⟨fun p hp => hp, hrenumbered⟩).imp fun p o hpo => ?_
  obtain ⟨hp, id, rfl⟩ := hpo
  exact importSpec_readBack h hp id hdocument

/-- Where all operations succeed, their specs are related to others one by one. -/
theorem live_forall₂ {R : OperationSpec → OperationSpec → Prop} {specs : List OperationSpec}
    {operations : List Operation}
    (h : List.Forall₂ (fun spec o => ∀ spec', operationSpec o everything api.document = .ok spec' →
      R spec spec') specs operations)
    (hok : ∀ o ∈ operations, Succeeds (importSpec api everything o)) :
    List.Forall₂ R specs
      ((operations.filterMap fun o => (importSpec api everything o).toOption).filterMap (·.spec)) := by
  induction h with
  | nil => exact .nil
  | @cons spec o specs operations hspec _ ih =>
    obtain ⟨item, hitem⟩ := hok o List.mem_cons_self
    obtain ⟨spec', hsome, hbuilt⟩ := (importedFrom_of_importSpec hitem).spec rfl
    rw [List.filterMap_cons, hitem]
    dsimp only [Except.toOption]
    rw [List.filterMap_cons, hsome]
    exact .cons (hspec spec' hbuilt) (ih fun o ho => hok o (List.mem_cons_of_mem _ ho))

/-- Where all models have names, nothing is endless. -/
theorem finite_of_named (h : ∀ e ∈ knownModels (placedOf registry), e.1 ≠ "") (o : Operation) :
    Finite (documentOf registry) o := by
  have hloop : ¬ NamelessLoop (documentOf registry) := by
    rintro ⟨tree, htree, -⟩
    rw [component?_documentOf] at htree
    obtain ⟨v, hv, -⟩ := Option.map_eq_some_iff.mp htree
    rcases mem_components (Named.mem_of_get? hv) with ⟨spec, -, hname, -⟩ | ⟨m, hm, -⟩
    · -- the name of an input or an output has a prefix
      rcases hname with hname | hname
      · exact absurd (String.append_eq_empty_iff.mp hname.symm).1 (by decide)
      · exact absurd (String.append_eq_empty_iff.mp hname.symm).1 (by decide)
    · exact h _ hm rfl
  exact ⟨fun schema _ hend => hloop hend.2, fun schema _ hend => hloop hend.2⟩

/-- **A registry survives its export and import** exactly if no schema of the document is endless. The
document is accepted and no operation is skipped in any case. -/
theorem round_trip_iff (h : Returnable registry) :
    ∃ api, Api.ofDocument (documentOf registry) = .ok api
      ∧ (Result.ofApi api everything).skipped = []
      ∧ (((Result.ofApi api everything).failed = []
          ∧ ∃ specs, specs.Perm registry.specs
            ∧ List.Forall₂ Survives specs (Result.ofApi api everything).live)
        ↔ ∀ o ∈ api.operations, Finite api.document o) := by
  obtain ⟨api, hok, specs, hperm, hall⟩ := operations_documentOf h
  refine ⟨api, hok, skipped_ofApi api, ?_⟩
  have hiff : ∀ o ∈ api.operations, Succeeds (importSpec api everything o) ↔ Finite api.document o := by
    have hboth : List.Forall₂ (fun o _ => (Succeeds (importSpec api everything o)
        ↔ Finite api.document o) ∧ True) api.operations specs :=
      hall.flip.imp fun _ _ hpair => ⟨hpair.1, trivial⟩
    exact ((List.forall₂_and_left _ _).mp hboth).1
  rw [failed_ofApi_iff]
  constructor
  · rintro ⟨hsucceeds, -⟩ o ho
    exact (hiff o ho).mp (hsucceeds o ho)
  · intro hfinite
    have hsucceeds : ∀ o ∈ api.operations, Succeeds (importSpec api everything o) :=
      fun o ho => (hiff o ho).mpr (hfinite o ho)
    refine ⟨hsucceeds, specs, hperm, ?_⟩
    unfold Result.live
    rw [specs_ofApi]
    exact live_forall₂ (hall.imp fun _ _ h => h.2) hsucceeds

/-! ## A tree -/

/-- Nodes of a tree, which know their parents. -/
def treeModel (name : String) : SchemaModel := ⟨name, none, [("parent", { ref := some name })]⟩

/-- The command that adds a node to a tree. -/
def treeSpec (name : String) : OperationSpec where
  header := {
    name := "trees.add", version := 1, stability := .stable, owners := [], tags := []
    description := none, kind := .command, goal := none, context := none }
  input := some (treeModel name)
  output := none
  auth := .user
  transport := some ⟨some ⟨some "POST", some "/trees"⟩, none⟩

/-- The registry of that command alone. -/
def treeRegistry (name : String) : Registry OperationSpec where
  specs := [treeSpec name]
  keys_nodup := List.nodup_singleton _

theorem returnable_treeRegistry {name : String} (h : IsPlain name) :
    Returnable (treeRegistry name) where
  name := by
    intro spec hspec
    cases List.mem_singleton.mp hspec
    exact (by decide : "trees.add" ≠ "")
  version := by
    intro spec hspec
    cases List.mem_singleton.mp hspec
    exact (by decide : (1 : Int) ≠ 0)
  method := by
    intro spec hspec
    cases List.mem_singleton.mp hspec
    exact ⟨.post, rfl⟩
  path := by
    intro spec hspec
    cases List.mem_singleton.mp hspec
    have hpath : (treeSpec name).path = "/trees" := rfl
    rw [hpath]
    decide
  places := List.nodup_singleton _
  plain := by
    intro spec hspec
    cases List.mem_singleton.mp hspec
    exact (by decide : IsPlain "trees.add")
  models := by
    intro e he
    cases List.mem_singleton.mp he
    exact h
  texts := by
    intro e he
    cases List.mem_singleton.mp he
    simp [HasText]

/-- The command of a tree with a name survives. -/
theorem round_trip_of_tree :
    Returnable (treeRegistry "Tree")
      ∧ ∃ api, Api.ofDocument (documentOf (treeRegistry "Tree")) = .ok api
        ∧ (Result.ofApi api everything).skipped = []
        ∧ (((Result.ofApi api everything).failed = []
            ∧ ∃ specs, specs.Perm (treeRegistry "Tree").specs
              ∧ List.Forall₂ Survives specs (Result.ofApi api everything).live)
          ↔ ∀ o ∈ api.operations, Finite api.document o) :=
  ⟨returnable_treeRegistry (by decide), round_trip_iff (returnable_treeRegistry (by decide))⟩

theorem placedOf_treeRegistry (name : String) :
    placedOf (treeRegistry name) = [treeSpec name] := placedOf_singleton _ _

/-- The components of the tree without a name. -/
theorem components_nameless :
    components [treeSpec ""]
      = [("Input_trees_add_v1", (treeModel "").toJsonSchema), ("", (treeModel "").toJsonSchema)] := by
  have htargets : (targets (treeModel "").toJsonSchema).filterMap componentName? = [""] := rfl
  have htake : take [("", treeModel "")] [""] = ([("", treeModel "")], []) := rfl
  have hend : ∀ pending, (close [] pending).added = [] := by
    intro pending
    rw [List.eq_nil_iff_forall_not_mem]
    intro e he
    obtain ⟨m, hm, -⟩ := mem_added_of_close he
    cases hm
  show [("Input_trees_add_v1", (treeModel "").toJsonSchema)]
    ++ (close [("", treeModel "")]
      [(treeModel "").toJsonSchema, .map (pathItems [treeSpec ""])]).added = _
  rw [close]
  simp only [htargets, htake, hend]
  rfl

/-- The tree without a name is a component that refers to itself, and so is the input. -/
theorem component?_nameless {name : String} (h : name = "Input_trees_add_v1" ∨ name = "") :
    component? (documentOf (treeRegistry "")) name = some (treeModel "").toJsonSchema := by
  have hnames : componentNames [treeSpec ""] = ["Input_trees_add_v1", ""] := by
    unfold componentNames
    rw [components_nameless]
    rfl
  rw [component?_documentOf, placedOf_treeRegistry, hnames, components_nameless]
  rcases h with rfl | rfl
  · rfl
  · rfl

/-- What the command of the tree without a name takes. -/
theorem inputSchema_nameless (names : List String) :
    inputSchema (readBack (documentOf (treeRegistry "")) names .post (treeSpec ""))
      = .ok (some (objectSchema [⟨"parent", componentReference "", true⟩])) := by
  have hcomponent := component?_nameless (.inl rfl)
  have hinlined : inlined (documentOf (treeRegistry ""))
      (componentReference "Input_trees_add_v1") = (treeModel "").toJsonSchema := by
    unfold inlined
    rw [Reference.pointer?_component, Option.bind_some,
      Reference.resolvePointer_component (by decide) hcomponent rfl]
    rfl
  have hbody : (readBack (documentOf (treeRegistry "")) names .post (treeSpec "")).requestBody
      = some ⟨true, "application/json", some (treeModel "").toJsonSchema⟩ := by
    rw [← hinlined]
    rfl
  have hfields : bodyFields ⟨true, "application/json", some (treeModel "").toJsonSchema⟩
      = .ok [⟨"parent", componentReference "", true⟩] := rfl
  unfold inputSchema inputFields
  rw [hbody]
  dsimp only
  rw [hfields]
  rfl

/-- It leads into the tree, which refers to itself. -/
theorem endless_nameless :
    Endless (documentOf (treeRegistry ""))
      (objectSchema [⟨"parent", componentReference "", true⟩]) := by
  have hparent : ∀ members : Members, (Value.map members).get? "properties"
      = some (.map [(.str "parent", componentReference "")]) → Mentions (.map members) "" := by
    intro members hproperties
    have hprops : Schema.properties? (.map members)
        = some [(.str "parent", componentReference "")] := by
      unfold Schema.properties?
      rw [hproperties]
    have hmem : (Scalar.str "parent", componentReference "")
        ∈ [(Scalar.str "parent", componentReference "")] := List.mem_singleton.mpr rfl
    exact .property hprops hmem (.reference "")
  exact ⟨.mentions (hparent _ rfl), _, component?_nameless (.inr rfl), hparent _ rfl⟩

/-- **The command of a tree without a name is lost**: its spec cannot be built. -/
theorem not_imported_of_nameless :
    Returnable (treeRegistry "")
      ∧ ¬ ∃ api, Api.ofDocument (documentOf (treeRegistry "")) = .ok api
        ∧ (Result.ofApi api everything).failed = [] := by
  have hreturnable : Returnable (treeRegistry "") := returnable_treeRegistry (by decide)
  refine ⟨hreturnable, ?_⟩
  rintro ⟨api, hok, hfailed⟩
  obtain ⟨api', hok', hdocument, hoperations⟩ := ofDocument_documentOf hreturnable.exportable
    hreturnable.hasMethod fun spec hspec => hreturnable.path spec (mem_placedOf hreturnable hspec)
  cases hok.symm.trans hok'
  have harranged : arranged (placedOf (treeRegistry "")) = [(.post, treeSpec "")] := by
    rw [placedOf_treeRegistry]
    rfl
  have hmem : (Method.post, treeSpec "") ∈ arranged (placedOf (treeRegistry "")) := by
    rw [harranged]
    exact List.mem_singleton.mpr rfl
  have hread : api.operations = [readBack (documentOf (treeRegistry ""))
      (componentNames (placedOf (treeRegistry ""))) .post (treeSpec "")] := by
    rw [hoperations, readBackAll, harranged]
    rfl
  have hsucceeds := (failed_ofApi_iff api).mp hfailed _ (hread ▸ List.mem_singleton.mpr rfl)
  have hfinite := (importSpec_readBack hreturnable hmem (treeSpec "").operationId hdocument).1.mp
    hsucceeds
  rw [hdocument] at hfinite
  exact hfinite.1 _ (inputSchema_nameless (componentNames (placedOf (treeRegistry "")))) endless_nameless

end ApiContract.Import
