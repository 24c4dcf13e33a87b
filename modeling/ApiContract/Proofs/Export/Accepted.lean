import ApiContract.Proofs.Contract.Registry
import ApiContract.Proofs.Export.Document
import ApiContract.Proofs.Export.Layout
import ApiContract.Proofs.Export.Reading
import Mathlib

/-!
# Reading an exported document

An exported document is accepted whatever the models of its specs are, and its operations are those
of the exported specs that can be read, in the order of reading. Only their ids may change: specs
whose names differ in points alone have one id, and the later of them get a number. Where the names
in its references need no escapes, all of them can be read.

Where the places of the specs differ, are those of methods that a document has and begin with a slash,
nothing is left out: every spec is exported, and read in some order.

* **`Placed.placedOf_eq`** — all specs are exported.
* **`Placed.arranged_perm`** — all of them are read.
* **`readSchemas_documentOf`** — the components are read back.
* **`ofDocument_readable`** — the operations that can be read.
* **`ofDocument_documentOf`** — the headline.
-/

namespace ApiContract.Export

open Contract OpenApi Schema

/-! ## Registries with a place for every spec -/

/-- A registry whose operations have a place of their own in a document. -/
structure Placed (registry : Registry OperationSpec) : Prop where
  method : ∀ spec ∈ registry.specs, ∃ m : Method, HasMethod spec m
  path : ∀ spec ∈ registry.specs, spec.path.toList.head? = some '/'
  places : (registry.specs.map fun spec => (spec.verb, spec.path)).Nodup

variable {registry : Registry OperationSpec}

/-- The places of the specs differ in the form in which a document has them, too. -/
theorem Placed.nodup_places (h : Placed registry) :
    (registry.toList.map fun spec => (spec.path, methodKey spec)).Nodup := by
  have hplaces := (((registry.toList_perm).map fun spec => (spec.verb, spec.path)).nodup_iff).mpr
    h.places
  refine List.pairwise_map.mpr ((List.pairwise_map.mp hplaces).imp_of_mem fun {a b} ha hb hne => ?_)
  obtain ⟨m, hm⟩ := h.method a ((registry.toList_perm).mem_iff.mp ha)
  obtain ⟨n, hn⟩ := h.method b ((registry.toList_perm).mem_iff.mp hb)
  -- a document has the name of the method, and each name is that of one method
  rw [hm.methodKey, hn.methodKey]
  intro heq
  obtain ⟨hpath, hmethod⟩ := Prod.mk.inj heq
  refine hne ?_
  rw [hm, hn, Method.name_inj hmethod, hpath]

/-- **Specs in places of their own are all exported.** -/
theorem Placed.placedOf_eq (h : Placed registry) : placedOf registry = registry.toList := by
  -- a spec is left out only if an earlier one stands in its place
  have hpairwise : registry.toList.Pairwise fun a b => samePlace b a = false := by
    refine (List.pairwise_map.mp h.nodup_places).imp fun {a b} hne => ?_
    rw [Bool.eq_false_iff]
    intro hsame
    unfold samePlace at hsame
    rw [Bool.and_eq_true, beq_iff_eq, beq_iff_eq] at hsame
    exact hne (Prod.ext hsame.1.symm hsame.2.symm)
  unfold placedOf layout
  rw [layout_placed (by simpa using hpairwise)]
  rfl

theorem Placed.mem_iff (h : Placed registry) {spec : OperationSpec} :
    spec ∈ placedOf registry ↔ spec ∈ registry.specs := by
  rw [h.placedOf_eq]
  exact (registry.toList_perm).mem_iff

theorem Placed.hasMethod (h : Placed registry) :
    ∀ spec ∈ placedOf registry, ∃ m, HasMethod spec m :=
  fun spec hspec => h.method spec (h.mem_iff.mp hspec)

theorem Placed.head?_path (h : Placed registry) :
    ∀ spec ∈ placedOf registry, spec.path.toList.head? = some '/' :=
  fun spec hspec => h.path spec (h.mem_iff.mp hspec)

/-- **The specs are read in some order**, each once. -/
theorem Placed.arranged_perm (h : Placed registry) :
    ((arranged (placedOf registry)).map (·.2)).Perm registry.specs := by
  have hplaces := h.nodup_places
  rw [← h.placedOf_eq] at hplaces
  refine (Export.arranged_perm h.hasMethod hplaces).trans ?_
  rw [h.placedOf_eq]
  exact registry.toList_perm

theorem Placed.nodup_arranged (h : Placed registry) :
    ((arranged (placedOf registry)).map fun p => (p.2.path, p.2.verb)).Nodup := by
  have hspecs : (((arranged (placedOf registry)).map (·.2)).map
      fun spec => (spec.verb, spec.path)).Nodup :=
    (h.arranged_perm.map _).nodup_iff.mpr h.places
  rw [List.map_map] at hspecs
  refine List.Nodup.of_map Prod.swap ?_
  rw [List.map_map]
  exact hspecs

/-! ## The sections -/

/-- An exported document is of version 3.1. -/
theorem detectVersion_documentOf (registry : Registry OperationSpec) :
    detectVersion (documentOf registry) = .ok "3.1" := by
  have hfield : (Value.map (openApi registry {})).field "openapi" = .str openApiVersion := rfl
  have hthree : (Value.str openApiVersion).text.startsWith "3." = true := by cbv
  have htext : validateVersion (documentOf registry) = .ok openApiVersion := by
    unfold validateVersion documentOf
    dsimp only
    rw [show Members.get? (openApi registry {}) "swagger" = none from rfl, hfield]
    simp only [hthree, if_true]
    rfl
  have hminor : openApiVersion.startsWith "3.1" = true := by cbv
  unfold detectVersion
  rw [htext]
  simp only [bind, Except.bind, hminor, if_true]
  rfl

theorem keys_documentOf (registry : Registry OperationSpec) :
    ∀ m ∈ openApi registry {}, ∃ s, m.1 = .str s := by
  simp [openApi, memberUnlessEmpty, member]

theorem memberSchemas_isMap {e : String × Value} (he : e ∈ exportedSchemas registry) :
    e.2.isMap = true ∧ Check.object e.2 = .ok e.2 := by
  obtain ⟨e', he', rfl⟩ := List.mem_map.mp he
  obtain ⟨m, heq⟩ := exists_model_of_mem_components he'
  dsimp only
  rw [heq, settle_model]
  exact ⟨rfl, Check.object_ok (objectNode_model m).keys⟩

/-- Members that are mappings are kept, under their names. -/
theorem entries_of_members {entries : Named Value} (h : ∀ e ∈ entries, e.2.isMap = true) :
    ((entries.map fun (n, v) => member n v).filter (·.2.isMap)).map
      (fun (name, node) => (name.text, node)) = entries := by
  rw [List.filter_eq_self.mpr]
  · rw [List.map_map]
    exact List.map_id _
  · intro m hm
    obtain ⟨e, he, rfl⟩ := List.mem_map.mp hm
    exact h e he

/-- The component schemas of an exported document are read back. -/
theorem readSchemas_documentOf (registry : Registry OperationSpec) :
    readSchemas (documentOf registry) = .ok (Named.ofList (exportedSchemas registry)) := by
  have hentries := entries_of_members fun e (he : e ∈ exportedSchemas registry) =>
    (memberSchemas_isMap he).1
  unfold readSchemas Value.field
  rw [get?_documentOf_components]
  exact congrArg (fun entries => Except.ok (Named.ofList entries)) hentries

/-! ## The operations -/

/-- The parameters of an exported spec have exported schemas. -/
theorem exported_parameters (h : Exportable (placedOf registry)) {spec : OperationSpec}
    (hspec : spec ∈ placedOf registry) {p : ParameterPart} (hp : p ∈ parameterParts spec)
    (names : List String) : Exported names (settle names p.schema) := by
  have hfield : ∀ f ∈ (spec.input.map (·.fields)).getD [],
      Exported names (settle names f.2.toJsonSchema) := by
    cases hinput : spec.input with
    | none => exact fun f hf => absurd hf List.not_mem_nil
    | some model =>
      have hown : model ∈ ownModels spec :=
        List.mem_append_left _ (Option.mem_toList.mpr hinput)
      have htexts := h.ownTexts hspec hown
      obtain ⟨name, description, fields⟩ := model
      rw [modelsOf] at htexts
      exact exported_fields fields (htexts _ List.mem_cons_self)
        fun e he => htexts e (List.mem_cons_of_mem _ he)
  have hstring : Exported names (settle names (.map ScalarType.string.schema)) := by
    rw [settle_map rfl, settleMembers_scalar]
    exact .leaf (leafNode_scalar .string)
  unfold parameterParts at hp
  dsimp only at hp
  rcases List.mem_append.mp hp with hp | hp
  · obtain ⟨name, -, rfl⟩ := List.mem_map.mp hp
    cases hget : Named.get? ((spec.input.map (·.fields)).getD []) name with
    | none => exact hstring
    | some f => exact hfield (name, f) (Named.mem_of_get? hget)
  · split at hp
    · obtain ⟨f, hf, rfl⟩ := List.mem_map.mp hp
      exact hfield f (List.mem_filter.mp hf).1
    · cases hp

/-- The operations of an exported document before renaming. -/
def readBackAll (registry : Registry OperationSpec) : List Operation :=
  (arranged (placedOf registry)).map fun p =>
    readBack (documentOf registry) (componentNames (placedOf registry)) p.1 p.2

/-- The paths of an exported document. -/
theorem entriesOfPaths_documentOf (hmethods : ∀ spec ∈ placedOf registry, ∃ m, HasMethod spec m)
    (hpaths : ∀ spec ∈ placedOf registry, spec.path.toList.head? = some '/') :
    entriesOfPaths (documentOf registry)
      = (arranged (placedOf registry)).map fun p =>
          .slot (slotOf (componentNames (placedOf registry)) p) := by
  have href : Members.get? (pathItems (placedOf registry)) "$ref" = none := by
    rw [pathItems_eq, Members.get?_map, Option.map_eq_none_iff, List.find?_eq_none]
    intro path hpath heq
    obtain ⟨spec, hspec, rfl⟩ := List.mem_map.mp (Distinct.mem_ofList.mp hpath)
    have hhead := hpaths spec hspec
    rw [beq_iff_eq.mp heq] at hhead
    exact absurd hhead (by decide)
  unfold entriesOfPaths Value.field
  rw [get?_documentOf_paths, settle_map href]
  exact pathEntries_settled hmethods _

/-- What can be read of the operations of an exported document. -/
def readableOf (registry : Registry OperationSpec) : List Operation :=
  (arranged (placedOf registry)).filterMap fun p =>
    (readSlot (documentOf registry) (slotOf (componentNames (placedOf registry)) p)).result.toOption

/-- **An exported document is accepted**, and its operations are those of the exported specs that can
be read. -/
theorem ofDocument_readable (hmethods : ∀ spec ∈ placedOf registry, ∃ m, HasMethod spec m)
    (hpaths : ∀ spec ∈ placedOf registry, spec.path.toList.head? = some '/') :
    ∃ api, Api.ofDocument (documentOf registry) = .ok api
      ∧ api.document = documentOf registry
      ∧ api.operations = renumber [] (readableOf registry) := by
  have hversion := detectVersion_documentOf registry
  have hinfo : readInfo (documentOf registry)
      = .ok ⟨"ContractSpec API", "1.0.0", none⟩ := rfl
  have hservers : readServers (documentOf registry) = .ok [] := rfl
  have hobject : Check.object (documentOf registry) = .ok (documentOf registry) :=
    Check.object_ok (keys_documentOf registry)
  have hoperations := harvestPaths_operations (documentOf registry)
  rw [entriesOfPaths_documentOf hmethods hpaths] at hoperations
  unfold readable at hoperations
  rw [List.filterMap_map] at hoperations
  refine ⟨⟨documentOf registry, "3.1", _, [], _, Named.ofList (exportedSchemas registry),
    (harvestPaths (documentOf registry)).warnings⟩, Api.ofDocument_eq_ok.mpr
      ⟨rfl, hversion, hinfo, hservers, hoperations.symm, rfl, hobject, _,
        readSchemas_documentOf registry, ?_⟩, rfl, rfl⟩
  refine List.map_congr_left fun e he => ?_
  rw [(memberSchemas_isMap (Named.mem_of_mem_ofList he)).2]
  rfl

/-- **An exported document is accepted**, and its operations are those of the exported specs. -/
theorem ofDocument_documentOf (h : Exportable (placedOf registry))
    (hmethods : ∀ spec ∈ placedOf registry, ∃ m, HasMethod spec m)
    (hpaths : ∀ spec ∈ placedOf registry, spec.path.toList.head? = some '/') :
    ∃ api, Api.ofDocument (documentOf registry) = .ok api
      ∧ api.document = documentOf registry
      ∧ api.operations = renumber [] (readBackAll registry) := by
  obtain ⟨api, hok, hdocument, hoperations⟩ := ofDocument_readable hmethods hpaths
  refine ⟨api, hok, hdocument, hoperations.trans (congrArg (renumber []) ?_)⟩
  unfold readableOf readBackAll
  rw [← List.filterMap_eq_map]
  refine List.filterMap_congr fun p hp => ?_
  obtain ⟨hspec, -⟩ := mem_arranged hmethods hp
  obtain ⟨hinput, houtput⟩ := mem_componentNames hspec
  show (readSlot _ (slotOf _ (p.1, p.2))).result.toOption = _
  rw [readSlot_exported (reads_of_exported (supplies_documentOf h)
    (fun q hq => exported_parameters h hspec hq _) hinput houtput) p.1]
  rfl

end ApiContract.Export
