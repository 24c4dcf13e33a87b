import ApiContract.Cli.Comparing
import ApiContract.Proofs.Drift.Sync
import ApiContract.Proofs.Import.Batch
import ApiContract.Proofs.Import.Fixpoint

/-!
# A document against itself

The specs of an import, each under its key, are compared with the same import. Every imported spec
meets its own entry at the head of those that are left, since it has the name of it, and a comparison
of a spec with itself finds nothing unless the description of a list does not equal itself.

* **`pairUp_own`** — the pairing, by induction on the imported specs.
* **`compareSpecs_self_iff`** — one spec.
* **`no_drift_iff`** — the headline.
* **`drift_of_nan`** — a document that differs from itself.
-/

namespace ApiContract.Import

open Contract Drift Export OpenApi Schema

/-! ## Everyone meets its own entry -/

/-- A spec matches the entry that holds it, by its name. -/
theorem isMatch_own {item : Imported} {spec : OperationSpec} (h : item.spec = some spec)
    (policy : MatchPolicy) (key : String) : isMatch policy key spec item = true := by
  simp [isMatch, h]

/-- **Specs are paired with the entries that hold them**, as long as both stand in one order: the
entries that are left hold the specs that are left. -/
theorem pairUp_own (policy : MatchPolicy) {items : List Imported} {entries : List Entry}
    (h : List.Forall₂ (fun item e => item.spec = some e.2) items entries) :
    pairUp policy entries items = ⟨items.map fun item => (item, item.spec), []⟩ := by
  induction h with
  | nil => rfl
  | @cons item e items entries hitem _ ih =>
    obtain ⟨key, spec⟩ := e
    have hstep : takeMatch policy item ((key, spec) :: entries) = (some spec, entries) := by
      rw [takeMatch, if_pos (isMatch_own hitem policy key)]
    rw [pairUp, hstep]
    dsimp only
    rw [ih, List.map_cons, hitem]

/-- The specs of live items under their keys. -/
theorem specsByKey_forall₂ {items : List Imported} (hlive : ∀ item ∈ items, item.spec.isSome)
    (hkeys : ((items.filterMap (·.spec)).map OperationSpec.key).Nodup) :
    List.Forall₂ (fun item e => item.spec = some e.2) items (Cli.specsByKey items) := by
  unfold Cli.specsByKey
  rw [Named.ofList_of_nodup (by rw [List.map_map]; exact hkeys), List.forall₂_map_right_iff]
  -- without the keys, the items are related to their own specs
  clear hkeys
  induction items with
  | nil => exact .nil
  | cons item rest ih =>
    obtain ⟨spec, hspec⟩ := Option.isSome_iff_exists.mp (hlive item List.mem_cons_self)
    rw [List.filterMap_cons, hspec]
    exact .cons hspec (ih fun item hitem => hlive item (List.mem_cons_of_mem _ hitem))

/-- The diff of an imported spec and the spec itself. -/
def ownDiff (options : Drift.Options) (item : Imported) : SpecDiff :=
  SpecDiff.ofSides options item.source.id
    (match item.spec with
      | some spec => .both spec item
      | none => .new item)

theorem ownDiff_eq (options : Drift.Options) {item : Imported} {spec : OperationSpec}
    (h : item.spec = some spec) :
    ownDiff options item
      = ⟨item.source.id, .both spec item, compareSpecs options spec spec, none⟩ := by
  obtain ⟨code, fileName, built, hints, source⟩ := item
  dsimp only at h
  subst h
  rfl

theorem diffAll_own (options : Drift.Options) {items : List Imported}
    (hlive : ∀ item ∈ items, item.spec.isSome)
    (hkeys : ((items.filterMap (·.spec)).map OperationSpec.key).Nodup) :
    diffAll options (Cli.specsByKey items) items = items.map (ownDiff options) := by
  unfold diffAll
  rw [pairUp_own _ (specsByKey_forall₂ hlive hkeys)]
  dsimp only
  rw [List.map_map, List.map_nil, List.append_nil]
  rfl

/-! ## A spec against itself -/

/-- No description of a list of the spec differs from itself. -/
def SteadyDescriptions (spec : OperationSpec) : Prop :=
  ∀ d, ListDescription (knownModels [spec]) d → d.isTruthy = true →
    Unchanged (.str "description") d d

/-- **A spec is unchanged against itself** exactly if the descriptions of its lists are. -/
theorem compareSpecs_self_iff {spec : OperationSpec} (hinput : ∀ m ∈ spec.input, Sound (modelsOf m))
    (houtput : ∀ m ∈ spec.output, Sound (modelsOf m)) :
    compareSpecs {} spec spec = [] ↔ SteadyDescriptions spec := by
  have hself : ∀ key (model : Option SchemaModel), (∀ m ∈ model, Sound (modelsOf m)) →
      (Unchanged key (optionalSchema model) (optionalSchema model)
        ↔ ∀ m ∈ model, ∀ d, ListDescription (modelsOf m) d → d.isTruthy = true →
            Unchanged (.str "description") d d) := by
    intro key model hsound
    cases model with
    | none => exact iff_of_true (unchanged_null key) nofun
    | some m =>
      show Unchanged key m.toJsonSchema m.toJsonSchema ↔ _
      rw [unchanged_model_self_iff (hsound m rfl)]
      simp
  unfold SteadyDescriptions
  rw [compareSpecs_eq_nil_iff rfl rfl rfl, listDescription_iff]
  exact and_congr (hself _ _ hinput) (hself _ _ houtput)

/-! ## An import against itself -/

variable {api : Api} {options : Options}

/-- What is imported where specs are built has one, and its models are sound. -/
theorem spec_of_item (hbuild : options.buildSpecs = true) {item : Imported}
    (h : item ∈ (importAll api options).specs) :
    ∃ spec, item.spec = some spec
      ∧ (∀ m ∈ spec.input, Sound (modelsOf m)) ∧ ∀ m ∈ spec.output, Sound (modelsOf m) := by
  rw [importAll_eq] at h
  obtain ⟨outcome, houtcome, hitem⟩ := List.mem_filterMap.mp h
  obtain ⟨o, -, houtcome⟩ := List.mem_map.mp houtcome
  -- only an operation of which a spec was made is listed
  have hok : importSpec api options o = .ok item := by
    cases outcome with
    | skipped id reason => cases hitem
    | failed id cause => cases hitem
    | imported item' =>
      cases hitem
      unfold importOperation at houtcome
      split at houtcome
      · cases houtcome
      · split at houtcome
        · rename_i hok
          cases houtcome
          exact hok
        · cases houtcome
  obtain ⟨spec, hspec, hbuilt⟩ := (importedFrom_of_importSpec hok).spec hbuild
  exact ⟨spec, hspec, sound_operationSpec hbuilt⟩

/-- The specs of some items, each under its key, do not drift from the items: every diff is
equivalent, and all ids are unchanged. -/
def NoDrift (options : Drift.Options) (items : List Imported) : Prop :=
  let diffs := diffAll options (Cli.specsByKey items) items
  let result := SyncResult.ofDiffs diffs
  (∀ d ∈ diffs, d.isEquivalent = true)
    ∧ result.idsIn .unchanged = items.map (·.source.id)
    ∧ result.inGroup .added = [] ∧ result.inGroup .updated = [] ∧ result.inGroup .conflict = []

/-- Diffs of specs with themselves that find nothing are unchanged. -/
theorem noDrift_of_unchanged {items : List Imported} (hlive : ∀ item ∈ items, item.spec.isSome)
    (hkeys : ((items.filterMap (·.spec)).map OperationSpec.key).Nodup) {diffOptions : Drift.Options}
    (h : ∀ item ∈ items, ∀ spec ∈ item.spec, compareSpecs diffOptions spec spec = []) :
    NoDrift diffOptions items := by
  have hown : ∀ d ∈ items.map (ownDiff diffOptions), d.changes = [] ∧ d.group = .unchanged := by
    intro d hd
    obtain ⟨item, hitem, rfl⟩ := List.mem_map.mp hd
    obtain ⟨spec, hspec⟩ := Option.isSome_iff_exists.mp (hlive item hitem)
    rw [ownDiff_eq diffOptions hspec, h item hitem spec hspec]
    exact ⟨rfl, rfl⟩
  have hnone : ∀ g, g ≠ .unchanged →
      (SyncResult.ofDiffs (items.map (ownDiff diffOptions))).inGroup g = [] := by
    intro g hg
    refine List.filter_eq_nil_iff.mpr fun d hd hgroup => ?_
    exact hg ((beq_iff_eq.mp hgroup).symm.trans (hown d hd).2)
  unfold NoDrift
  rw [diffAll_own diffOptions hlive hkeys]
  refine ⟨fun d hd => List.isEmpty_iff.mpr (hown d hd).1, ?_, hnone _ (by decide),
    hnone _ (by decide), hnone _ (by decide)⟩
  show ((items.map (ownDiff diffOptions)).filter _).map _ = _
  rw [List.filter_eq_self.mpr fun d hd => beq_iff_eq.mpr (hown d hd).2, List.map_map]
  rfl

/-- Where specs are built, every item is live. -/
theorem isSome_of_item (hbuild : options.buildSpecs = true) :
    ∀ item ∈ (importAll api options).specs, item.spec.isSome := by
  intro item hitem
  obtain ⟨spec, hspec, -⟩ := spec_of_item hbuild hitem
  rw [hspec]
  rfl

theorem compareSpecs_item_iff (hbuild : options.buildSpecs = true) {item : Imported}
    (hitem : item ∈ (importAll api options).specs) {spec : OperationSpec}
    (hspec : item.spec = some spec) : compareSpecs {} spec spec = [] ↔ SteadyDescriptions spec := by
  obtain ⟨spec', hspec', hinput, houtput⟩ := spec_of_item hbuild hitem
  cases hspec.symm.trans hspec'
  exact compareSpecs_self_iff hinput houtput

/-- The comparison that leaves nothing out finds every description that differs from itself. -/
theorem steady_of_noDrift (hbuild : options.buildSpecs = true)
    (hkeys : (((importAll api options).specs.filterMap (·.spec)).map OperationSpec.key).Nodup)
    (h : NoDrift {} (importAll api options).specs) :
    ∀ item ∈ (importAll api options).specs, ∀ spec ∈ item.spec, SteadyDescriptions spec := by
  intro item hitem spec hspec
  have hdiff := h.1 (ownDiff {} item) (by
    rw [diffAll_own {} (isSome_of_item hbuild) hkeys]
    exact List.mem_map_of_mem hitem)
  rw [ownDiff_eq {} hspec] at hdiff
  exact (compareSpecs_item_iff hbuild hitem hspec).mp (List.isEmpty_iff.mp hdiff)

/-- **A document does not drift from itself** exactly if no description of a list differs from
itself. Every imported spec is compared with itself in any case. -/
theorem no_drift_iff (hbuild : options.buildSpecs = true)
    (hkeys : (((importAll api options).specs.filterMap (·.spec)).map OperationSpec.key).Nodup) :
    (∀ diffOptions, (diffAll diffOptions (Cli.specsByKey (importAll api options).specs)
        (importAll api options).specs).map (fun d => (d.id, d.sides.existing?))
        = (importAll api options).specs.map fun item => (item.source.id, item.spec))
    ∧ ((∀ diffOptions, NoDrift diffOptions (importAll api options).specs)
      ↔ ∀ item ∈ (importAll api options).specs, ∀ spec ∈ item.spec, SteadyDescriptions spec) := by
  refine ⟨fun diffOptions => ?_, fun h => steady_of_noDrift hbuild hkeys (h {}),
    fun h diffOptions => ?_⟩
  · rw [diffAll_own diffOptions (isSome_of_item hbuild) hkeys, List.map_map]
    apply List.map_congr_left
    intro item hitem
    obtain ⟨spec, hspec⟩ := Option.isSome_iff_exists.mp (isSome_of_item hbuild item hitem)
    rw [Function.comp_apply, ownDiff_eq diffOptions hspec, hspec]
    rfl
  · refine noDrift_of_unchanged (isSome_of_item hbuild) hkeys fun item hitem spec hspec => ?_
    exact compareSpecs_options diffOptions
      ((compareSpecs_item_iff hbuild hitem hspec).mpr (h item hitem spec hspec))

/-! ## A list with a description -/

/-- The one list of the spec has the one description. -/
theorem steadyDescriptions_tags_iff {name : String} {about : Value} :
    SteadyDescriptions (tagsSpec name about)
      ↔ (about.isTruthy = true → Unchanged (.str "description") about about) := by
  constructor
  · intro h
    exact h about ⟨_, List.mem_cons_self, _, List.mem_cons_self, rfl, rfl⟩
  · rintro h d ⟨e, he, f, hf, -, hd⟩
    cases List.mem_singleton.mp he
    cases List.mem_singleton.mp hf
    cases hd
    exact h

/-- The import of that document. -/
theorem importAll_tags {about : Value} (h : about.isNull = false) :
    ∃ api, Api.ofDocument (tagsDocument about) = .ok api
      ∧ (importAll api everything).failed = []
      ∧ ∃ name, (importAll api everything).specs.filterMap (·.spec) = [tagsSpec name about] := by
  obtain ⟨api, hok, -, hoperations⟩ := ofDocument_tags about
  obtain ⟨hfailed, hlive⟩ := live_tags h hoperations
  rw [← importAll_eq] at hfailed
  unfold Result.live at hlive
  rw [← importAll_eq] at hlive
  exact ⟨api, hok, hfailed, hlive⟩

/-- A list with a text as its description does not drift. -/
theorem no_drift_of_text :
    ∃ api, Api.ofDocument (tagsDocument (.str "Whose tags")) = .ok api
      ∧ (((importAll api everything).specs.filterMap (·.spec)).map OperationSpec.key).Nodup
      ∧ (importAll api everything).specs ≠ []
      ∧ ∀ diffOptions, NoDrift diffOptions (importAll api everything).specs := by
  obtain ⟨api, hok, -, name, hlive⟩ := @importAll_tags (.str "Whose tags") rfl
  have hkeys : (((importAll api everything).specs.filterMap (·.spec)).map
      OperationSpec.key).Nodup := by
    rw [hlive]
    exact List.nodup_singleton _
  -- there is one spec, and its one list is described by a text
  refine ⟨api, hok, hkeys, fun hnil => ?_,
    (no_drift_iff rfl hkeys).2.mpr fun item hitem spec hspec => ?_⟩
  · rw [hnil] at hlive
    cases hlive
  · have hmem : spec ∈ (importAll api everything).specs.filterMap (·.spec) :=
      List.mem_filterMap.mpr ⟨item, hitem, hspec⟩
    rw [hlive] at hmem
    cases List.mem_singleton.mp hmem
    exact steadyDescriptions_tags_iff.mpr fun _ => unchanged_str _ _

/-- **A list described by a number that does not equal itself** makes a document drift from
itself. -/
theorem drift_of_nan :
    ∃ api, Api.ofDocument (tagsDocument (.float .nan)) = .ok api
      ∧ (importAll api everything).failed = []
      ∧ (((importAll api everything).specs.filterMap (·.spec)).map OperationSpec.key).Nodup
      ∧ ¬ NoDrift {} (importAll api everything).specs := by
  obtain ⟨api, hok, hfailed, name, hlive⟩ := @importAll_tags (.float .nan) rfl
  have hkeys : (((importAll api everything).specs.filterMap (·.spec)).map
      OperationSpec.key).Nodup := by
    rw [hlive]
    exact List.nodup_singleton _
  refine ⟨api, hok, hfailed, hkeys, fun hdrift => ?_⟩
  obtain ⟨item, hitem, hspec⟩ := List.mem_filterMap.mp (hlive ▸ List.mem_singleton_self _)
  have hunchanged := steadyDescriptions_tags_iff.mp
    (steady_of_noDrift rfl hkeys hdrift item hitem _ hspec) rfl
  rw [unchanged_self_of_not_map rfl] at hunchanged
  cases hunchanged

end ApiContract.Import
