import ApiContract.Import.Batch
import ApiContract.Import.Projection
import ApiContract.Proofs.Checked
import ApiContract.Proofs.Codegen.Generator

/-!
# A batch is imported operation by operation

All operations go through one generator, and one that fails may leave the generator anywhere. What
becomes of an operation is the same as if it were alone all the same, because a generator keeps
nothing that counts.

* **`Does.bind`** / **`does_generate`** / **`does_generateSpec`** — one operation;
* **`importNext_eq`** — the step, which leaves any generator of the dialect as good as a new one;
* **`importEach_eq`** / **`importAll_eq`** — the run;
* **`batch_is_pointwise`** — the headline.
-/

namespace ApiContract.Import

open Codegen OpenApi

/-! ## One operation -/

/-- Generators that give the code of the options' dialect. What they have noted does not count. -/
def Serves (options : Options) (g : Generator) : Prop :=
  g.dialect = options.dialect ∧ g.conventions = {}

variable {options : Options} {α β : Type}

/-- From every such generator, `x` gives what `y` is, and leaves such a generator. -/
def Does (options : Options) (x : Generating α) (y : Except Failure α) : Prop :=
  ∀ g, Serves options g → (x.from g).1 = y ∧ Serves options (x.from g).2

theorem does_pure (a : α) : Does options (pure a) (.ok a) := fun _ hg => ⟨rfl, hg⟩

theorem does_lift (x : Except Failure α) : Does options (liftM x) x := fun _ hg => ⟨rfl, hg⟩

theorem Does.bind {x : Generating α} {y : Except Failure α} (h : Does options x y)
    {f : α → Generating β} {f' : α → Except Failure β} (hnext : ∀ a, Does options (f a) (f' a)) :
    Does options (x >>= f) (y >>= f') := by
  intro g hg
  obtain ⟨hresult, hserves⟩ := h g hg
  rw [Stateful.from_bind]
  cases hx : x.from g with
  | mk result g' =>
    rw [hx] at hresult hserves
    subst hresult
    cases result with
    | ok a => exact hnext a g' hserves
    | error cause => exact ⟨rfl, hserves⟩

theorem Does.map {x : Generating α} {y : Except Failure α} (h : Does options x y) (f : α → β) :
    Does options (f <$> x) (f <$> y) := by
  rw [map_eq_pure_bind, map_eq_pure_bind]
  exact h.bind fun a => does_pure (f a)

theorem does_generate (schema : Value) (name : String) :
    Does options (generate schema name) (generateModel options.dialect schema name) := by
  intro g ⟨hdialect, hconventions⟩
  obtain ⟨hcode, hdialect', hconventions'⟩ := g.generateModel_eq schema name .null
  refine ⟨?_, hdialect'.trans hdialect, hconventions'.trans hconventions⟩
  show (g.generateModel schema name .null).1.mapError _ = _
  rw [hcode, hdialect, hconventions]
  rfl

theorem does_generate? (schema : Option Value) (name : String) :
    Does options (generate? schema name) (generateModel? options.dialect schema name) := by
  cases schema with
  | none => exact does_pure none
  | some schema => exact (does_generate schema name).bind fun code => does_pure (some code)

theorem does_generateCode (operation : Operation) :
    Does options (generateCode operation options) (operationCode operation options) := by
  refine (does_lift _).bind fun schema => ?_
  refine (does_generate? schema _).bind fun input => ?_
  refine (does_generate? operation.outputSchema _).bind fun output => ?_
  exact (does_lift _).bind fun identity => does_pure _

theorem does_generateSpec (api : Api) (operation : Operation) :
    Does options (generateSpec api options operation) (importSpec api options operation) := by
  refine (does_generateCode operation).bind fun code => ?_
  cases options.buildSpecs with
  | true =>
    refine ((does_lift (operationSpec operation options api.document)).map some).bind fun spec => ?_
    exact (does_lift _).bind fun identity => does_pure _
  | false => exact (does_pure none).bind fun spec => (does_lift _).bind fun identity => does_pure _

/-! ## All operations -/

theorem importNext_eq (api : Api) {g : Generator} (hg : Serves options g) (operation : Operation) :
    (importNext api options g operation).1 = importOperation api options operation
      ∧ Serves options (importNext api options g operation).2 := by
  unfold importNext importOperation
  cases skipReason? operation options with
  | some reason => exact ⟨rfl, hg⟩
  | none =>
    obtain ⟨hresult, hserves⟩ := does_generateSpec api operation g hg
    dsimp only
    cases hrun : (generateSpec api options operation).from g with
    | mk result g' =>
      rw [hrun] at hresult hserves
      rw [← hresult]
      cases result with
      | ok item => exact ⟨rfl, hserves⟩
      | error cause => exact ⟨rfl, hserves⟩

theorem importEach_cons (api : Api) (g : Generator) (operation : Operation)
    (rest : List Operation) :
    importEach api options g (operation :: rest)
      = (importNext api options g operation).1
        :: importEach api options (importNext api options g operation).2 rest := rfl

/-- Induction on the operations; the generator varies. -/
theorem importEach_eq (api : Api) {g : Generator} (hg : Serves options g)
    (operations : List Operation) :
    importEach api options g operations = operations.map (importOperation api options) := by
  induction operations generalizing g with
  | nil => rfl
  | cons operation rest ih =>
    obtain ⟨houtcome, hserves⟩ := importNext_eq api hg operation
    rw [importEach_cons, houtcome, ih hserves, List.map_cons]

theorem importAll_eq (api : Api) (options : Options) :
    importAll api options = Result.ofApi api options := by
  unfold importAll Result.ofApi
  rw [importEach_eq api ⟨rfl, rfl⟩]

/-! ## The three lists -/

/-- The document with only some of its operations; everything else in it stays. -/
def only (api : Api) (operations : List Operation) : Api := { api with operations }

/-- What an operation comes to: one entry in one of the three lists, under its own id. -/
inductive Lands (operation : Operation) (r : Result) : Prop where
  | imported (item : Imported) (hid : item.source.id = operation.id)
      (hhints : item.hints = requestHints operation)
      (hspecs : r.specs = [item]) (hskipped : r.skipped = []) (hfailed : r.failed = [])
  | skipped (reason : SkipReason)
      (hspecs : r.specs = []) (hskipped : r.skipped = [(operation.id, reason)])
      (hfailed : r.failed = [])
  | failed (cause : Failure)
      (hspecs : r.specs = []) (hskipped : r.skipped = [])
      (hfailed : r.failed = [(operation.id, cause)])

theorem importAll_only (api : Api) (options : Options) (operations : List Operation) :
    importAll (only api operations) options = ⟨operations.map (importOperation api options)⟩ := by
  rw [importAll_eq]
  -- what becomes of an operation depends on the document and its version only
  rfl

/-- What an imported operation is made of. -/
structure ImportedFrom (api : Api) (options : Options) (operation : Operation) (item : Imported) :
    Prop where
  code : operationCode operation options = .ok item.code
  file : ∃ identity, identityOf operation options.namePrefix = .ok identity
    ∧ item.fileName = Naming.fileName identity.name
  spec : options.buildSpecs = true →
    ∃ spec, item.spec = some spec ∧ operationSpec operation options api.document = .ok spec
  id : item.source.id = operation.id
  hints : item.hints = requestHints operation

theorem importedFrom_of_importSpec {api : Api} {operation : Operation} {item : Imported}
    (h : importSpec api options operation = .ok item) :
    ImportedFrom api options operation item := by
  unfold importSpec at h
  obtain ⟨code, hcode, h⟩ := bind_eq_ok.mp h
  cases hbuild : options.buildSpecs with
  | true =>
    rw [hbuild] at h
    obtain ⟨built, hbuilt, h⟩ := bind_eq_ok.mp h
    obtain ⟨spec, hspec, rfl⟩ := map_eq_ok.mp hbuilt
    obtain ⟨identity, hidentity, h⟩ := bind_eq_ok.mp h
    cases h
    exact ⟨hcode, ⟨identity, hidentity, rfl⟩, fun _ => ⟨spec, rfl, hspec⟩, rfl, rfl⟩
  | false =>
    rw [hbuild] at h
    obtain ⟨built, -, h⟩ := bind_eq_ok.mp h
    obtain ⟨identity, hidentity, h⟩ := bind_eq_ok.mp h
    cases h
    refine ⟨hcode, ⟨identity, hidentity, rfl⟩, fun hspecs => ?_, rfl, rfl⟩
    rw [hbuild] at hspecs
    cases hspecs

/-- An operation that is imported is not skipped. -/
theorem importOperation_eq_imported {api : Api} {operation : Operation} {item : Imported}
    (h : importOperation api options operation = .imported item) :
    importSpec api options operation = .ok item := by
  unfold importOperation at h
  split at h
  · cases h
  · split at h
    · rename_i item' hitem
      cases h
      exact hitem
    · cases h

theorem lands (api : Api) (options : Options) (operation : Operation) :
    Lands operation (importAll (only api [operation]) options) := by
  rw [importAll_only]
  show Lands operation ⟨[importOperation api options operation]⟩
  unfold importOperation
  cases skipReason? operation options with
  | some reason => exact .skipped reason rfl rfl rfl
  | none =>
    dsimp only
    cases hitem : importSpec api options operation with
    | ok item =>
      have hfrom := importedFrom_of_importSpec hitem
      exact .imported item hfrom.id hfrom.hints rfl rfl rfl
    | error cause => exact .failed cause rfl rfl rfl

/-! ## The whole document -/

/-- What a batch gives, said by what each operation gives on its own. -/
structure Pointwise (api : Api) (options : Options) : Prop where
  specs : (importAll api options).specs
    = api.operations.flatMap fun o => (importAll (only api [o]) options).specs
  skipped : (importAll api options).skipped
    = api.operations.flatMap fun o => (importAll (only api [o]) options).skipped
  failed : (importAll api options).failed
    = api.operations.flatMap fun o => (importAll (only api [o]) options).failed
  lands : ∀ o, Lands o (importAll (only api [o]) options)
  total : (importAll api options).specs.length + (importAll api options).skipped.length
    + (importAll api options).failed.length = api.operations.length
  summary : (importAll api options).summary = record [
    ("total", .int api.operations.length), ("imported", .int (importAll api options).specs.length),
    ("skipped", .int (importAll api options).skipped.length),
    ("errors", .int (importAll api options).failed.length)]
  /-- Whatever a generator was left with by other models, the operations come to the same. -/
  leftovers : ∀ g, Serves options g →
    importEach api options g api.operations = (importAll api options).outcomes
  /-- An operation without a spec may as well be missing. -/
  frame : ∀ before o after, api.operations = before ++ o :: after →
    (importAll (only api [o]) options).specs = [] →
      (importAll (only api (before ++ after)) options).specs = (importAll api options).specs

/-- What is listed of some operations is listed operation by operation. -/
theorem filterMap_outcomes (api : Api) (options : Options) (listed : Outcome → Option α)
    (operations : List Operation) :
    (importAll (only api operations) options).outcomes.filterMap listed
      = operations.flatMap fun o =>
          (importAll (only api [o]) options).outcomes.filterMap listed := by
  induction operations with
  | nil => rfl
  | cons o rest ih =>
    rw [List.flatMap_cons, ← ih, importAll_only, importAll_only, importAll_only,
      ← List.filterMap_append]
    rfl

/-- The three lists have one entry for every outcome. -/
theorem length_lists (r : Result) :
    r.specs.length + r.skipped.length + r.failed.length = r.outcomes.length := by
  obtain ⟨outcomes⟩ := r
  unfold Result.specs Result.skipped Result.failed
  induction outcomes with
  | nil => rfl
  | cons outcome rest ih =>
    dsimp only at ih
    cases outcome with
    | imported item => simp only [List.filterMap_cons, List.length_cons]; omega
    | skipped id reason => simp only [List.filterMap_cons, List.length_cons]; omega
    | failed id cause => simp only [List.filterMap_cons, List.length_cons]; omega

/-- **A batch is imported operation by operation**, in every dialect. -/
theorem batch_is_pointwise (api : Api) (options : Options) : Pointwise api options := by
  have hlength : (importAll api options).outcomes.length = api.operations.length := by
    rw [importAll_eq]
    exact List.length_map _
  refine {
    specs := filterMap_outcomes api options _ api.operations
    skipped := filterMap_outcomes api options _ api.operations
    failed := filterMap_outcomes api options _ api.operations
    lands := lands api options
    total := (length_lists _).trans hlength
    summary := ?_
    leftovers := ?_
    frame := ?_ }
  · unfold Result.summary
    rw [hlength]
  · intro g hg
    rw [importEach_eq api hg, importAll_eq]
    rfl
  · intro before o after hoperations hnone
    have hspecs : ∀ operations, (importAll (only api operations) options).specs
        = operations.flatMap fun o => (importAll (only api [o]) options).specs :=
      filterMap_outcomes api options _
    have hapi : only api (before ++ o :: after) = api := by rw [← hoperations]; rfl
    calc (importAll (only api (before ++ after)) options).specs
        = (before ++ after).flatMap fun o => (importAll (only api [o]) options).specs :=
          hspecs (before ++ after)
      _ = (before ++ o :: after).flatMap fun o => (importAll (only api [o]) options).specs := by
          rw [List.flatMap_append, List.flatMap_append, List.flatMap_cons, hnone, List.nil_append]
      _ = (importAll (only api (before ++ o :: after)) options).specs :=
          (hspecs (before ++ o :: after)).symm
      _ = (importAll api options).specs := by rw [hapi]

end ApiContract.Import
