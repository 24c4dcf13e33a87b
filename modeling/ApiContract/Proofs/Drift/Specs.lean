import ApiContract.Drift.Spec
import ApiContract.Import.Result
import ApiContract.Proofs.Checked
import ApiContract.Proofs.Drift.Schema
import ApiContract.Proofs.Drift.Unchanged
import ApiContract.Proofs.Export.Layout

/-!
# Comparing specs and operations

Header, transport and policy of a spec have no changes against themselves, so two specs that agree in
these are compared by their input and their output alone.

Where tags, place and deprecation of a spec and of an operation agree, only the descriptions are
compared. An import and a comparison fall back on different texts where there is no summary, so they
agree on everything else.

* **`compareSpecs_options`** — no options add a change.
* **`compareSpecs_eq_nil_iff`** — specs that differ in their models.
* **`compareWithOperation_of_agrees`** — what is compared where the rest agrees.
* **`descriptionChange_eq_nil_iff`** — when the descriptions agree.
* **`operationSpec_drift_iff`** — when a spec drifts from the operation of which it was built.
-/

namespace ApiContract.Drift

open Contract OpenApi

/-! ## Parts that do not count -/

theorem compareMembers_iff_unchanged {path : String} {old new : Members} (key : Scalar) :
    compareMembers {} path old new = [] ↔ Unchanged key (.map old) (.map new) := by
  rw [compareMembers_eq_nil_iff, unchanged_map_iff]

/-- The parts of a spec, one by one. -/
theorem compareMembers_self {path : String} {members : Members} (h : TextKeys members)
    (hmembers : ∀ m ∈ members, Unchanged m.1 m.2 m.2) :
    compareMembers {} path members members = [] :=
  (compareMembers_iff_unchanged .null).mpr (unchanged_map_self h hmembers)

theorem unchanged_int (key : Scalar) (n : Int) : Unchanged key (.int n) (.int n) := by
  refine (unchanged_self_of_not_map rfl).mpr ?_
  rw [same, sameLeaf_self_iff]
  intro h
  cases h

/-- The members of a header. -/
def headerMembers (h : OperationHeader) : Members :=
  h.members ++ [member "kind" (.str h.kind.name)] ++ memberIf "goal" .str h.goal ++
    memberIf "context" .str h.context

theorem compareMembers_header (path : String) (h : OperationHeader) :
    compareMembers {} path (membersOfValue h.toValue) (membersOfValue h.toValue) = [] := by
  show compareMembers {} path (headerMembers h) (headerMembers h) = []
  obtain ⟨⟨name, version, stability, owners, tags, description⟩, kind, goal, context⟩ := h
  refine compareMembers_self ⟨?_, ?_⟩ ?_
  · cases description <;> cases goal <;> cases context <;>
      simp [headerMembers, Header.members, member, memberIf]
  · cases description <;> cases goal <;> cases context <;>
      simp [headerMembers, Header.members, member, memberIf]
  · cases description <;> cases goal <;> cases context <;>
      simp [headerMembers, Header.members, member, memberIf, texts, unchanged_str, unchanged_int,
        unchanged_texts]

theorem compareMembers_policy (path : String) (auth : AuthLevel) :
    compareMembers {} path (membersOfValue auth.policy) (membersOfValue auth.policy) = [] := by
  show compareMembers {} path [member "auth" (.str auth.name)] [member "auth" (.str auth.name)] = []
  refine compareMembers_self ⟨?_, ?_⟩ ?_ <;> simp [member, unchanged_str]

theorem unchanged_rest (key : Scalar) (t : RestTransport) : Unchanged key t.toValue t.toValue := by
  obtain ⟨method, path⟩ := t
  unfold RestTransport.toValue
  refine unchanged_map_self ⟨?_, ?_⟩ ?_
  · cases method <;> cases path <;> simp [member, memberIf]
  · cases method <;> cases path <;> simp [member, memberIf]
  · cases method <;> cases path <;> simp [member, memberIf, unchanged_str]

theorem unchanged_graphQl (key : Scalar) (t : GraphQlTransport) :
    Unchanged key t.toValue t.toValue := by
  unfold GraphQlTransport.toValue
  refine unchanged_map_self ⟨?_, ?_⟩ ?_ <;> simp [member, unchanged_str]

theorem compareTrees_transport (path : String) (t : Option Transport) :
    compareTrees {} path (t.map fun t => membersOfValue t.toValue)
      (t.map fun t => membersOfValue t.toValue) = [] := by
  cases t with
  | none => rfl
  | some t =>
    obtain ⟨rest, graphQl⟩ := t
    show compareMembers {} path
        (memberIf "rest" RestTransport.toValue rest ++ memberIf "graphql" GraphQlTransport.toValue graphQl)
        (memberIf "rest" RestTransport.toValue rest ++ memberIf "graphql" GraphQlTransport.toValue graphQl)
      = []
    refine compareMembers_self ⟨?_, ?_⟩ ?_
    · cases rest <;> cases graphQl <;> simp [member, memberIf]
    · cases rest <;> cases graphQl <;> simp [member, memberIf]
    · cases rest <;> cases graphQl <;> simp [member, memberIf, unchanged_rest, unchanged_graphQl]

theorem compareTrees_scope {path : String} (scope : Scope) {old new : Option Members}
    (h : compareTrees {} path old new = []) : compareTrees scope path old new = [] := by
  cases old with
  | none =>
    cases new with
    | none => rfl
    | some new => cases h
  | some old =>
    cases new with
    | none => cases h
    | some new => exact compareMembers_scope scope path h

/-- **No options add a change** where there is none without them. -/
theorem compareSpecs_options (options : Options) {old new : OperationSpec}
    (h : compareSpecs {} old new = []) : compareSpecs options old new = [] := by
  unfold compareSpecs at h ⊢
  obtain ⟨h, hpolicy⟩ := List.append_eq_nil_iff.mp h
  obtain ⟨h, htransport⟩ := List.append_eq_nil_iff.mp h
  obtain ⟨hmeta, hio⟩ := List.append_eq_nil_iff.mp h
  refine List.append_eq_nil_iff.mpr ⟨List.append_eq_nil_iff.mpr ⟨List.append_eq_nil_iff.mpr
    ⟨compareMembers_scope _ _ hmeta, compareMembers_scope _ _ hio⟩, ?_⟩,
    compareMembers_scope _ _ hpolicy⟩
  split
  · rfl
  · exact compareTrees_scope _ htransport

/-! ## Input and output -/

/-- The schema of a model that may be absent. -/
def optionalSchema (m : Option SchemaModel) : Value := (m.map SchemaModel.toJsonSchema).getD .null

theorem textKeys_schemaTree (spec : OperationSpec) : TextKeys (schemaTree spec) := by
  unfold schemaTree
  constructor
  · cases spec.input <;> cases spec.output <;> simp [member, memberIf]
  · cases spec.input <;> cases spec.output <;> simp [member, memberIf]

theorem get?_schemaTree (spec : OperationSpec) (name : String) :
    Members.get? (schemaTree spec) name
      = if name = "input" then spec.input.map SchemaModel.toJsonSchema
        else if name = "output" then spec.output.map SchemaModel.toJsonSchema else none := by
  unfold schemaTree
  simp only [Members.get?_append, Members.get?_memberIf, eq_comm (a := name)]
  by_cases hinput : "input" = name
  · subst hinput
    simp
  · by_cases houtput : "output" = name
    · subst houtput
      simp
    · simp [hinput, houtput]

/-- Input and output are compared by name. -/
theorem compareMembers_schemaTree {path : String} {old new : OperationSpec} :
    compareMembers {} path (schemaTree old) (schemaTree new) = []
      ↔ Unchanged (.str "input") (optionalSchema old.input) (optionalSchema new.input)
        ∧ Unchanged (.str "output") (optionalSchema old.output) (optionalSchema new.output) := by
  rw [compareMembers_iff_unchanged .null,
    unchanged_map_iff_get? (textKeys_schemaTree old) (textKeys_schemaTree new)]
  constructor
  · intro h
    have hinput := h "input"
    have houtput := h "output"
    rw [get?_schemaTree, get?_schemaTree] at hinput houtput
    exact ⟨hinput, houtput⟩
  · rintro ⟨hinput, houtput⟩ name
    rw [get?_schemaTree, get?_schemaTree]
    by_cases hname : name = "input"
    · rw [if_pos hname, if_pos hname, hname]
      exact hinput
    · rw [if_neg hname, if_neg hname]
      by_cases hname : name = "output"
      · rw [if_pos hname, if_pos hname, hname]
        exact houtput
      · rw [if_neg hname, if_neg hname]
        exact unchanged_null _

/-- **Specs that agree in the rest** are compared by their input and their output. -/
theorem compareSpecs_eq_nil_iff {old new : OperationSpec} (header : new.header = old.header)
    (auth : new.auth = old.auth) (transport : new.transport = old.transport) :
    compareSpecs {} old new = []
      ↔ Unchanged (.str "input") (optionalSchema old.input) (optionalSchema new.input)
        ∧ Unchanged (.str "output") (optionalSchema old.output) (optionalSchema new.output) := by
  show compareMembers {} "meta" (membersOfValue old.header.toValue) (membersOfValue new.header.toValue)
      ++ compareMembers {} "io" (schemaTree old) (schemaTree new)
      ++ compareTrees {} "transport" (old.transport.map fun t => membersOfValue t.toValue)
        (new.transport.map fun t => membersOfValue t.toValue)
      ++ compareMembers {} "policy" (membersOfValue old.auth.policy) (membersOfValue new.auth.policy)
      = [] ↔ _
  rw [header, auth, transport, compareMembers_header, compareMembers_policy, compareTrees_transport,
    List.nil_append, List.append_nil, List.append_nil]
  exact compareMembers_schemaTree

/-! ## A spec that agrees with an operation -/

/-- A spec and an operation agree on all that is compared but the description. -/
structure Agrees (spec : OperationSpec) (o : Operation) : Prop where
  tags : o.tags = spec.header.tags
  verb : spec.verb = o.method.verb
  path : ∀ path ∈ OperationSpec.nonEmpty (spec.rest?.bind (·.path)), path = o.path
  deprecated : o.deprecated = decide (spec.header.stability = .deprecated)

theorem Agrees.tagsChange {spec : OperationSpec} {o : Operation} (h : Agrees spec o) :
    tagsChange spec o = [] := by
  unfold Drift.tagsChange
  dsimp only
  rw [h.tags, if_pos rfl]

theorem Agrees.transportChange {spec : OperationSpec} {o : Operation} (h : Agrees spec o) :
    transportChange spec o = [] := by
  unfold Drift.transportChange textChange
  rw [if_pos h.verb, List.nil_append]
  split
  · rename_i path hpath
    rw [if_pos (h.path path hpath)]
  · rfl

theorem Agrees.stabilityChange {spec : OperationSpec} {o : Operation} (h : Agrees spec o) :
    stabilityChange spec o = [] := by
  unfold Drift.stabilityChange
  rw [if_pos h.deprecated.symm]

/-- **Where the rest agrees, the descriptions are compared.** -/
theorem compareWithOperation_of_agrees {spec : OperationSpec} {o : Operation} (h : Agrees spec o) :
    compareWithOperation {} spec o = descriptionChange spec o := by
  unfold compareWithOperation
  dsimp only
  rw [h.tagsChange, h.transportChange, h.stabilityChange]
  simp [isIgnored]

/-! ## Descriptions -/

/-- Texts that may be absent are the same only if they are equal. -/
theorem same_optionalText_iff {old new : Option String} :
    same (optionalText old) (optionalText new) = true ↔ old = new := by
  cases old <;> cases new <;> simp [optionalText, same, sameLeaf, kindOf]

/-- **When the descriptions agree.** An operation is described by its summary, or else by its
description, also if that is empty. -/
theorem descriptionChange_eq_nil_iff {spec : OperationSpec} {o : Operation} :
    descriptionChange spec o = []
      ↔ spec.header.description = (OperationSpec.nonEmpty o.summary).or o.description := by
  unfold descriptionChange
  dsimp only
  rw [Option.toList_eq_nil_iff, compare_eq_none_iff, same_optionalText_iff]

theorem path_of_mem_descriptionChange {spec : OperationSpec} {o : Operation} {c : Change}
    (h : c ∈ descriptionChange spec o) : c.path = "meta.description" := by
  unfold descriptionChange compare at h
  dsimp only at h
  rw [Option.mem_toList] at h
  split at h
  · cases h
  · cases h
    rfl

/-! ## Specs that were built of an operation -/

/-- Text that is not empty. -/
theorem eq_of_mem_nonEmpty {s : Option String} {text : String}
    (h : text ∈ OperationSpec.nonEmpty s) : s = some text := by
  unfold OperationSpec.nonEmpty at h
  exact (Option.filter_eq_some_iff.mp h).1

/-- What a spec takes over from its operation. -/
theorem agrees_of_operationSpec {o : Operation} {options : Import.Options} {document : Value}
    {spec : OperationSpec} (hstability : options.defaultStability ≠ .deprecated)
    (h : Import.operationSpec o options document = .ok spec) :
    Agrees spec o ∧ spec.header.description = some (Import.titleOf o) := by
  unfold Import.operationSpec at h
  obtain ⟨schema, -, h⟩ := bind_eq_ok.mp h
  obtain ⟨identity, -, h⟩ := bind_eq_ok.mp h
  obtain ⟨input, -, h⟩ := bind_eq_ok.mp h
  obtain ⟨output, -, h⟩ := bind_eq_ok.mp h
  cases h
  refine ⟨⟨rfl, Export.hasMethod_of_rest rfl rfl, ?_, ?_⟩, rfl⟩
  · intro path hpath
    cases eq_of_mem_nonEmpty hpath
    rfl
  · -- only the default could make a spec deprecated whose operation is not
    show o.deprecated = decide (Import.stabilityOf o options.defaultStability = .deprecated)
    unfold Import.stabilityOf
    cases o.deprecated with
    | true => rfl
    | false => simpa using hstability

/-- **When a spec drifts from the operation of which it was built**: an import falls back on the id
where there is no summary, a comparison on the description. -/
theorem operationSpec_drift_iff {o : Operation} {options : Import.Options} {document : Value}
    {spec : OperationSpec} (hstability : options.defaultStability ≠ .deprecated)
    (h : Import.operationSpec o options document = .ok spec) :
    (compareWithOperation {} spec o = []
      ↔ (OperationSpec.nonEmpty o.summary).isSome ∨ o.description = some o.id)
    ∧ ∀ c ∈ compareWithOperation {} spec o, c.path = "meta.description" := by
  obtain ⟨hagrees, hdescription⟩ := agrees_of_operationSpec hstability h
  rw [compareWithOperation_of_agrees hagrees]
  refine ⟨?_, fun c hc => path_of_mem_descriptionChange hc⟩
  rw [descriptionChange_eq_nil_iff, hdescription]
  show some ((OperationSpec.nonEmpty o.summary).getD o.id) = _ ↔ _
  cases OperationSpec.nonEmpty o.summary with
  | some summary => simp
  | none =>
    simp only [Option.getD_none, Option.none_or, Option.isSome_none, Bool.false_eq_true, false_or]
    exact eq_comm

/-- An operation of which no more is known than its place, with a summary and a body. -/
def listPets (summary : Option String) (body : Option RequestBody) : Operation where
  id := "listPets"
  method := .get
  path := "/pets"
  summary
  description := none
  tags := []
  pathParams := []
  queryParams := []
  headerParams := []
  cookieParams := []
  requestBody := body
  responses := []
  deprecated := false
  security := none
  identity := none

theorem no_drift_with_summary :
    ∃ spec, Import.operationSpec (listPets (some "All pets") none) {} .null = .ok spec
      ∧ compareWithOperation {} spec (listPets (some "All pets") none) = [] :=
  ⟨_, rfl, (@operationSpec_drift_iff (listPets (some "All pets") none) {} .null _ (by decide)
    rfl).1.mpr (.inl rfl)⟩

/-- Without a summary the spec is described by the id, and the operation by nothing. Of an operation
whose required names are a number there is no spec. -/
theorem drift_without_summary :
    (∃ spec, Import.operationSpec (listPets none none) {} .null = .ok spec
      ∧ compareWithOperation {} spec (listPets none none)
          = [⟨"meta.description", .removed, .str "listPets", .null, "Description changed"⟩])
    ∧ ∀ spec, Import.operationSpec
        (listPets (some "All pets") (some ⟨true, "application/json",
          some (.map [(.str "required", .int 5)])⟩)) {} .null ≠ .ok spec := by
  refine ⟨⟨_, rfl, ?_⟩, fun spec h => ?_⟩
  · rw [compareWithOperation_of_agrees
      (@agrees_of_operationSpec (listPets none none) {} .null _ (by decide) rfl).1]
    rfl
  · cases h

end ApiContract.Drift
