import ApiContract.Drift.Pairing
import ApiContract.Proofs.Drift.Specs
import ApiContract.Proofs.Export.Accepted
import ApiContract.Proofs.Export.References
import ApiContract.Proofs.Export.Restored
import ApiContract.Proofs.OpenApi.Places

/-!
# A registry against its own export

The operations of an exported document say of their specs what a comparison looks at, whatever
becomes of the schemas, and each is found by the identity it carries. So only a description can
differ: an export writes it as the summary and falls back on nothing, and a comparison falls back on
what the operation describes, which is the goal.

* **`reads_of_unslashed`** — the specs whose operations can be read.
* **`described_operations`** — the operations of the document, each with the spec it is of.
* **`findOperation_of_describes`** — the operation of a spec is found.
* **`export_validates`** — the headline.
-/

namespace ApiContract.Export

open Contract Drift OpenApi Schema

variable {registry : Registry OperationSpec}

/-! ## Schemas that can be read -/

section Schemas

variable {document : Value} {names : List String} {members : Members}

theorem check_of_keys (h : ∀ m ∈ members, ∃ s, m.1 = .str s) :
    Check.optional Check.object (.map members) = .ok (some (.map members)) := by
  show some <$> Check.object (.map members) = _
  rw [Check.object_ok h]
  rfl

/-- A schema is read if the chain of its references ends at what the first of them leads to. -/
theorem inlines_of_resolve {node : Members} (hinlined : inlined document (.map node) = .map members)
    (hresolve : Reference.resolve document (.map node) = .ok (.map members))
    (hkeys : ∀ m ∈ members, ∃ s, m.1 = .str s) : Inlines document (.map node) := by
  refine ⟨?_, ?_⟩
  · unfold schemaAt
    rw [hresolve, hinlined]
    rfl
  · rw [hinlined]
    exact check_of_keys hkeys

/-- A node that is no reference is read as it is. -/
theorem inlines_of_plain (h : Plain members) : Inlines document (.map members) :=
  inlines_of_resolve (inlined_of_end h.pointer?_eq_none)
    (Reference.resolve_of_pointer?_eq_none h.pointer?_eq_none) h.keys

theorem plain_settleMembers (h : Plain members) : Plain (settleMembers names members) where
  keys := by
    intro m hm
    rw [settleMembers_eq_map] at hm
    obtain ⟨m', hm', rfl⟩ := List.mem_map.mp hm
    exact h.keys m' hm'
  reference := by
    rw [get?_settleMembers, h.reference]
    rfl

/-- The node of a type other than a reference. -/
theorem plain_typeNode (f : FieldSpec) :
    (∃ ref ∈ f.ref, typeNode f = componentReference ref)
      ∨ ∃ members, typeNode f = .map members ∧ Plain members := by
  obtain ⟨scalar, values, model, ref, isOptional, isArray, description⟩ := f
  cases model with
  | some m =>
    exact .inr ⟨modelMembers m, toJsonSchema_eq m, keys_modelMembers m, (get?_modelMembers m).2.2.1⟩
  | none =>
    cases values with
    | some values => exact .inr ⟨_, rfl, (leafNode_enum values).toPlain⟩
    | none =>
      cases ref with
      | some ref => exact .inl ⟨ref, rfl, rfl⟩
      | none => exact .inr ⟨_, rfl, (leafNode_scalar _).toPlain⟩

/-- The schema of a field is a reference, or a node that is none. -/
theorem plain_toJsonSchema (f : FieldSpec) :
    (∃ ref ∈ f.ref, f.toJsonSchema = componentReference ref)
      ∨ ∃ members, f.toJsonSchema = .map members ∧ Plain members := by
  have hdescribed : ∀ members, Plain members →
      ∃ members', withDescription f.description (.map members) = .map members' ∧ Plain members' := by
    intro members h
    obtain heq | ⟨d, -, heq⟩ := withDescription_map h.reference f.description
    · exact ⟨members, heq, h⟩
    · exact ⟨_, heq, h.describe d⟩
  rw [toJsonSchema_eq_typeNode]
  cases f.isArray with
  | true => exact .inr (hdescribed _ ⟨by simp, rfl⟩)
  | false =>
    obtain ⟨ref, href, heq⟩ | ⟨members, heq, h⟩ := plain_typeNode f
    · refine .inl ⟨ref, href, ?_⟩
      show withDescription f.description (typeNode f) = _
      rw [heq]
      exact withDescription_reference rfl _
    · refine .inr ?_
      show ∃ members', withDescription f.description (typeNode f) = _ ∧ _
      rw [heq]
      exact hdescribed members h

end Schemas

/-! ## References without a slash -/

/-- What a reference without a slash leads to is a component, and no reference. -/
theorem resolvePointer_unslashed {name : String} (h : '/' ∉ name.toList) :
    Reference.resolvePointer (documentOf registry) (componentPath ++ name) = none
      ∨ ∃ members, Reference.resolvePointer (documentOf registry) (componentPath ++ name)
          = some (.map members) ∧ Plain members := by
  rw [Reference.resolvePointer_of_notMem h (get?_documentOf_components registry) rfl,
    component?_documentOf]
  cases hget : Named.get? (components (placedOf registry)) (Reference.unescape name.toList) with
  | none => exact .inl rfl
  | some tree =>
    obtain ⟨m, rfl⟩ := exists_model_of_mem_components (Named.mem_of_get? hget)
    rw [Option.map_some, settle_model]
    exact .inr ⟨_, rfl, (objectNode_model m).toPlain⟩

theorem inlines_unslashed {name : String} (h : '/' ∉ name.toList) :
    Inlines (documentOf registry) (componentReference name) := by
  obtain hnone | ⟨members, hsome, hplain⟩ := @resolvePointer_unslashed registry _ h
  · -- a reference that leads nowhere is read as it is
    have hinlined : inlined (documentOf registry) (componentReference name)
        = componentReference name := by
      unfold inlined
      rw [Reference.pointer?_component, Option.bind_some, hnone]
      rfl
    have hresolve : Reference.resolve (documentOf registry) (componentReference name)
        = .ok (componentReference name) := by
      unfold Reference.resolve Reference.follow
      rw [Reference.pointer?_component]
      dsimp only
      rw [hnone]
      rfl
    exact inlines_of_resolve hinlined hresolve (by simp)
  · have hinlined : inlined (documentOf registry) (componentReference name) = .map members := by
      unfold inlined
      rw [Reference.pointer?_component, Option.bind_some, hsome]
      rfl
    have hresolve : Reference.resolve (documentOf registry) (componentReference name)
        = .ok (.map members) := by
      unfold Reference.resolve Reference.follow
      rw [Reference.pointer?_component]
      dsimp only
      rw [hsome]
      exact Reference.follow_end _ _ hplain.pointer?_eq_none
    exact inlines_of_resolve hinlined hresolve hplain.keys

/-- A spec without slashes in its name and in the references of its input's fields. -/
structure Unslashed (spec : OperationSpec) : Prop where
  name : '/' ∉ spec.header.name.toList
  refs : ∀ m ∈ spec.input, ∀ f ∈ m.fields, ∀ ref ∈ f.2.ref, '/' ∉ ref.toList

theorem Unslashed.operationId {spec : OperationSpec} (h : Unslashed spec) :
    '/' ∉ spec.operationId.toList := by
  intro hc
  rcases mem_operationId hc with hc | hc | hc | hc | hc
  · exact h.name hc
  all_goals exact absurd hc (by decide)

theorem inlines_field {f : FieldSpec} (h : ∀ ref ∈ f.ref, '/' ∉ ref.toList) :
    Inlines (documentOf registry) (settle (componentNames (placedOf registry)) f.toJsonSchema) := by
  obtain ⟨ref, href, heq⟩ | ⟨members, heq, hplain⟩ := plain_toJsonSchema f
  · rw [heq, settle_componentReference]
    split
    · exact inlines_unslashed (h ref href)
    · exact inlines_of_plain ⟨by simp, rfl⟩
  · rw [heq, settle_map hplain.reference]
    exact inlines_of_plain (plain_settleMembers hplain)

/-- **Operations without slashes can be read.** -/
theorem reads_of_unslashed {spec : OperationSpec} (hspec : spec ∈ placedOf registry)
    (h : Unslashed spec) :
    Reads (documentOf registry) (componentNames (placedOf registry)) spec where
  parameters := by
    have hfield : ∀ f ∈ (spec.input.map (·.fields)).getD [], Inlines (documentOf registry)
        (settle (componentNames (placedOf registry)) f.2.toJsonSchema) := by
      cases hinput : spec.input with
      | none => exact fun f hf => absurd hf List.not_mem_nil
      | some m => exact fun f hf => inlines_field (h.refs m hinput f hf)
    have hstring : Inlines (documentOf registry)
        (settle (componentNames (placedOf registry)) (.map ScalarType.string.schema)) := by
      rw [settle_map rfl]
      exact inlines_of_plain (plain_settleMembers (leafNode_scalar .string).toPlain)
    intro p hp
    unfold parameterParts at hp
    dsimp only at hp
    rcases List.mem_append.mp hp with hp | hp
    · obtain ⟨name, -, rfl⟩ := List.mem_map.mp hp
      cases hget : Named.get? ((spec.input.map (·.fields)).getD []) name with
      | none => exact hstring
      | some f => exact hfield (name, f) (Named.mem_of_get? hget)
    · split at hp
      · obtain ⟨f, hf, rfl⟩ := List.mem_map.mp hp
        exact hfield f (List.mem_filter.mp hf).1
      · cases hp
  body c hc := by
    refine ⟨mem_of_mem_bodyComponent (mem_componentNames hspec).1 hc, inlines_unslashed ?_⟩
    unfold bodyComponent at hc
    split at hc
    · cases hc
      unfold inputName
      rw [String.toList_append, List.mem_append, not_or]
      exact ⟨by decide, h.operationId⟩
    · cases hc
  output hsome := by
    refine ⟨(mem_componentNames hspec).2 hsome, inlines_unslashed ?_⟩
    unfold outputName
    rw [String.toList_append, List.mem_append, not_or]
    exact ⟨by decide, h.operationId⟩

/-! ## The operations of the document -/

theorem Describes.place {m : Method} {spec : OperationSpec} {o : Operation} (h : Describes m spec o)
    (hmethod : HasMethod spec m) : o.place = (spec.path, spec.verb) := by
  unfold Operation.place
  rw [h.path, h.method, hmethod]

theorem Describes.withId {m : Method} {spec : OperationSpec} {o : Operation} (h : Describes m spec o)
    (id : String) : Describes m spec { o with id } :=
  ⟨h.method, h.path, h.summary, h.description, h.tags, h.deprecated, h.identity⟩

/-- A renumbered operation is one of those that were renumbered, but for its id. -/
theorem mem_renumber {seen : List String} {operations : List Operation} {o : Operation}
    (h : o ∈ renumber seen operations) : ∃ o' ∈ operations, ∃ id, o = { o' with id } := by
  obtain ⟨i, hi, rfl⟩ := List.mem_iff_getElem.mp h
  obtain ⟨hlength, hget⟩ := List.forall₂_iff_get.mp (renumber_forall₂ seen operations)
  exact ⟨_, List.getElem_mem (hlength ▸ hi), hget i (hlength ▸ hi) hi⟩

/-- **What is read from the slot of a spec describes it.** -/
theorem describes_of_arranged (h : Placed registry) {p : Method × OperationSpec}
    (hp : p ∈ arranged (placedOf registry)) {o : Operation}
    (ho : (readSlot (documentOf registry)
      (slotOf (componentNames (placedOf registry)) p)).result.toOption = some o) :
    HasMethod p.2 p.1 ∧ Describes p.1 p.2 o := by
  cases hresult : (readSlot (documentOf registry)
      (slotOf (componentNames (placedOf registry)) p)).result with
  | error cause =>
    rw [hresult] at ho
    cases ho
  | ok o' =>
    rw [hresult] at ho
    cases ho
    exact ⟨(mem_arranged h.hasMethod hp).2, describes_of_readSlot hresult⟩

theorem describes_of_mem_readableOf (h : Placed registry) {o : Operation}
    (ho : o ∈ readableOf registry) :
    ∃ spec ∈ registry.specs, ∃ m, HasMethod spec m ∧ Describes m spec o := by
  obtain ⟨p, hp, ho⟩ := List.mem_filterMap.mp ho
  exact ⟨p.2, h.mem_iff.mp (mem_arranged h.hasMethod hp).1, p.1, describes_of_arranged h hp ho⟩

theorem nodup_places_readableOf (h : Placed registry) :
    ((readableOf registry).map Operation.place).Nodup := by
  refine h.nodup_arranged.sublist (sublist_map_filterMap fun p hp o ho => ?_)
  obtain ⟨hmethod, hdescribes⟩ := describes_of_arranged h hp ho
  exact hdescribes.place hmethod

/-- The operation of a spec without slashes is read at its place. -/
theorem exists_place_readableOf (h : Placed registry) {spec : OperationSpec}
    (hspec : spec ∈ registry.specs) (hunslashed : Unslashed spec) :
    ∃ o ∈ readableOf registry, o.place = (spec.path, spec.verb) := by
  obtain ⟨⟨m, spec⟩, hp, rfl⟩ := List.mem_map.mp (h.arranged_perm.mem_iff.mpr hspec)
  obtain ⟨hplaced, hmethod⟩ := mem_arranged h.hasMethod hp
  have hresult := readSlot_exported (reads_of_unslashed hplaced hunslashed) m
  refine ⟨readBack (documentOf registry) (componentNames (placedOf registry)) m spec,
    List.mem_filterMap.mpr ⟨_, hp, ?_⟩, ?_⟩
  · rw [hresult]
    rfl
  · exact (describes_of_readSlot (congrArg Reading.result hresult)).place hmethod

/-- **Every operation of the document describes one spec**, no two stand in one place, and there is
one for every spec without slashes. -/
theorem described_operations (h : Placed registry) :
    ∃ api, Api.ofDocument (documentOf registry) = .ok api
      ∧ (api.operations.map Operation.place).Nodup
      ∧ (∀ o ∈ api.operations, ∃ spec ∈ registry.specs, ∃ m, HasMethod spec m ∧ Describes m spec o)
      ∧ ∀ spec ∈ registry.specs, Unslashed spec →
          ∃ o ∈ api.operations, o.place = (spec.path, spec.verb) := by
  obtain ⟨api, hok, -, hoperations⟩ := ofDocument_readable h.hasMethod h.head?_path
  refine ⟨api, hok, ?_⟩
  rw [hoperations, map_place_renumber]
  refine ⟨nodup_places_readableOf h, fun o ho => ?_, fun spec hspec hunslashed => ?_⟩
  · -- an id tells nothing of the spec
    obtain ⟨o', ho', id, rfl⟩ := mem_renumber ho
    obtain ⟨spec, hspec, m, hmethod, hdescribes⟩ := describes_of_mem_readableOf h ho'
    exact ⟨spec, hspec, m, hmethod, hdescribes.withId id⟩
  · obtain ⟨o, ho, hplace⟩ := exists_place_readableOf h hspec hunslashed
    have hmem : (spec.path, spec.verb)
        ∈ (renumber [] (readableOf registry)).map Operation.place := by
      rw [map_place_renumber, ← hplace]
      exact List.mem_map_of_mem ho
    exact List.mem_map.mp hmem

/-! ## Finding the operation of a spec -/

/-- The first operation with the identity of a spec, if there is no other. -/
theorem findByIdentity_of_unique {spec : OperationSpec} {operations : List Operation}
    {o : Operation} (ho : o ∈ operations) (htrue : hasIdentity spec o = .ok true)
    (hothers : ∀ o' ∈ operations, o' = o ∨ hasIdentity spec o' = .ok false) :
    findByIdentity spec operations = .ok (some o) := by
  induction operations with
  | nil => cases ho
  | cons o' rest ih =>
    rw [findByIdentity]
    rcases hothers o' List.mem_cons_self with rfl | hfalse
    · rw [htrue]
      rfl
    · -- the search goes on, and the one operation is still to come
      rw [hfalse]
      refine ih ((List.mem_cons.mp ho).resolve_left ?_)
        fun o'' ho'' => hothers o'' (List.mem_cons_of_mem _ ho'')
      rintro rfl
      cases htrue.symm.trans hfalse

/-- An operation carries the identity of a spec if it was exported for one of that name and
version. -/
theorem hasIdentity_of_describes {m : Method} {spec spec' : OperationSpec} {o : Operation}
    (h : Describes m spec' o) :
    hasIdentity spec o = .ok (decide (spec'.header.name = spec.header.name
      ∧ spec'.header.version = spec.header.version)) := by
  have hname : (identity spec').field "name" = .str spec'.header.name := rfl
  have hversion : (identity spec').get? "version" = some (.int spec'.header.version) := rfl
  unfold hasIdentity
  rw [h.identity]
  dsimp only [Option.getD_some]
  rw [hname, hversion]
  by_cases heq : spec'.header.name = spec.header.name
  · rw [if_neg (by rw [heq]; exact not_not_intro rfl)]
    simp [Import.DeclaredVersion.of, heq]
  · have hne : Value.str spec'.header.name ≠ .str spec.header.name := by simpa using heq
    rw [if_pos hne]
    simp [heq]

/-- **The operation of a spec is found** by its identity, which no other spec of a registry has. -/
theorem findOperation_of_describes {operations : List Operation}
    (hplaces : (operations.map Operation.place).Nodup)
    (hdescribed : ∀ o ∈ operations, ∃ spec ∈ registry.specs, ∃ m,
      HasMethod spec m ∧ Describes m spec o)
    {spec : OperationSpec} (hspec : spec ∈ registry.specs) {m : Method} {o : Operation}
    (ho : o ∈ operations) (hmethod : HasMethod spec m) (h : Describes m spec o) :
    findOperation spec operations = .ok (some o) := by
  have hfound : findByIdentity spec operations = .ok (some o) := by
    refine findByIdentity_of_unique ho ?_ fun o' ho' => ?_
    · rw [hasIdentity_of_describes h]
      simp
    · obtain ⟨spec', hspec', m', hmethod', h'⟩ := hdescribed o' ho'
      rw [hasIdentity_of_describes h']
      by_cases hsame : spec'.header.name = spec.header.name
          ∧ spec'.header.version = spec.header.version
      · -- one name and one version make one key, so it is the same spec, in the same place
        have hkey : Keyed.key spec' = Keyed.key spec := by
          show spec'.header.toHeader.key = spec.header.toHeader.key
          unfold Header.key
          rw [hsame.1, hsame.2]
        have heq := List.inj_on_of_nodup_map registry.keys_nodup hspec' hspec hkey
        subst heq
        exact .inl (List.inj_on_of_nodup_map hplaces ho' ho
          ((h'.place hmethod').trans (h.place hmethod).symm))
      · exact .inr (by rw [decide_eq_false hsame])
  unfold findOperation
  rw [hfound]
  rfl

/-! ## The comparison -/

/-- A spec agrees with the operation that was exported for it. -/
theorem agrees_of_describes {m : Method} {spec : OperationSpec} {o : Operation}
    (hmethod : HasMethod spec m) (h : Describes m spec o) : Agrees spec o where
  tags := h.tags
  verb := hmethod.trans (congrArg Method.verb h.method.symm)
  path := by
    intro path hpath
    have hpath' : OperationSpec.nonEmpty (spec.rest?.bind (·.path)) = some path := hpath
    rw [h.path]
    unfold OperationSpec.path
    rw [hpath']
    rfl
  deprecated := h.deprecated

/-- A text that is not empty, or else none. -/
theorem nonEmpty_nonEmpty (s : Option String) :
    OperationSpec.nonEmpty (OperationSpec.nonEmpty s) = OperationSpec.nonEmpty s := by
  unfold OperationSpec.nonEmpty
  rw [Option.filter_filter]
  simp

theorem eq_nonEmpty_or_iff {s other : Option String} :
    s = (OperationSpec.nonEmpty s).or (OperationSpec.nonEmpty other)
      ↔ (OperationSpec.nonEmpty s).isSome ∨ s = none ∧ OperationSpec.nonEmpty other = none := by
  cases s with
  | none => cases hother : OperationSpec.nonEmpty other <;> simp [OperationSpec.nonEmpty]
  | some text =>
    cases hempty : text.isEmpty with
    | false => simp [OperationSpec.nonEmpty, hempty, Option.filter_some]
    | true =>
      -- an empty text is written by nobody, so nothing that is compared with it is empty
      rw [String.isEmpty_iff] at hempty
      subst hempty
      have hnone : OperationSpec.nonEmpty (some "") = none := rfl
      rw [hnone, Option.none_or]
      refine iff_of_false (fun h => ?_) (by simp)
      obtain ⟨-, hne⟩ := Option.filter_eq_some_iff.mp h.symm
      exact absurd hne (by decide)

/-- **A registry validates against its own export** but for descriptions: the operation at the place
of a spec is the one that is found for it, and it differs exactly if the description is an empty text
or is left to the goal. Where no name has a slash, there is an operation for every spec. -/
theorem export_validates (h : Placed registry) :
    ∃ api, Api.ofDocument (documentOf registry) = .ok api
      ∧ ∀ spec ∈ registry.specs,
        (Unslashed spec → ∃ o ∈ api.operations, o.place = (spec.path, spec.verb))
        ∧ ∀ o ∈ api.operations, o.place = (spec.path, spec.verb) →
            findOperation spec api.operations = .ok (some o)
            ∧ (compareWithOperation {} spec o = []
              ↔ (OperationSpec.nonEmpty spec.header.description).isSome
                ∨ spec.header.description = none
                  ∧ OperationSpec.nonEmpty spec.header.goal = none)
            ∧ ∀ c ∈ compareWithOperation {} spec o, c.path = "meta.description" := by
  obtain ⟨api, hok, hplaces, hdescribed, hunslashed⟩ := described_operations h
  refine ⟨api, hok, fun spec hspec => ⟨hunslashed spec hspec, fun o ho hplace => ?_⟩⟩
  obtain ⟨spec', hspec', m, hmethod, hdescribes⟩ := hdescribed o ho
  -- the spec that the operation describes has the same place
  have heq : spec' = spec := by
    obtain ⟨hpath, hverb⟩ := Prod.mk.inj ((hdescribes.place hmethod).symm.trans hplace)
    exact List.inj_on_of_nodup_map h.places hspec' hspec (Prod.ext hverb hpath)
  subst heq
  refine ⟨findOperation_of_describes hplaces hdescribed hspec ho hmethod hdescribes, ?_⟩
  rw [compareWithOperation_of_agrees (agrees_of_describes hmethod hdescribes)]
  refine ⟨?_, fun c hc => path_of_mem_descriptionChange hc⟩
  rw [descriptionChange_eq_nil_iff, hdescribes.summary, hdescribes.description, nonEmpty_nonEmpty]
  exact eq_nonEmpty_or_iff

/-! ## A description that is left to the goal -/

/-- A query with these texts. -/
def petsQuery (description goal : Option String) : OperationSpec where
  header :=
    { name := "pets.list", version := 1, stability := .stable, owners := [], tags := ["pets"],
      description, kind := .query, goal, context := none }
  input := none
  output := none
  auth := .user
  transport := none

def petsRegistry (description goal : Option String) : Registry OperationSpec :=
  ⟨[petsQuery description goal], List.nodup_singleton _⟩

theorem placed_petsRegistry (description goal : Option String) :
    Placed (petsRegistry description goal) where
  method := by
    intro spec hspec
    cases List.mem_singleton.mp hspec
    exact ⟨.get, rfl⟩
  path := by
    intro spec hspec
    cases List.mem_singleton.mp hspec
    have hpath : (petsQuery description goal).path = "/pets/list/v1" := by cbv
    rw [hpath]
    decide
  places := List.nodup_singleton _

theorem unslashed_petsQuery (description goal : Option String) :
    Unslashed (petsQuery description goal) := ⟨(by decide : '/' ∉ "pets.list".toList), nofun⟩

theorem export_validates_with_description :
    Placed (petsRegistry (some "All pets") (some "Show all pets"))
      ∧ ∃ api, Api.ofDocument (documentOf (petsRegistry (some "All pets") (some "Show all pets")))
          = .ok api
        ∧ ∃ o, findOperation (petsQuery (some "All pets") (some "Show all pets")) api.operations
            = .ok (some o)
          ∧ compareWithOperation {} (petsQuery (some "All pets") (some "Show all pets")) o = [] := by
  have hplaced := placed_petsRegistry (some "All pets") (some "Show all pets")
  obtain ⟨api, hok, hall⟩ := export_validates hplaced
  obtain ⟨hexists, hfound⟩ := hall _ (List.mem_singleton_self _)
  obtain ⟨o, ho, hplace⟩ := hexists (unslashed_petsQuery _ _)
  obtain ⟨hfind, hcompare, -⟩ := hfound o ho hplace
  exact ⟨hplaced, api, hok, o, hfind, hcompare.mpr (.inl rfl)⟩

/-- A comparison takes the exported goal for a description. -/
theorem export_drifts_from_goal :
    Placed (petsRegistry none (some "Show all pets"))
      ∧ ∃ api, Api.ofDocument (documentOf (petsRegistry none (some "Show all pets"))) = .ok api
        ∧ ∃ o, findOperation (petsQuery none (some "Show all pets")) api.operations = .ok (some o)
          ∧ compareWithOperation {} (petsQuery none (some "Show all pets")) o
            = [⟨"meta.description", .added, .null, .str "Show all pets", "Description changed"⟩] := by
  have hplaced := placed_petsRegistry none (some "Show all pets")
  obtain ⟨api, hok, hplaces, hdescribed, hunslashed⟩ := described_operations hplaced
  obtain ⟨o, ho, -⟩ := hunslashed _ (List.mem_singleton_self _) (unslashed_petsQuery _ _)
  obtain ⟨spec, hspec, m, hmethod, hdescribes⟩ := hdescribed o ho
  have hfind := findOperation_of_describes hplaces hdescribed hspec ho hmethod hdescribes
  cases List.mem_singleton.mp hspec
  refine ⟨hplaced, api, hok, o, hfind, ?_⟩
  rw [compareWithOperation_of_agrees (agrees_of_describes hmethod hdescribes)]
  unfold descriptionChange
  rw [hdescribes.summary, hdescribes.description]
  rfl

end ApiContract.Export
