import ApiContract.Proofs.Export.Registration
import ApiContract.Proofs.Reference.Chain

/-!
# References to components, as they are written

A reference to a component carries the name of the component as it is, and pointers are unescaped when
they are followed. So a reference is followed to its component exactly if there is nothing to undo in
the name; escaped, any name could be followed.

* **`resolvePointer_component_of_segment`** — a pointer with one more segment than the path.
* **`references_followed_iff`** — the headline.
-/

namespace ApiContract

namespace Reference

open Contract (componentPath)

variable {document tree : Value}

/-- A pointer to the component of an unescaped segment leads to it, and is named like it. -/
theorem resolvePointer_component_of_segment {segment : String} (h : '/' ∉ segment.toList)
    (hcomponent : component? document (unescape segment.toList) = some tree)
    (htree : tree.isNull = false) :
    resolvePointer document (componentPath ++ segment) = some tree
      ∧ Reference.name (componentPath ++ segment) = unescape segment.toList := by
  constructor
  · have hfound := hcomponent
    unfold component? at hfound
    obtain ⟨schemas, hschemas, hget⟩ := Option.bind_eq_some_iff.mp hfound
    obtain ⟨components, hcomponents, hschemas⟩ := Option.bind_eq_some_iff.mp hschemas
    cases schemas with
    | map schemas =>
      rw [resolvePointer_of_notMem h hcomponents hschemas, hcomponent, Option.filter_some, htree]
      rfl
    | scalar leaf => cases hget
    | list items => cases hget
    | set items => cases hget
  · exact name_of_segments? (segments?_of_notMem h) rfl

end Reference

namespace Export

open Contract
open Reference (component? resolvePointer pointer? IsLiteral IsPlain escape unescape)

/-! ## The components of an export -/

theorem get?_document_components (registries : Registries) (options : Options) :
    (document registries options).get? "components"
      = (documentOf (operationsOf registries)).get? "components" := by
  have hservers : ∀ items : List Value,
      Members.get? (memberUnlessEmpty "servers" items) "components" = none := by
    intro items
    unfold memberUnlessEmpty
    split <;> rfl
  show Members.get? (openApi (operationsOf registries) options ++ _) "components" = Members.get? _ _
  unfold openApi
  simp [Members.get?_append, hservers]

theorem component?_document (registries : Registries) (options : Options) (name : String) :
    component? (document registries options) name
      = component? (documentOf (operationsOf registries)) name := by
  unfold component?
  rw [get?_document_components]

/-- A component is a schema, and no null value. -/
theorem isNull_component {registries : Registries} {options : Options} {name : String} {tree : Value}
    (h : component? (document registries options) name = some tree) : tree.isNull = false := by
  rw [component?_document, component?_documentOf] at h
  obtain ⟨schema, hget, rfl⟩ := Option.map_eq_some_iff.mp h
  obtain ⟨m, rfl⟩ := exists_model_of_mem_components (Named.mem_of_get? hget)
  rw [settle_model]
  rfl

/-! ## Names -/

theorem isLiteral_withoutPoints {name : String} (h : IsLiteral name) :
    IsLiteral (OperationSpec.withoutPoints name '_') := by
  have hkeep : ∀ c : Char, c ≠ '_' → ∀ x, (if x = '.' then '_' else x) = c → x = c := by
    intro c hc x hx
    split at hx
    · exact absurd hx.symm hc
    · exact hx
  unfold IsLiteral OperationSpec.withoutPoints
  rw [String.toList_ofList]
  refine ⟨fun hmem => ?_, fun hinfix => h.2.1 ?_, fun hinfix => h.2.2 ?_⟩
  · obtain ⟨x, hx, hslash⟩ := List.mem_map.mp hmem
    rw [hkeep '/' (by decide) x hslash] at hx
    exact h.1 hx
  · exact Text.pair_infix_of_map (hkeep '~' (by decide)) (hkeep '0' (by decide)) hinfix
  · exact Text.pair_infix_of_map (hkeep '~' (by decide)) (hkeep '1' (by decide)) hinfix

/-- The component of an operation has a name that pointers may carry, if the operation has. -/
theorem isLiteral_ownName {spec : OperationSpec} (h : IsLiteral spec.header.name) {before : String}
    (hbefore : IsPlain before) : IsLiteral (before ++ spec.operationId) := by
  have hversion : IsPlain (toString spec.header.version) := by
    constructor
    · intro hc
      exact absurd (Text.mem_toString_int hc) (by decide)
    · intro hc
      exact absurd (Text.mem_toString_int hc) (by decide)
  have hafter : IsPlain ("_v" ++ toString spec.header.version) := IsPlain.append (by decide) hversion
  -- no escape comes about where the version joins the name
  have hhead : ("_v" ++ toString spec.header.version).toList.head? = some '_' := by
    rw [String.toList_append]
    rfl
  exact (isLiteral_withoutPoints h).between hbefore hafter
    (fun hzero => absurd (hhead.symm.trans hzero) (by decide))
    (fun hone => absurd (hhead.symm.trans hone) (by decide))

/-- Components have names that pointers may carry, if the operations and the models have. -/
theorem isLiteral_component {registry : Registry OperationSpec}
    (hspecs : ∀ spec ∈ placedOf registry, IsLiteral spec.header.name)
    (hmodels : ∀ e ∈ knownModels (placedOf registry), IsLiteral e.1) {name : String} {tree : Value}
    (h : component? (documentOf registry) name = some tree) : IsLiteral name := by
  rw [component?_documentOf] at h
  obtain ⟨schema, hget, -⟩ := Option.map_eq_some_iff.mp h
  rcases mem_components (Named.mem_of_get? hget) with ⟨spec, hspec, hname | hname, -⟩ | ⟨m, hm, -⟩
  · rw [show name = inputName spec.operationId from hname]
    exact isLiteral_ownName (hspecs spec hspec) (by decide)
  · rw [show name = outputName spec.operationId from hname]
    exact isLiteral_ownName (hspecs spec hspec) (by decide)
  · exact hmodels _ hm

/-! ## References -/

/-- Somewhere in the document stands a reference with the path of the components and this name. -/
def Refers (document : Value) (name : String) : Prop :=
  ∃ node ∈ document.nodes, pointer? node = some (componentPath ++ name)

/-- The pointer leads to the tree, and names it. -/
def IsFollowed (document : Value) (pointer name : String) (tree : Value) : Prop :=
  resolvePointer document pointer = some tree ∧ Reference.name pointer = name

/-- The references to components in a document can be followed. -/
def ReferencesFollowed (document : Value) : Prop :=
  ∀ name tree, Refers document name → component? document name = some tree →
    IsFollowed document (componentPath ++ name) name tree

/-- A reference with a literal name is followed to its component. -/
theorem isFollowed_of_isLiteral {registries : Registries} {options : Options} {name : String}
    {tree : Value} (h : IsLiteral name)
    (hcomponent : component? (document registries options) name = some tree) :
    IsFollowed (document registries options) (componentPath ++ name) name tree := by
  obtain ⟨hslash, hname⟩ := Reference.isLiteral_iff.mp h
  have hfound := Reference.resolvePointer_component_of_segment hslash (hname.symm ▸ hcomponent)
    (isNull_component hcomponent)
  rwa [hname] at hfound

/-- **When the references of an export can be followed**: exactly if the components they lead to have
names without slashes and without escapes, and so where the operations and the models have such names.
Any other name would have to be escaped; then its pointer would lead to the component. -/
theorem references_followed_iff (registries : Registries) (options : Options) :
    (ReferencesFollowed (document registries options)
      ↔ ∀ name, Refers (document registries options) name →
          (component? (document registries options) name).isSome → IsLiteral name)
    ∧ ((∀ spec ∈ placedOf (operationsOf registries), IsLiteral spec.header.name) →
        (∀ e ∈ knownModels (placedOf (operationsOf registries)), IsLiteral e.1) →
          ReferencesFollowed (document registries options))
    ∧ ∀ name tree, component? (document registries options) name = some tree →
        IsFollowed (document registries options) (componentPath ++ String.ofList (escape name)) name
          tree := by
  refine ⟨⟨fun h name hrefers hsome => ?_, fun h name tree hrefers hcomponent => ?_⟩,
    fun hspecs hmodels name tree _ hcomponent => ?_, fun name tree hcomponent => ?_⟩
  · obtain ⟨tree, htree⟩ := Option.isSome_iff_exists.mp hsome
    exact Reference.name_component_iff.mp (h name tree hrefers htree).2
  · exact isFollowed_of_isLiteral (h name hrefers (Option.isSome_iff_exists.mpr ⟨tree, hcomponent⟩))
      hcomponent
  · have hliteral := hcomponent
    rw [component?_document] at hliteral
    exact isFollowed_of_isLiteral (isLiteral_component hspecs hmodels hliteral) hcomponent
  · have hname : unescape (String.ofList (escape name)).toList = name := by
      rw [String.toList_ofList, Reference.unescape_escape]
    have hslash : '/' ∉ (String.ofList (escape name)).toList := by
      rw [String.toList_ofList]
      exact Reference.slash_notMem_escape name
    have hfound := Reference.resolvePointer_component_of_segment hslash (hname.symm ▸ hcomponent)
      (isNull_component hcomponent)
    rwa [hname] at hfound

/-- A command whose name has a slash. -/
def reposCommand : OperationSpec where
  header := {
    name := "repos/list", version := 1, kind := .command, stability := .stable, owners := [], tags := []
    description := none, goal := none, context := none }
  input := some ⟨"Repos", none, [("owner", { scalar := some .string })]⟩
  output := none
  auth := .user
  transport := none

def reposRegistry : Registry OperationSpec := ⟨[reposCommand], List.nodup_singleton _⟩

/-- **A name with a slash is not followed.** -/
theorem not_followed_of_slash :
    ¬ ∀ registry : Registry OperationSpec, ReferencesFollowed (documentOf registry) := by
  intro h
  have hplaced : placedOf reposRegistry = [reposCommand] := placedOf_singleton _ _
  have hmem : reposCommand ∈ placedOf reposRegistry := hplaced ▸ List.mem_singleton_self _
  have hids : ((placedOf reposRegistry).map (·.operationId)).Nodup :=
    hplaced ▸ List.nodup_singleton _
  have hname : "Input_repos/list_v1" ∈ componentNames (placedOf reposRegistry) :=
    (mem_componentNames hmem).1 rfl
  have hrefers : Refers (documentOf reposRegistry) "Input_repos/list_v1" := by
    refine ⟨componentReference "Input_repos/list_v1", ?_, Reference.pointer?_component _⟩
    have hpaths := get?_documentOf_paths reposRegistry
    rw [hplaced] at hpaths
    -- the body of the request refers to the component
    have hbody : ["paths", "/repos/list/v1", "post", "requestBody", "content", "application/json",
          "schema"].foldlM Reference.step (documentOf reposRegistry)
        = some (settle (componentNames [reposCommand]) (componentReference "Input_repos/list_v1")) := by
      rw [List.foldlM_cons, Reference.step_of_get? hpaths]
      rfl
    rw [settle_componentReference, if_pos (hplaced ▸ hname)] at hbody
    exact Reference.nodes_subset_of_foldlM hbody (Value.mem_nodes_self _)
  obtain ⟨tree, hcomponent⟩ :
      ∃ tree, component? (documentOf reposRegistry) "Input_repos/list_v1" = some tree :=
    ⟨_, (component?_documentOf _ _).trans (congrArg _ ((get?_components hids hmem).1 _ rfl))⟩
  have hfollowed := h reposRegistry _ tree hrefers hcomponent
  exact absurd (Reference.name_component_iff.mp hfollowed.2) (by decide)

end Export

end ApiContract
