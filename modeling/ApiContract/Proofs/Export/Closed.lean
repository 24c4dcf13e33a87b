import ApiContract.Proofs.Export.References

/-!
# The references of an exported document lead to its components

The worklist ends, and when the trees are settled every reference node leads to a component or is
emptied. What is left is what stands beside the `$ref` of a node that is kept: it is not looked at,
so the document is closed exactly if nothing there leads elsewhere.

* **`closed_settle_iff`** — a settled tree;
* **`closed_of_descriptions`** — only descriptions can hold such nodes;
* **`export_references`** — the headline.
-/

namespace ApiContract.Export

open Contract

/-! ## Mappings -/

mutual

/-- The mappings in a tree, at any depth, the outer ones first. -/
def mappings : Value → List Members
  | .map members => members :: mappingsOfMembers members
  | .list items => mappingsOfItems items
  | .scalar _ | .set _ => []

def mappingsOfMembers : List (Scalar × Value) → List Members
  | [] => []
  | (_, v) :: rest => mappings v ++ mappingsOfMembers rest

def mappingsOfItems : List Value → List Members
  | [] => []
  | v :: rest => mappings v ++ mappingsOfItems rest

end

/-- Whatever stands under `$ref` in a tree is the path of a component with one of the names. -/
def Closed (names : List String) (v : Value) : Prop :=
  ∀ node ∈ mappings v, ∀ target, Members.get? node "$ref" = some target →
    ∃ name ∈ names, target = .str (componentPath ++ name)

variable {names : List String}

theorem closed_scalar (leaf : Scalar) : Closed names (.scalar leaf) := by
  intro node hnode
  rw [mappings] at hnode
  cases hnode

theorem forall_mappingsOfMembers {members : Members} {P : Members → Prop} :
    (∀ node ∈ mappingsOfMembers members, P node)
      ↔ ∀ m ∈ members, ∀ node ∈ mappings m.2, P node := by
  induction members with
  | nil => simp [mappingsOfMembers]
  | cons m rest ih =>
    obtain ⟨k, v⟩ := m
    rw [mappingsOfMembers, List.forall_mem_append, ih, List.forall_mem_cons]

theorem forall_mappingsOfItems {items : List Value} {P : Members → Prop} :
    (∀ node ∈ mappingsOfItems items, P node) ↔ ∀ v ∈ items, ∀ node ∈ mappings v, P node := by
  induction items with
  | nil => simp [mappingsOfItems]
  | cons v rest ih => rw [mappingsOfItems, List.forall_mem_append, ih, List.forall_mem_cons]

theorem closed_map {members : Members} :
    Closed names (.map members)
      ↔ (∀ target, Members.get? members "$ref" = some target →
          ∃ name ∈ names, target = .str (componentPath ++ name))
        ∧ ∀ m ∈ members, Closed names m.2 := by
  unfold Closed
  rw [mappings, List.forall_mem_cons, forall_mappingsOfMembers]

theorem closed_list {items : List Value} :
    Closed names (.list items) ↔ ∀ v ∈ items, Closed names v := by
  unfold Closed
  rw [mappings]
  exact forall_mappingsOfItems

/-! ## Settled trees -/

theorem componentName?_eq_some {target : Value} {name : String} :
    componentName? target = some name ↔ target = .str (componentPath ++ name) := by
  constructor
  · intro h
    unfold componentName? at h
    split at h
    · next s =>
      dsimp only at h
      split at h
      · next hprefix =>
        obtain ⟨rest, hrest⟩ := List.isPrefixOf_iff_prefix.mp hprefix
        cases h
        have heq : s = componentPath ++ String.ofList rest := by
          rw [← String.toList_inj, String.toList_append, String.toList_ofList, hrest]
        rw [← hrest, List.drop_left, ← heq]
      · cases h
    · cases h
  · rintro rfl
    exact componentName?_component name

theorem leadsTo_iff_exists {target : Value} :
    leadsTo names target = true ↔ ∃ name ∈ names, target = .str (componentPath ++ name) := by
  rw [leadsTo_iff]
  exact exists_congr fun name => and_congr_right fun _ => componentName?_eq_some

/-- Nothing that stands in a node leads elsewhere, if the node is kept. -/
def Covered (names : List String) (node : Members) : Prop :=
  ∀ target, Members.get? node "$ref" = some target → leadsTo names target = true →
    ∀ m ∈ node, Closed names m.2

mutual

/-- **A settled tree is closed** exactly if all its nodes are covered. -/
theorem closed_settle_iff : (v : Value) →
    (Closed names (settle names v) ↔ ∀ node ∈ refNodes v, Covered names node)
  | .scalar leaf => by
    rw [settle_scalar, refNodes]
    exact iff_of_true (closed_scalar leaf) fun _ h => absurd h List.not_mem_nil
  | .set items => by
    rw [refNodes]
    refine iff_of_true (fun node h => ?_) fun _ h => absurd h List.not_mem_nil
    have h : node ∈ mappings (.set items) := h
    rw [mappings] at h
    cases h
  | .list items => by
    rw [settle, refNodes, closed_list]
    exact closed_settleItems_iff items
  | .map members => by
    rw [settle, refNodes]
    cases href : Members.get? members "$ref" with
    | none =>
      rw [Option.isSome_none, if_neg (by decide), ← closed_settleMembers_iff members]
      dsimp only
      rw [closed_map, get?_settleMembers, href]
      exact and_iff_right nofun
    | some target =>
      rw [Option.isSome_some, if_pos rfl]
      dsimp only
      cases hleads : leadsTo names target with
      | true =>
        rw [if_pos rfl, closed_map, href]
        constructor
        · rintro ⟨-, h⟩ node hnode _ _ _
          rwa [List.mem_singleton.mp hnode]
        · intro h
          refine ⟨?_, h members (List.mem_singleton.mpr rfl) target href hleads⟩
          rintro _ ⟨⟩
          exact leadsTo_iff_exists.mp hleads
      | false =>
        rw [if_neg (by decide)]
        refine iff_of_true (closed_map.mpr ⟨nofun, nofun⟩) ?_
        rintro node hnode target' href' hleads'
        rw [List.mem_singleton.mp hnode, href] at href'
        cases href'
        rw [hleads] at hleads'
        cases hleads'

theorem closed_settleMembers_iff : (members : List (Scalar × Value)) →
    ((∀ m ∈ settleMembers names members, Closed names m.2)
      ↔ ∀ node ∈ refNodesOfMembers members, Covered names node)
  | [] => by
    rw [settleMembers, refNodesOfMembers]
    exact iff_of_true nofun nofun
  | (k, v) :: rest => by
    rw [settleMembers, refNodesOfMembers, List.forall_mem_cons, List.forall_mem_append,
      closed_settle_iff v, closed_settleMembers_iff rest]

theorem closed_settleItems_iff : (items : List Value) →
    ((∀ v ∈ settleItems names items, Closed names v)
      ↔ ∀ node ∈ refNodesOfItems items, Covered names node)
  | [] => by
    rw [settleItems, refNodesOfItems]
    exact iff_of_true nofun nofun
  | v :: rest => by
    rw [settleItems, refNodesOfItems, List.forall_mem_cons, List.forall_mem_append,
      closed_settle_iff v, closed_settleItems_iff rest]

end

/-! ## The document -/

/-- The component schemas of a document. -/
def schemasOf (document : Value) : Members :=
  match (document.field "components").field "schemas" with
  | .map schemas => schemas
  | _ => []

/-- The names of the component schemas of a document. -/
def schemaNames (document : Value) : List String :=
  (schemasOf document).filterMap fun e =>
    match e.1 with
    | .str name => some name
    | _ => none

/-- Every mapping inside the paths or a component schema of a document that has a member `$ref`
holds the path of a component there. -/
def ClosedDocument (document : Value) : Prop :=
  Closed (schemaNames document) (document.field "paths")
    ∧ ∀ e ∈ schemasOf document, Closed (schemaNames document) e.2

theorem schemasOf_documentOf (registry : Registry OperationSpec) :
    schemasOf (documentOf registry) = (exportedSchemas registry).map fun (n, v) => member n v := by
  unfold schemasOf Value.field
  rw [get?_documentOf_components]
  rfl

theorem schemaNames_documentOf (registry : Registry OperationSpec) :
    schemaNames (documentOf registry) = componentNames (placedOf registry) := by
  unfold schemaNames componentNames Named.names
  rw [schemasOf_documentOf, exportedSchemas, List.map_map, List.filterMap_map,
    ← List.filterMap_eq_map]
  rfl

theorem closedDocument_iff (registry : Registry OperationSpec) :
    ClosedDocument (documentOf registry)
      ↔ ∀ tree, IsTree (placedOf registry) tree → ∀ node ∈ refNodes tree,
          Covered (componentNames (placedOf registry)) node := by
  have hpaths : (documentOf registry).field "paths"
      = settle (componentNames (placedOf registry)) (.map (pathItems (placedOf registry))) := by
    unfold Value.field
    rw [get?_documentOf_paths]
    rfl
  unfold ClosedDocument
  rw [schemaNames_documentOf, schemasOf_documentOf, hpaths, closed_settle_iff]
  constructor
  · rintro ⟨hpaths, hschemas⟩ tree (rfl | ⟨e, he, rfl⟩)
    · exact hpaths
    · have hmem : member e.1 (settle (componentNames (placedOf registry)) e.2)
          ∈ (exportedSchemas registry).map fun (n, v) => member n v :=
        List.mem_map_of_mem (List.mem_map_of_mem he)
      exact (closed_settle_iff e.2).mp (hschemas _ hmem)
  · intro h
    refine ⟨h _ (.inl rfl), fun m hm => ?_⟩
    obtain ⟨e', he', rfl⟩ := List.mem_map.mp hm
    obtain ⟨e, he, rfl⟩ := List.mem_map.mp he'
    exact (closed_settle_iff _).mpr (h _ (.inr ⟨e, he, rfl⟩))

/-- Where no description has a node in it, and so where all of them are texts, the document is
closed. -/
theorem closed_of_descriptions {registry : Registry OperationSpec}
    (h : ∀ e ∈ knownModels (placedOf registry), ∀ f ∈ e.2.fields, ∀ d ∈ f.2.description,
      refNodes d = []) : ClosedDocument (documentOf registry) := by
  refine (closedDocument_iff registry).mpr fun tree htree node hnode target href hleads => ?_
  cases refNodes_tree htree hnode with
  | reference name heq =>
    rw [heq]
    intro m hm
    rw [List.mem_singleton.mp hm]
    exact closed_scalar _
  | noPointer target' href' hstr =>
    cases href.symm.trans href'
    obtain ⟨name, -, rfl⟩ := leadsTo_iff_exists.mp hleads
    cases hstr
  | description e he f hf d hd hnode =>
    rw [h e he f hf d hd] at hnode
    cases hnode

/-- **The references of an export.** The worklist ends, with the components of the document and the
references that are emptied; and the references in the document lead to its components, exactly if
nothing that stands beside a reference leads elsewhere. -/
theorem export_references (registry : Registry OperationSpec) :
    (∃ n ≤ (knownModels (placedOf registry)).length
          + (Worklist.start (placedOf registry)).pending.length,
        (Worklist.step (knownModels (placedOf registry)))^[n] (Worklist.start (placedOf registry)) = {
          schemas := components (placedOf registry)
          pending := []
          dropped := (body (placedOf registry)).dropped })
      ∧ (ClosedDocument (documentOf registry)
        ↔ ∀ tree, IsTree (placedOf registry) tree → ∀ node ∈ refNodes tree,
            Covered (componentNames (placedOf registry)) node) :=
  ⟨worklist_ends (placedOf registry), closedDocument_iff registry⟩

/-- A reference to a component that is not there. -/
def elsewhere : Value := record [("$ref", .str "#/components/schemas/Missing")]

/-- A description that is a reference, with another one beside it. -/
def aboutTags : Members :=
  [member "$ref" (.str "#/components/schemas/Input_tags_v1"), member "see" elsewhere]

def tagsInput : SchemaModel :=
  ⟨"TagsInput", none, [("ids", {
    scalar := some .string, isOptional := true, isArray := true
    description := some (.map aboutTags) })]⟩

/-- A query that takes a list of texts with this description. -/
def tagsQuery : OperationSpec where
  header := {
    name := "tags", version := 1, kind := .query, stability := .stable, owners := [], tags := []
    description := some "tags", goal := none, context := none }
  input := some tagsInput
  output := none
  auth := .user
  transport := some { rest := some ⟨some "GET", some "/tags"⟩, graphQl := none }

def tagsRegistry : Registry OperationSpec := ⟨[tagsQuery], List.nodup_singleton _⟩

/-- **What stands beside a reference may lead nowhere.** -/
theorem not_closed_of_beside : ¬ ClosedDocument (documentOf tagsRegistry) := by
  have hplaced : placedOf tagsRegistry = [tagsQuery] := placedOf_singleton _ _
  rw [closedDocument_iff, hplaced]
  intro hcovered
  have hids : ([tagsQuery].map (·.operationId)).Nodup := List.nodup_singleton _
  have hmem : tagsQuery ∈ [tagsQuery] := List.mem_singleton_self _
  -- the schema of the input has the description in it, and the reference there is kept
  have htree : IsTree [tagsQuery] tagsInput.toJsonSchema :=
    .inr ⟨_, Named.mem_of_get? ((get?_components hids hmem).1 tagsInput rfl), rfl⟩
  have hnode : aboutTags ∈ refNodes tagsInput.toJsonSchema := List.mem_singleton.mpr rfl
  have hkept : leadsTo (componentNames [tagsQuery]) (.str "#/components/schemas/Input_tags_v1")
      = true :=
    leadsTo_iff_exists.mpr ⟨_, (mem_componentNames hmem).1 rfl, by decide⟩
  have hbeside : Closed (componentNames [tagsQuery]) elsewhere :=
    hcovered _ htree _ hnode _ rfl hkept (member "see" elsewhere) (by decide)
  obtain ⟨name, hname, heq⟩ := (closed_map.mp hbeside).1 _ rfl
  have hname' : some "Missing" = some name := componentName?_eq_some.mpr heq
  -- the only components are those of the query and of its model
  obtain ⟨e, he, rfl⟩ := List.mem_map.mp hname
  rcases mem_components he with ⟨spec, hspec, hid, -⟩ | ⟨m, hm, -⟩
  · rw [← Option.some.inj hname', List.mem_singleton.mp hspec] at hid
    rcases hid with hid | hid
    · exact absurd hid (by decide)
    · exact absurd hid (by decide)
  · have hknown : knownModels [tagsQuery] = [("TagsInput", tagsInput)] := rfl
    rw [hknown, List.mem_singleton, ← Option.some.inj hname'] at hm
    exact absurd (Prod.mk.inj hm).1 (by decide)

end ApiContract.Export
