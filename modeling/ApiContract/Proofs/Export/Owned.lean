import ApiContract.Proofs.Contract.Registry
import ApiContract.Proofs.Export.References
import ApiContract.Proofs.OpenApi.OperationIds
import ApiContract.Proofs.OpenApi.Places
import Mathlib

/-!
# Components that belong to their operation

The input and the output of a spec are components under names made of the id of its operation. The
component is the schema of the model, in which references to unknown models are emptied, exactly if
two things do not happen:

* two specs get the same id, because their names differ in nothing but points and underscores
  (`operationId_eq_iff`);
* something that is no reference has a member `$ref`, and is emptied too (`settle_eq_blank_iff`);
  this comes with a field of that name, whose model loses all its fields.

**`ownComponents_iff`** is the headline.
-/

namespace ApiContract.Export

open Contract

/-! ## Ids -/

/-- Specs whose operations have the same id: of one version, with names that differ in nothing but
points and underscores. -/
def SameId (a b : OperationSpec) : Prop :=
  OperationSpec.withoutPoints a.header.name '_' = OperationSpec.withoutPoints b.header.name '_'
    ∧ a.header.version = b.header.version

theorem operationId_eq_iff {a b : OperationSpec} : a.operationId = b.operationId ↔ SameId a b := by
  constructor
  · intro h
    have hlist : ∀ s : OperationSpec, s.operationId.toList
        = (OperationSpec.withoutPoints s.header.name '_').toList
          ++ '_' :: 'v' :: (toString s.header.version).toList := by
      intro s
      show (_ ++ ("_v" ++ toString s.header.version)).toList = _
      rw [String.toList_append, String.toList_append]
      rfl
    exact version_inj (by decide)
      ((hlist a).symm.trans ((congrArg String.toList h).trans (hlist b)))
  · rintro ⟨hname, hversion⟩
    unfold OperationSpec.operationId
    rw [hname, hversion]

variable {names : List String} {placed : List OperationSpec}

/-- What is no text leads nowhere. -/
theorem leadsTo_of_str?_eq_none {target : Value} (h : target.str? = none) :
    leadsTo names target = false := by
  cases target with
  | scalar leaf =>
    cases leaf with
    | str s => cases h
    | _ => rfl
  | _ => rfl

/-- A mapping without texts is emptied as a whole, or its members are settled one by one. -/
theorem settle_map_cases (names : List String) {members : Members}
    (h : ∀ m ∈ members, m.2.str? = none) :
    settle names (.map members) = .map []
      ∨ settle names (.map members) = .map (settleMembers names members) := by
  cases href : Members.get? members "$ref" with
  | none => exact .inr (settle_map href)
  | some target =>
    refine .inl ?_
    rw [settle, href]
    dsimp only
    rw [leadsTo_of_str?_eq_none (h _ (Members.mem_of_get? href))]
    rfl

/-- The ids of the operations of a path item. -/
def itemIds : Value → List String
  | .map methods => methods.filterMap fun m => (m.2.get? "operationId").bind Value.str?
  | _ => []

/-- The ids of the operations that stand under the paths of a document, in document order. -/
def operationIds (document : Value) : List String :=
  (OpenApi.pathsOf document).flatMap fun item => itemIds item.2

theorem get?_operationId (names : List String) (spec : OperationSpec) :
    (settle names (operationObject spec)).get? "operationId" = some (.str spec.operationId) := by
  obtain ⟨href, hid, -⟩ := get?_operationObject spec
  rw [get?_settle href, hid, Option.map_some, settle_scalar]

/-- A path item of the document has ids of specs that are exported there, each once. -/
theorem sublist_itemIds (names : List String) (placed : List OperationSpec) (path : String) :
    (itemIds (settle names (.map (pathItem placed path)))).Sublist
      ((placed.filter (·.path == path)).map (·.operationId)) := by
  have hitem : ∀ m ∈ pathItem placed path, m.2.str? = none := by
    intro m hm
    obtain ⟨spec, -, rfl⟩ := List.mem_map.mp hm
    rfl
  obtain heq | heq := settle_map_cases names hitem
  · rw [heq]
    exact List.nil_sublist _
  · rw [heq, settleMembers_eq_map, pathItem, List.map_map, itemIds, List.filterMap_map,
      ← List.filterMap_eq_map]
    have hids : ∀ spec : OperationSpec,
        ((settle names (operationObject spec)).get? "operationId").bind Value.str?
          = some spec.operationId := by
      intro spec
      rw [get?_operationId]
      rfl
    show ((placed.filter (·.path == path)).filterMap fun spec =>
      ((settle names (operationObject spec)).get? "operationId").bind Value.str?).Sublist _
    rw [List.filterMap_congr fun spec _ => hids spec]
    exact List.Sublist.refl _

/-- Operations of specs with different ids have different ids in the document. -/
theorem nodup_operationIds {registry : Registry OperationSpec}
    (h : ((placedOf registry).map (·.operationId)).Nodup) :
    (operationIds (documentOf registry)).Nodup := by
  have hpaths : ∀ m ∈ pathItems (placedOf registry), m.2.str? = none := by
    intro m hm
    obtain ⟨path, -, rfl⟩ := List.mem_map.mp hm
    rfl
  unfold operationIds OpenApi.pathsOf Value.field
  rw [get?_documentOf_paths, Option.getD_some]
  obtain heq | heq := settle_map_cases (componentNames (placedOf registry)) hpaths
  · rw [heq]
    exact List.nodup_nil
  · rw [heq, settleMembers_eq_map, pathItems_eq, List.map_map]
    dsimp only
    rw [List.flatMap_map, List.nodup_flatMap]
    constructor
    · intro path _
      refine (sublist_itemIds _ _ path).nodup ?_
      exact h.sublist (List.filter_sublist.map _)
    · refine (Distinct.nodup_ofList _).imp fun {p q} hne id hp hq => hne ?_
      -- one id, so one spec, so one path
      obtain ⟨a, ha, rfl⟩ := List.mem_map.mp ((sublist_itemIds _ _ p).subset hp)
      obtain ⟨b, hb, hid⟩ := List.mem_map.mp ((sublist_itemIds _ _ q).subset hq)
      obtain ⟨ha, hpa⟩ := List.mem_filter.mp ha
      obtain ⟨hb, hqb⟩ := List.mem_filter.mp hb
      cases List.inj_on_of_nodup_map h hb ha hid
      exact (beq_iff_eq.mp hpa).symm.trans (beq_iff_eq.mp hqb)

/-! ## References that are emptied -/

mutual

/-- A tree whose references to anything but the names are emptied. A reference is a mapping with a
pointer, as everywhere else; a mapping with something else under `$ref` is none. -/
def blank (names : List String) : Value → Value
  | .map members =>
    match (Members.get? members "$ref").bind Value.str? with
    | some pointer => if leadsTo names (.str pointer) then .map members else .map []
    | none => .map (blankMembers names members)
  | .list items => .list (blankItems names items)
  | v => v

def blankMembers (names : List String) : List (Scalar × Value) → List (Scalar × Value)
  | [] => []
  | (k, v) :: rest => (k, blank names v) :: blankMembers names rest

def blankItems (names : List String) : List Value → List Value
  | [] => []
  | v :: rest => blank names v :: blankItems names rest

end

/-- Whether all that stands under `$ref` is pointers. -/
def AllPointers (targets : List Value) : Prop := ∀ target ∈ targets, target.str?.isSome

theorem allPointers_append {xs ys : List Value} :
    AllPointers (xs ++ ys) ↔ AllPointers xs ∧ AllPointers ys := List.forall_mem_append

theorem allPointers_nil : AllPointers [] := fun _ h => absurd h List.not_mem_nil

theorem eq_str_of_str? {v : Value} {s : String} (h : v.str? = some s) : v = .str s := by
  cases v with
  | scalar leaf =>
    cases leaf with
    | str t =>
      cases h
      rfl
    | _ => cases h
  | _ => cases h

mutual

/-- **What is emptied are references only**, exactly if nothing else has a member `$ref`. -/
theorem settle_eq_blank_iff : (v : Value) →
    (settle names v = blank names v ↔ AllPointers (targets v))
  | .scalar leaf => by
    rw [settle_scalar]
    exact iff_of_true (by rw [blank] <;> nofun) allPointers_nil
  | .set items => iff_of_true rfl allPointers_nil
  | .list items => by
    rw [settle, blank, targets, Value.list.injEq]
    exact settleItems_eq_blankItems_iff items
  | .map members => by
    rw [settle, blank, targets]
    cases href : Members.get? members "$ref" with
    | none =>
      dsimp only [Option.bind_none]
      rw [Value.map.injEq]
      exact settleMembers_eq_blankMembers_iff members
    | some target =>
      have hpointers : AllPointers [target] ↔ target.str?.isSome := by simp [AllPointers]
      dsimp only [Option.bind_some]
      rw [hpointers]
      cases hstr : target.str? with
      | some s =>
        cases eq_str_of_str? hstr
        exact iff_of_true rfl rfl
      | none =>
        -- the mapping is emptied, though it has a member
        rw [leadsTo_of_str?_eq_none hstr]
        refine iff_of_false ?_ (by decide)
        cases members with
        | nil => cases href
        | cons m rest => exact fun h => nomatch Value.map.inj h

theorem settleMembers_eq_blankMembers_iff : (members : List (Scalar × Value)) →
    (settleMembers names members = blankMembers names members
      ↔ AllPointers (targetsOfMembers members))
  | [] => iff_of_true rfl allPointers_nil
  | (k, v) :: rest => by
    rw [settleMembers, blankMembers, targetsOfMembers, List.cons.injEq, Prod.mk.injEq,
      allPointers_append, settle_eq_blank_iff v, settleMembers_eq_blankMembers_iff rest]
    exact and_congr_left fun _ => and_iff_right rfl

theorem settleItems_eq_blankItems_iff : (items : List Value) →
    (settleItems names items = blankItems names items ↔ AllPointers (targetsOfItems items))
  | [] => iff_of_true rfl allPointers_nil
  | v :: rest => by
    rw [settleItems, blankItems, targetsOfItems, List.cons.injEq, allPointers_append,
      settle_eq_blank_iff v, settleItems_eq_blankItems_iff rest]

end

/-! ## Fields named `$ref` -/

theorem allPointers_iff_refNodes {v : Value} :
    AllPointers (targets v)
      ↔ ∀ node ∈ refNodes v, ∀ target, Members.get? node "$ref" = some target →
          target.str?.isSome := by
  unfold AllPointers
  rw [targets_eq]
  simp only [List.mem_filterMap]
  exact ⟨fun h node hnode target href => h target ⟨node, hnode, href⟩,
    fun h target ⟨node, hnode, href⟩ => h node hnode target href⟩

theorem get?_fieldSchemas_isSome_iff {fields : List (String × FieldSpec)} :
    (Members.get? (fieldSchemas fields) "$ref").isSome ↔ ∃ f ∈ fields, f.1 = "$ref" := by
  rw [get?_fieldSchemas, Option.isSome_map, Named.get?_isSome_iff, Named.names, List.mem_map]

mutual

/-- A field named `$ref`, in the model or in one inside it, is no pointer. The outermost one hides
those further in. -/
theorem exists_node_of_model : (m : SchemaModel) →
    ∀ e ∈ modelsOf m, ∀ f ∈ e.2.fields, f.1 = "$ref" →
    ∃ node ∈ refNodes m.toJsonSchema, ∃ target, Members.get? node "$ref" = some target
      ∧ target.str? = none
  | ⟨name, description, fields⟩ => by
    intro e he f hf hname
    rw [refNodes_toJsonSchema]
    cases href : Members.get? (fieldSchemas fields) "$ref" with
    | some target =>
      have hfield := href
      rw [get?_fieldSchemas] at hfield
      obtain ⟨field, -, rfl⟩ := Option.map_eq_some_iff.mp hfield
      refine ⟨fieldSchemas fields, ?_, _, href, str?_of_isMap (isMap_toJsonSchema field)⟩
      rw [refNodes, href]
      exact List.mem_singleton.mpr rfl
    | none =>
      rw [modelsOf] at he
      rcases List.mem_cons.mp he with rfl | he
      · have hsome := get?_fieldSchemas_isSome_iff.mpr ⟨f, hf, hname⟩
        rw [href] at hsome
        cases hsome
      · obtain ⟨node, hnode, hpointer⟩ := exists_node_of_fields fields e he f hf hname
        refine ⟨node, ?_, hpointer⟩
        rwa [refNodes_map href]

theorem exists_node_of_fields : (fields : List (String × FieldSpec)) →
    ∀ e ∈ modelsOfFields fields, ∀ f ∈ e.2.fields, f.1 = "$ref" →
    ∃ node ∈ refNodesOfMembers (fieldSchemas fields),
      ∃ target, Members.get? node "$ref" = some target ∧ target.str? = none
  | [] => by
    intro e he
    rw [modelsOfFields] at he
    cases he
  | (name, field) :: rest => by
    intro e he f hf hname
    rw [modelsOfFields] at he
    rw [fieldSchemas, refNodesOfMembers]
    rcases List.mem_append.mp he with he | he
    · obtain ⟨node, hnode, hpointer⟩ := exists_node_of_field field e he f hf hname
      exact ⟨node, List.mem_append_left _ hnode, hpointer⟩
    · obtain ⟨node, hnode, hpointer⟩ := exists_node_of_fields rest e he f hf hname
      exact ⟨node, List.mem_append_right _ hnode, hpointer⟩

theorem exists_node_of_field : (field : FieldSpec) →
    ∀ e ∈ modelsOfField field, ∀ f ∈ e.2.fields, f.1 = "$ref" →
    ∃ node ∈ refNodes field.toJsonSchema, ∃ target, Members.get? node "$ref" = some target
      ∧ target.str? = none
  | ⟨_, _, some model, _, _, _, _⟩ => by
    intro e he f hf hname
    rw [modelsOfField] at he
    obtain ⟨node, hnode, hpointer⟩ := exists_node_of_model model e he f hf hname
    exact ⟨node, mem_refNodes_field_of_model rfl hnode, hpointer⟩
  | ⟨_, _, none, _, _, _, _⟩ => by
    intro e he
    rw [modelsOfField] at he
    cases he

end

/-- **Where all descriptions are texts, it is the fields named `$ref`** whose models lose their
fields. -/
theorem allPointers_iff_of_texts {m : SchemaModel}
    (h : ∀ e ∈ modelsOf m, ∀ f ∈ e.2.fields, ∀ d ∈ f.2.description, refNodes d = []) :
    AllPointers (targets m.toJsonSchema) ↔ ∀ e ∈ modelsOf m, ∀ f ∈ e.2.fields, f.1 ≠ "$ref" := by
  rw [allPointers_iff_refNodes]
  constructor
  · intro hpointers e he f hf hname
    obtain ⟨node, hnode, target, href, hstr⟩ := exists_node_of_model m e he f hf hname
    have hsome := hpointers node hnode target href
    rw [hstr] at hsome
    cases hsome
  · intro hnames node hnode target href
    cases refNodes_model m hnode with
    | reference name heq =>
      rw [heq] at href
      cases href
      rfl
    | properties e he heq hsome =>
      rw [heq, get?_fieldSchemas_isSome_iff] at hsome
      obtain ⟨f, hf, hname⟩ := hsome
      exact absurd hname (hnames e he f hf)
    | description e he f hf d hd hnode =>
      rw [h e he f hf d hd] at hnode
      cases hnode

/-! ## Components -/

/-- What is said of the components of the specs that are exported: the operations have ids of their
own, and under the names made of the id stand the models of the spec, all of them, in which nothing
is emptied but references to models that nothing in the document has. -/
structure OwnComponents (registry : Registry OperationSpec) : Prop where
  ids : (operationIds (documentOf registry)).Nodup
  apart : ((placedOf registry).map (·.operationId)).Nodup
  input : ∀ spec ∈ placedOf registry, ∀ m ∈ spec.input,
    Reference.component? (documentOf registry) (inputName spec.operationId)
      = some (blank (knownNames (placedOf registry)) m.toJsonSchema)
  output : ∀ spec ∈ placedOf registry, ∀ m ∈ spec.output,
    Reference.component? (documentOf registry) (outputName spec.operationId)
      = some (blank (knownNames (placedOf registry)) m.toJsonSchema)

/-- Where the specs have ids of their own, their components are their settled schemas. -/
theorem component?_own {registry : Registry OperationSpec}
    (h : ((placedOf registry).map (·.operationId)).Nodup) {spec : OperationSpec}
    (hspec : spec ∈ placedOf registry) :
    (∀ m ∈ spec.input, Reference.component? (documentOf registry) (inputName spec.operationId)
        = some (settle (knownNames (placedOf registry)) m.toJsonSchema))
      ∧ ∀ m ∈ spec.output, Reference.component? (documentOf registry) (outputName spec.operationId)
        = some (settle (knownNames (placedOf registry)) m.toJsonSchema) := by
  obtain ⟨hinput, houtput⟩ := get?_components h hspec
  constructor
  · intro m hm
    have hget := hinput m hm
    rw [component?_documentOf, hget, Option.map_some,
      settle_components (.inr ⟨_, Named.mem_of_get? hget, rfl⟩)]
  · intro m hm
    have hget := houtput m hm
    rw [component?_documentOf, hget, Option.map_some,
      settle_components (.inr ⟨_, Named.mem_of_get? hget, rfl⟩)]

/-- **When the components of an export belong to their operations**: exactly if no two specs of one
version have names that differ in nothing but points and underscores, and only references have a
member `$ref`. -/
theorem ownComponents_iff (registry : Registry OperationSpec) :
    OwnComponents registry
      ↔ (placedOf registry).Pairwise (fun a b => ¬ SameId a b)
        ∧ ∀ spec ∈ placedOf registry, ∀ m ∈ ownModels spec,
            AllPointers (targets m.toJsonSchema) := by
  have hapart : ((placedOf registry).map (·.operationId)).Nodup
      ↔ (placedOf registry).Pairwise fun a b => ¬ SameId a b := by
    rw [List.Nodup, List.pairwise_map]
    exact List.Pairwise.iff fun a b => not_congr operationId_eq_iff
  constructor
  · intro h
    refine ⟨hapart.mp h.apart, fun spec hspec m hm => ?_⟩
    obtain ⟨hinput, houtput⟩ := component?_own h.apart hspec
    rcases List.mem_append.mp hm with hm | hm
    · have hm := Option.mem_toList.mp hm
      exact (settle_eq_blank_iff _).mp
        (Option.some.inj ((hinput m hm).symm.trans (h.input spec hspec m hm)))
    · have hm := Option.mem_toList.mp hm
      exact (settle_eq_blank_iff _).mp
        (Option.some.inj ((houtput m hm).symm.trans (h.output spec hspec m hm)))
  · rintro ⟨hpairwise, hpointers⟩
    have h := hapart.mpr hpairwise
    have hblank : ∀ spec ∈ placedOf registry, ∀ m ∈ ownModels spec,
        settle (knownNames (placedOf registry)) m.toJsonSchema
          = blank (knownNames (placedOf registry)) m.toJsonSchema :=
      fun spec hspec m hm => (settle_eq_blank_iff _).mpr (hpointers spec hspec m hm)
    refine ⟨nodup_operationIds h, h, fun spec hspec m hm => ?_, fun spec hspec m hm => ?_⟩
    · rw [(component?_own h hspec).1 m hm,
        hblank spec hspec m (List.mem_append_left _ (Option.mem_toList.mpr hm))]
    · rw [(component?_own h hspec).2 m hm,
        hblank spec hspec m (List.mem_append_right _ (Option.mem_toList.mpr hm))]

/-- A link: where it leads, and its title. -/
def link : SchemaModel :=
  ⟨"Link", none, [("$ref", { scalar := some .string }), ("title", { scalar := some .string })]⟩

def linksQuery : OperationSpec where
  header := {
    name := "links.get", version := 1, kind := .query, stability := .stable, owners := [], tags := []
    description := none, goal := none, context := none }
  input := none
  output := some link
  auth := .user
  transport := none

def linksRegistry : Registry OperationSpec := ⟨[linksQuery], List.nodup_singleton _⟩

/-- **A model with a field named `$ref` loses its fields.** -/
theorem not_own_of_refField :
    ¬ OwnComponents linksRegistry
      ∧ Reference.component? (documentOf linksRegistry) "Output_links_get_v1"
        = some (record [("type", .str "object"), ("properties", .map []),
            ("required", texts ["$ref", "title"])]) := by
  have hplaced : placedOf linksRegistry = [linksQuery] := placedOf_singleton _ _
  have hmem : linksQuery ∈ placedOf linksRegistry := hplaced ▸ List.mem_singleton_self _
  have hids : ((placedOf linksRegistry).map (·.operationId)).Nodup :=
    hplaced ▸ List.nodup_singleton _
  constructor
  · rw [ownComponents_iff]
    rintro ⟨-, hpointers⟩
    -- the schema of the field stands where a pointer would
    have hpointer := hpointers linksQuery hmem link (List.mem_singleton.mpr rfl)
      (.map ScalarType.string.schema) (List.mem_singleton.mpr rfl)
    cases hpointer
  · exact ((component?_own hids hmem).2 link rfl).trans rfl

end ApiContract.Export
