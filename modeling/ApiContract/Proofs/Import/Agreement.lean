import ApiContract.Proofs.Codegen.Agreement
import ApiContract.Proofs.Import.Fixpoint
import ApiContract.Proofs.Import.Imports

/-!
# The code and the spec of one input

An operation that is imported has its input twice: declared in the code, and built as a model of the
live spec. Both come from the same schema. They have the same fields in the same order, of which both
say the same but for the types; the types are the same if the properties are read alike, and only then.

* **`exists_inputs`** — the input that the code declares, and the one that the spec has.
* **`Inputs.sameModel_iff`** — when they agree.
* **`input_agrees_iff`** — the headline.
-/

namespace ApiContract.Import

open Codegen Contract OpenApi
open Codegen.Declaration (SameModel SameOutline ReadAlike)
open Schema (modelOf properties?)

variable {api : Api} {options : Options} {operation : Operation} {item : Imported} {schema : Value}

/-! ## Both inputs -/

/-- An input as the code declares it, its lines together, and as the spec has it. -/
structure Inputs (api : Api) (operation : Operation) (item : Imported) (schema : Value)
    (declared : Model) (built : SchemaModel) : Prop where
  declares : Declaration.model schema (operation.id ++ "Input") .null = .ok declared
  code : linesOf declared.code <:+: linesOf item.code
  builds : modelOf schema (Naming.pascalCase operation.id ++ "Input") api.document = .ok built
  spec : ∃ spec, item.spec = some spec ∧ spec.input = some built

theorem exists_inputModel (hdialect : options.dialect = .declaration) {text : String}
    (h : operationCode operation options = .ok text)
    (hschema : inputSchema operation = .ok (some schema)) :
    ∃ declared, Declaration.model schema (operation.id ++ "Input") .null = .ok declared
      ∧ linesOf declared.code <:+: linesOf text := by
  obtain ⟨node, input, output, identity, hnode, hinput, -, -, rfl⟩ := operationCode_eq_ok.mp h
  cases hschema.symm.trans hnode
  obtain ⟨code, hcode, rfl⟩ := map_eq_ok.mp hinput
  have hmodel := generateModel_eq_ok hcode
  rw [hdialect] at hmodel
  obtain ⟨declared, hdeclared, hmodel⟩ := bind_eq_ok.mp hmodel
  cases hmodel
  refine ⟨declared, hdeclared, ?_⟩
  unfold specFile
  rw [linesOf_lineFeed]
  refine (linesOf_infix_joinLines ?_).trans (List.prefix_append _ _).isInfix
  simp [modelSection]

theorem exists_inputSpec {document : Value} {spec : OperationSpec}
    (h : operationSpec operation options document = .ok spec)
    (hschema : inputSchema operation = .ok (some schema)) :
    ∃ built, modelOf schema (Naming.pascalCase operation.id ++ "Input") document = .ok built
      ∧ spec.input = some built := by
  unfold operationSpec at h
  obtain ⟨node, hnode, h⟩ := bind_eq_ok.mp h
  cases hschema.symm.trans hnode
  obtain ⟨identity, -, h⟩ := bind_eq_ok.mp h
  obtain ⟨input, hinput, h⟩ := bind_eq_ok.mp h
  obtain ⟨output, -, h⟩ := bind_eq_ok.mp h
  cases h
  obtain ⟨built, hbuilt, rfl⟩ := map_eq_ok.mp hinput
  exact ⟨built, hbuilt, rfl⟩

/-- **An operation that is imported** has both. -/
theorem exists_inputs (hdialect : options.dialect = .declaration) (hspecs : options.buildSpecs = true)
    (himported : importOperation api options operation = .imported item)
    (hschema : inputSchema operation = .ok (some schema)) :
    ∃ declared built, Inputs api operation item schema declared built := by
  have hfrom := importedFrom_of_importSpec (importOperation_eq_imported himported)
  obtain ⟨spec, hspec, hbuiltSpec⟩ := hfrom.spec hspecs
  obtain ⟨declared, hdeclared, hlines⟩ := exists_inputModel hdialect hfrom.code hschema
  obtain ⟨built, hbuilt, hinput⟩ := exists_inputSpec hbuiltSpec hschema
  exact ⟨declared, built, hdeclared, hlines, hbuilt, spec, hspec, hinput⟩

/-- The schema of an input is an object whose properties have different names. -/
structure InputObject (schema : Value) (properties : Members) : Prop where
  unlisted : (schema.field "enum").isTruthy = false
  nests : Declaration.Nests schema
  found : properties? schema = some properties
  nodup : (properties.map (·.1.text)).Nodup

theorem exists_inputObject (hschema : inputSchema operation = .ok (some schema)) :
    ∃ properties, InputObject schema properties := by
  unfold inputSchema at hschema
  obtain ⟨fields, -, hschema⟩ := bind_eq_ok.mp hschema
  split at hschema
  · cases hschema
  · cases hschema
    refine ⟨_, rfl, ⟨rfl, .inl rfl⟩, rfl, ?_⟩
    rw [List.map_map]
    exact Named.nodup_ofList _

/-! ## Agreement -/

section Agreement

variable {properties : Members} {declared : Model} {built : SchemaModel}
  (h : Inputs api operation item schema declared built) (hobject : InputObject schema properties)
  (hfree : Declaration.RefFree schema)

include h hobject hfree

theorem Inputs.exists_fieldsOf : ∃ specs, Declaration.FieldsOf properties declared built specs := by
  obtain ⟨c, name, heq⟩ := Schema.modelOf_of_end hfree.other
    (Naming.pascalCase operation.id ++ "Input") api.document
  have hbuilt := h.builds
  rw [heq] at hbuilt
  exact Declaration.exists_fieldsOf hfree.other hobject.unlisted hobject.found h.declares hbuilt

theorem Inputs.sameModel_iff : SameModel declared built ↔ ∀ p ∈ properties, ReadAlike p.2 := by
  obtain ⟨specs, hfields⟩ := h.exists_fieldsOf hobject hfree
  refine hfields.sameModel_iff hobject.nodup fun p hp => ?_
  have hnode := hfree.property hobject.found hp
  exact Declaration.fieldsAlike_of hnode fun target htarget =>
    Declaration.modelsAlike (hnode.target htarget)

end Agreement

/-! ## A list of statuses -/

/-- A node with two values. -/
def statusNode : Value := .map (Export.enumMembers ["available", "pending"])

/-- A list of such values. -/
def statusList : Value := .map [(.str "type", .str "array"), (.str "items", statusNode)]

/-- A document with one operation, which takes a status. -/
def petsDocument (status : Value) : Value :=
  .map [(.str "openapi", .str "3.0.0"),
    (.str "paths", .map [(.str "/pets", .map [(.str "get", .map [
      (.str "operationId", .str "findPets"),
      (.str "parameters", .list [.map [(.str "name", .str "status"), (.str "in", .str "query"),
        (.str "schema", status)]]),
      (.str "responses", .map [])])])])]

/-- That operation, as it is read. -/
def petsOperation (status : Value) : Operation where
  id := "findPets"
  method := .get
  path := "/pets"
  summary := none
  description := none
  tags := []
  pathParams := []
  queryParams := [⟨"status", .query, false, none, some status, false⟩]
  headerParams := []
  cookieParams := []
  requestBody := none
  responses := []
  deprecated := false
  security := none
  identity := none

/-- The schema of its input. -/
def petsInput (status : Value) : Value := objectSchema [⟨"status", status, false⟩]

section Pets

variable {status : Value}

theorem ofDocument_pets
    (hoperations : [petsOperation status] = (harvestPaths (petsDocument status)).operations) :
    ∃ api, Api.ofDocument (petsDocument status) = .ok api ∧ api.document = petsDocument status
      ∧ api.operations = [petsOperation status] := by
  have hversion : detectVersion (petsDocument status) = .ok "3.0" := by cbv
  exact ⟨⟨petsDocument status, "3.0", _, [], [petsOperation status], [],
    (harvestPaths (petsDocument status)).warnings⟩, Api.ofDocument_eq_ok.mpr
      ⟨rfl, hversion, rfl, rfl, hoperations, rfl, rfl, [], rfl, rfl⟩, rfl, rfl⟩

theorem inputSchema_pets : inputSchema (petsOperation status) = .ok (some (petsInput status)) := rfl

theorem not_mentions_petsInput (h : ∀ name, ¬Schema.Mentions status name) (name : String) :
    ¬Schema.Mentions (petsInput status) name := by
  have node : Schema.ObjectNode [(.str "type", .str "object"),
      (.str "properties", .map [(.str "status", status)]), (.str "required", .list [])]
      [(.str "status", status)] := by
    refine ⟨⟨by simp, rfl⟩, rfl, rfl, rfl, rfl, fun v hv => ?_, nofun⟩
    cases hv
    exact ⟨[], rfl⟩
  intro hmentions
  obtain ⟨m, hm, hmentions⟩ := (Schema.mentions_object_iff node).mp hmentions
  cases List.mem_singleton.mp hm
  exact h name hmentions

/-- The operation is imported if its schema ends. -/
theorem importOperation_pets (hexported : Schema.Exported [] status)
    (hends : ∀ name, ¬Schema.Mentions status name) {api : Api}
    (hdocument : api.document.isTruthy = true) :
    ∃ item, importOperation api everything (petsOperation status) = .imported item := by
  have hexchanges : Exchanges [] (petsOperation status) :=
    ⟨⟨[⟨"status", status, false⟩], rfl, fun f hf => List.mem_singleton.mp hf ▸ hexported⟩, nofun⟩
  have hfinite : Finite api.document (petsOperation status) := by
    refine ⟨fun schema hschema => ?_, nofun⟩
    cases inputSchema_pets.symm.trans hschema
    exact not_endless_of_not_mentions (not_mentions_petsInput hends)
  have hsupplies : Schema.Supplies api.document [] := ⟨Nat.zero_le _, nofun, nofun⟩
  have hidentity : Succeeds (identityOf (petsOperation status) none) := ⟨⟨"findPets", 1, .query⟩, rfl⟩
  obtain ⟨item, hitem⟩ :=
    (succeeds_importSpec_iff hsupplies hdocument hexchanges hidentity).mpr hfinite
  have hskip : skipReason? (petsOperation status) everything = none := rfl
  refine ⟨item, ?_⟩
  unfold importOperation
  rw [hskip, hitem]

theorem refFree_petsInput (h : Declaration.RefFree status) :
    Declaration.RefFree (petsInput status) := by
  refine .mk rfl nofun fun properties hproperties p hp => ?_
  cases hproperties
  cases List.mem_singleton.mp hp
  exact h

end Pets

theorem refFree_statusNode : Declaration.RefFree statusNode := .mk rfl nofun nofun

theorem refFree_statusList : Declaration.RefFree statusList := by
  refine .mk rfl (fun item hitem => ?_) nofun
  cases hitem
  exact refFree_statusNode

theorem leafNode_status : Schema.LeafNode (Export.enumMembers ["available", "pending"]) :=
  Export.leafNode_enum _

/-- A list of values is not read alike: its declaration has none. -/
theorem not_readAlike_statusList : ¬ReadAlike statusList := by
  have hsingle : (Schema.typeOf statusNode).1 ≠ some "array" := by decide
  intro halike
  have hitems : Declaration.ItemsAlike statusList statusNode :=
    (Declaration.readAlike_list_iff rfl refFree_statusList rfl).mp halike
  have hnests : Declaration.Nests statusNode := (Declaration.itemsAlike_iff rfl hsingle).mp hitems
  exact absurd hnests.1 (by decide)

theorem writtenType_statusList {name parent : String} {required : Bool} {f : Field}
    (h : Declaration.DeclaredField statusList name required parent f) :
    Declaration.writtenType f = .scalar "ScalarTypeEnum.JSONObject" := by
  have hinline : Declaration.IsInline statusList := ⟨rfl, rfl⟩
  cases Declaration.writtenAs (fun _ => refFree_statusList.not_itemRefers) h with
  | values _ listed _ => exact absurd (Schema.isTruthy_of_listed listed) (by decide)
  | nested _ found nests _ _ =>
    rw [Declaration.nestTarget?_of_array hinline rfl] at found
    cases found
    exact absurd nests.1 (by decide)
  | scalar _ _ written =>
    have hscalar : Schema.scalarType statusList = none :=
      (Declaration.scalarType_of_array hinline rfl rfl).trans
        (@Declaration.scalarType_of_single statusNode ⟨rfl, rfl⟩ (by decide))
    rw [written, hscalar]
    rfl

theorem values_of_statusList {fuel : Nat} {c : Schema.Context} {property parent : String}
    {required : Bool} {spec : FieldSpec}
    (h : Schema.fieldWithin fuel c statusList property required parent = .ok spec) :
    spec.enumValues = some ["available", "pending"] := by
  have hbuilt : Schema.BuiltAs statusNode spec :=
    Schema.builtAs_of_items rfl rfl rfl rfl rfl (by decide) h
  have hvalues : Schema.enumValues statusNode = .ok (some [.str "available", .str "pending"]) := rfl
  exact hbuilt.values_of_listed hvalues

/-- The one field of the input, as it is declared and as it is built. -/
theorem exists_field_pets {status : Value} {declared : Model} {built : SchemaModel}
    {specs : List (String × FieldSpec)}
    (h : Declaration.FieldsOf [(.str "status", status)] declared built specs) :
    ∃ f spec required parent, declared.fields = [f] ∧ built.fields = [("status", spec)]
      ∧ Declaration.DeclaredField status "status" required parent f
      ∧ ∃ fuel c parent', Schema.fieldWithin fuel c status "status" required parent' = .ok spec := by
  obtain ⟨required, hdeclared, hbuilt⟩ := h.each
  obtain ⟨f, rest, ⟨parent, hf⟩, hrest, hfields⟩ := List.forall₂_cons_left_iff.mp hdeclared
  cases List.forall₂_nil_left_iff.mp hrest
  obtain ⟨⟨name, spec⟩, rest, ⟨hname, hspec⟩, hrest, hspecs⟩ := List.forall₂_cons_left_iff.mp hbuilt
  cases List.forall₂_nil_left_iff.mp hrest
  cases hname
  have hnodup : (([(.str "status", status)] : Members).map (·.1.text)).Nodup :=
    List.nodup_singleton _
  exact ⟨f, spec, _, parent, hfields, (h.fields_eq hnodup).trans hspecs, hf, hspec⟩

/-! ## The two inputs of an operation -/

/-- **The code and the spec of an input without references** have the same fields in the same order,
optional and lists alike; they agree if each property is read alike. -/
theorem input_agrees_iff (hdialect : options.dialect = .declaration)
    (hspecs : options.buildSpecs = true)
    (himported : importOperation api options operation = .imported item)
    (hschema : inputSchema operation = .ok (some schema)) (hfree : Declaration.RefFree schema) :
    ∃ declared built properties, Inputs api operation item schema declared built
      ∧ List.Forall₂ SameOutline declared.fields built.fields
      ∧ properties? schema = some properties
      ∧ (SameModel declared built ↔ ∀ p ∈ properties, ReadAlike p.2) := by
  obtain ⟨declared, built, hinputs⟩ := exists_inputs hdialect hspecs himported hschema
  obtain ⟨properties, hobject⟩ := exists_inputObject hschema
  obtain ⟨specs, hfields⟩ := hinputs.exists_fieldsOf hobject hfree
  have houtlines := hfields.sameOutlines hobject.nodup fun p hp =>
    (hfree.property hobject.found hp).other
  exact ⟨declared, built, properties, hinputs, houtlines, hobject.found,
    hinputs.sameModel_iff hobject hfree⟩

theorem input_agrees_of_values :
    ∃ api item declared built, Api.ofDocument (petsDocument statusNode) = .ok api
      ∧ importOperation api everything (petsOperation statusNode) = .imported item
      ∧ inputSchema (petsOperation statusNode) = .ok (some (petsInput statusNode))
      ∧ Declaration.RefFree (petsInput statusNode)
      ∧ Inputs api (petsOperation statusNode) item (petsInput statusNode) declared built
      ∧ SameModel declared built := by
  obtain ⟨api, hapi, hdocument, -⟩ := @ofDocument_pets statusNode (by
    rw [harvestPaths_operations]
    cbv)
  have htruthy : api.document.isTruthy = true := by rw [hdocument]; rfl
  obtain ⟨item, himported⟩ := importOperation_pets (.leaf leafNode_status)
    (Schema.not_mentions_leaf leafNode_status) htruthy
  have hfree := refFree_petsInput refFree_statusNode
  obtain ⟨declared, built, properties, hinputs, -, hfound, hsame⟩ :=
    input_agrees_iff rfl rfl himported inputSchema_pets hfree
  refine ⟨api, item, declared, built, hapi, himported, inputSchema_pets, hfree, hinputs,
    hsame.mpr fun p hp => ?_⟩
  cases hfound
  cases List.mem_singleton.mp hp
  exact .values rfl (by decide) rfl

/-- **A list whose values are lost**: the spec has them, the code says `JSONObject`. -/
theorem values_lost_of_list :
    ∃ api item declared built spec, Api.ofDocument (petsDocument statusList) = .ok api
      ∧ petsOperation statusList ∈ api.operations
      ∧ importOperation api everything (petsOperation statusList) = .imported item
      ∧ inputSchema (petsOperation statusList) = .ok (some (petsInput statusList))
      ∧ Declaration.RefFree (petsInput statusList)
      ∧ Inputs api (petsOperation statusList) item (petsInput statusList) declared built
      ∧ (∃ line ∈ linesOf item.code, "      type: ScalarTypeEnum.JSONObject(),".toList <+: line)
      ∧ built.fields = [("status", spec)] ∧ spec.enumValues = some ["available", "pending"]
      ∧ ¬SameModel declared built := by
  obtain ⟨api, hapi, hdocument, hoperations⟩ := @ofDocument_pets statusList (by
    rw [harvestPaths_operations]
    cbv)
  have htruthy : api.document.isTruthy = true := by rw [hdocument]; rfl
  have node : Schema.ListNode [(.str "type", .str "array"), (.str "items", statusNode)] statusNode :=
    ⟨⟨by simp, rfl⟩, rfl, rfl, rfl, rfl⟩
  obtain ⟨item, himported⟩ := importOperation_pets (.list node (.leaf leafNode_status))
    (fun name hm => Schema.not_mentions_leaf leafNode_status name
      ((Schema.mentions_list_iff node).mp hm)) htruthy
  have hfree := refFree_petsInput refFree_statusList
  obtain ⟨declared, built, hinputs⟩ := exists_inputs rfl rfl himported inputSchema_pets
  have hobject : InputObject (petsInput statusList) [(.str "status", statusList)] :=
    ⟨rfl, ⟨rfl, .inl rfl⟩, rfl, List.nodup_singleton _⟩
  obtain ⟨specs, hfields⟩ := hinputs.exists_fieldsOf hobject hfree
  obtain ⟨f, spec, required, parent, hdeclared, hbuilt, hf, fuel, c, parent', hspec⟩ :=
    exists_field_pets hfields
  obtain ⟨description, hcode⟩ := hfields.code
  refine ⟨api, item, declared, built, spec, hapi, by rw [hoperations]; exact List.mem_singleton_self _,
    himported, inputSchema_pets, hfree, hinputs, ?_, hbuilt, values_of_statusList hspec, ?_⟩
  · have hmem : f ∈ declared.fields := by
      rw [hdeclared]
      exact List.mem_singleton_self f
    have hone : '\n' ∉ "      type: ScalarTypeEnum.JSONObject(),".toList := by decide
    obtain ⟨line, hline, hstart⟩ := Declaration.exists_typeLine hcode hmem hone (by
      rw [writtenType_statusList hf]
      exact List.prefix_rfl)
    exact ⟨line, hinputs.code.subset hline, hstart⟩
  · intro hsame
    exact not_readAlike_statusList
      ((hinputs.sameModel_iff hobject hfree).mp hsame _ (List.mem_singleton_self _))

end ApiContract.Import
