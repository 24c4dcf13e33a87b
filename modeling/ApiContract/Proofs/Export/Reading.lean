import ApiContract.Proofs.Export.Document
import ApiContract.Proofs.Export.Layout

/-!
# Reading an exported operation

An exported operation object is read back without a warning, and the result is known member by
member: what the spec says of itself comes back as it was, and every schema comes back with at most
its outer reference followed.

* **`inlines_of_exported`** — the schemas that can be read.
* **`readParameter_exported`** / **`readRequestBody_exported`** / **`readResponses_exported`** — the
  parts.
* **`readOperation_slotOf`** — an operation as far as its schemas do not matter.
* **`readSlot_exported`** — the whole operation.
-/

namespace ApiContract.Export

open Contract OpenApi Schema
open Reference (IsPlain)

/-! ## Members of the object -/

theorem get?_memberUnlessEmpty (key : String) (items : List Value) (name : String) :
    Members.get? (memberUnlessEmpty key items) name
      = if key = name ∧ items ≠ [] then some (.list items) else none := by
  cases items with
  | nil => simp [memberUnlessEmpty]
  | cons v rest => simp [memberUnlessEmpty]

/-- What the request body is a reference to, if there is a body. -/
def bodyComponent (spec : OperationSpec) : Option String :=
  if spec.input.isSome && !queryVerbs.contains spec.verb then some (inputName spec.operationId)
  else none

/-- The component of a body is that of the input. -/
theorem mem_of_mem_bodyComponent {spec : OperationSpec} {names : List String}
    (h : spec.input.isSome → inputName spec.operationId ∈ names) {component : String}
    (hcomponent : component ∈ bodyComponent spec) : component ∈ names := by
  unfold bodyComponent at hcomponent
  split at hcomponent
  · rename_i hsome
    cases hcomponent
    exact h (Bool.and_eq_true _ _ ▸ hsome).1
  · cases hcomponent

/-- The node of a request body. -/
def bodyNode (component : String) : Value :=
  .map [member "required" (.bool true), member "content" (jsonContent component)]

theorem requestBody_eq (spec : OperationSpec) :
    requestBody spec = memberIf "requestBody" bodyNode (bodyComponent spec) := by
  unfold requestBody bodyComponent
  split <;> rfl

theorem deprecatedMembers_eq (deprecated : Prop) [Decidable deprecated] :
    (if deprecated then [member "deprecated" (.bool true)] else [])
      = memberIf "deprecated" Value.bool (if deprecated then some true else none) := by
  split <;> rfl

/-- The members of an operation object, each as the spec has it. -/
theorem get?_operationObject (spec : OperationSpec) :
    (operationObject spec).get? "$ref" = none
      ∧ (operationObject spec).get? "operationId" = some (.str spec.operationId)
      ∧ (operationObject spec).get? "summary"
          = (OperationSpec.nonEmpty spec.header.description).map .str
      ∧ (operationObject spec).get? "description"
          = (OperationSpec.nonEmpty spec.header.goal).map .str
      ∧ (operationObject spec).get? "tags"
          = (if spec.header.tags.map Value.str ≠ [] then some (.list (spec.header.tags.map .str))
            else none)
      ∧ (operationObject spec).get? "requestBody" = (bodyComponent spec).map bodyNode
      ∧ (operationObject spec).get? "parameters"
          = (if parameters spec ≠ [] then some (.list (parameters spec)) else none)
      ∧ (operationObject spec).get? "responses" = some (responses spec)
      ∧ (operationObject spec).get? "security" = some (security spec)
      ∧ (operationObject spec).get? "deprecated"
          = (if spec.header.stability = .deprecated then some true else none).map Value.bool
      ∧ (operationObject spec).get? "x-contractspec" = some (identity spec) := by
  simp [operationObject, Value.get?, get?_memberUnlessEmpty, requestBody_eq, deprecatedMembers_eq,
    memberIfText]

/-! ## Settling the object -/

section Settled

variable {names : List String}

theorem settle_jsonContent {component : String} (h : component ∈ names) :
    settle names (jsonContent component) = jsonContent component := by
  have hmedia : settle names (.map [member "schema" (componentReference component)])
      = .map [member "schema" (componentReference component)] := by
    rw [settle_map rfl]
    simp [settleMembers, member, settle_componentReference, h]
  unfold jsonContent
  rw [settle_map rfl]
  simp only [settleMembers, member]
  unfold member at hmedia
  rw [hmedia]

theorem settle_bodyNode {component : String} (h : component ∈ names) :
    settle names (bodyNode component) = bodyNode component := by
  unfold bodyNode
  rw [settle_map rfl]
  simp only [settleMembers, member, settle_scalar, settle_jsonContent h]

theorem settle_responses {spec : OperationSpec}
    (h : spec.output.isSome → outputName spec.operationId ∈ names) :
    settle names (responses spec) = responses spec := by
  unfold responses
  rw [settle_map rfl]
  cases hout : spec.output with
  | none =>
    simp only [Option.isSome_none, Bool.false_eq_true, if_false, settleMembers, member]
    rw [settle_map rfl]
    simp only [settleMembers, settle_scalar]
  | some m =>
    simp only [Option.isSome_some, if_true, settleMembers, member]
    rw [settle_map rfl]
    simp only [settleMembers, settle_scalar, settle_jsonContent (h (by rw [hout]; rfl))]

theorem settle_security (spec : OperationSpec) : settle names (security spec) = security spec := by
  unfold security
  split
  · rw [settle_list, List.map_singleton, settle_map rfl]
    rfl
  · rw [settle_list, List.map_singleton, settle_map rfl]
    simp [settleMembers, settle_list, member]

theorem settle_identity (spec : OperationSpec) : settle names (identity spec) = identity spec := by
  unfold identity
  rw [settle_map rfl]
  simp [settleMembers, member]

theorem settle_parameter (name location : String) (required : Bool) (schema : Value) :
    settle names (parameter name location required schema)
      = parameter name location required (settle names schema) := by
  unfold parameter
  rw [settle_map rfl]
  simp [settleMembers, member]

/-- A parameter as the export writes it. -/
structure ParameterPart where
  name : String
  location : Location
  required : Bool
  schema : Value

def ParameterPart.node (names : List String) (p : ParameterPart) : Value :=
  parameter p.name p.location.name p.required (settle names p.schema)

/-- The parameters of an operation: those of its path, then those of its query. -/
def parameterParts (spec : OperationSpec) : List ParameterPart :=
  let names := pathNames spec.path
  let fields := (spec.input.map (·.fields)).getD []
  (names.map fun name =>
    ⟨name, .path, true, ((Named.get? fields name).map FieldSpec.toJsonSchema).getD
      (.map [member "type" (.str "string")])⟩)
  ++ (if queryVerbs.contains spec.verb then
      (fields.filter fun (name, _) => !names.contains name).map fun (name, field) =>
        ⟨name, .query, !field.isOptional, field.toJsonSchema⟩
    else [])

theorem settle_parameters (spec : OperationSpec) :
    (parameters spec).map (settle names) = (parameterParts spec).map (·.node names) := by
  unfold parameters parameterParts
  dsimp only
  rw [List.map_append, List.map_append, List.map_map, List.map_map]
  congr 1
  split
  · rw [List.map_map, List.map_map]
    exact List.map_congr_left fun f _ => settle_parameter _ _ _ _
  · rfl

end Settled

/-! ## Schemas of the document -/

section Reading

variable {document : Value} {names : List String}

/-- A schema with its outer reference followed. -/
def inlined (document schema : Value) : Value :=
  ((Reference.pointer? schema).bind (Reference.resolvePointer document)).getD schema

/-- A schema that is no reference stays as it is. -/
theorem inlined_of_end {schema : Value} (h : Reference.pointer? schema = none) :
    inlined document schema = schema := by
  unfold inlined
  rw [h]
  rfl

/-- A component is an object. -/
theorem inlined_component (supplies : Supplies document names) {name : String} (h : name ∈ names) :
    ∃ members properties, Reference.component? document name = some (.map members)
      ∧ inlined document (componentReference name) = .map members
      ∧ ObjectNode members properties ∧ ∀ m ∈ properties, Exported names m.2 := by
  obtain ⟨tree, hcomponent, hexported, hprops⟩ := supplies.component name h
  obtain ⟨members, properties, rfl, node, exported⟩ := hexported.objectNode hprops
  refine ⟨members, properties, hcomponent, ?_, node, exported⟩
  unfold inlined
  rw [Reference.pointer?_component, Option.bind_some,
    Reference.resolvePointer_component (supplies.plain name h) hcomponent rfl]
  rfl

/-- An exported schema can be read, and what is read is no reference. -/
theorem schemaAt_exported (supplies : Supplies document names) {schema : Value}
    (h : Exported names schema) :
    schemaAt document schema = .ok (some (inlined document schema))
      ∧ Exported names (inlined document schema)
      ∧ Reference.pointer? (inlined document schema) = none := by
  have hend : ∀ members : Members, schema = .map members → Plain members →
      schemaAt document schema = .ok (some (inlined document schema))
        ∧ Exported names (inlined document schema)
        ∧ Reference.pointer? (inlined document schema) = none := by
    rintro members rfl hplain
    have hpointer := hplain.pointer?_eq_none
    rw [inlined_of_end hpointer]
    refine ⟨?_, h, hpointer⟩
    unfold schemaAt
    rw [Reference.resolve_of_pointer?_eq_none hpointer]
    rfl
  cases h with
  | @reference name hname =>
    obtain ⟨members, properties, hcomponent, hinlined, node, exported⟩ :=
      inlined_component supplies hname
    rw [hinlined]
    refine ⟨?_, .object node exported, node.pointer?_eq_none⟩
    unfold schemaAt
    rw [Reference.resolve_component (supplies.plain name hname) hcomponent rfl
      node.pointer?_eq_none]
    rfl
  | leaf node => exact hend _ rfl node.toPlain
  | list node _ => exact hend _ rfl node.toPlain
  | object node _ => exact hend _ rfl node.toPlain

/-- An exported schema is a mapping with texts as keys. -/
theorem object_exported {schema : Value} (h : Exported names schema)
    (hend : Reference.pointer? schema = none) : Check.object schema = .ok schema := by
  cases h with
  | reference hname => cases hend
  | leaf node => exact Check.object_ok node.keys
  | list node _ => exact Check.object_ok node.keys
  | object node _ => exact Check.object_ok node.keys

theorem optional_object {schema : Value} (h : Exported names schema)
    (hend : Reference.pointer? schema = none) :
    Check.optional Check.object schema = .ok (some schema) := by
  have hobject := object_exported h hend
  have hnull := h.isNull
  unfold Check.optional
  split
  · cases hnull
  · rw [hobject]
    rfl

/-- What is read of a schema is the schema with its outer reference followed. -/
structure Inlines (document schema : Value) : Prop where
  schemaAt : schemaAt document schema = .ok (some (inlined document schema))
  check : Check.optional Check.object (inlined document schema)
    = .ok (some (inlined document schema))

theorem inlines_of_exported (supplies : Supplies document names) {schema : Value}
    (h : Exported names schema) : Inlines document schema := by
  obtain ⟨hschema, hexported, hend⟩ := schemaAt_exported supplies h
  exact ⟨hschema, optional_object hexported hend⟩

/-! ## Parameters -/

/-- What reading a parameter gives. -/
def ParameterPart.read (document : Value) (names : List String) (p : ParameterPart) : Parameter where
  name := p.name
  location := p.location
  required := p.location == .path || p.required
  description := none
  schema := some (inlined document (settle names p.schema))
  deprecated := false

theorem readParameter_exported (method : Method) (path : String) (p : ParameterPart)
    (h : Inlines document (settle names p.schema)) :
    readParameter document method path (p.node names) = .ok (.inr (p.read document names)) := by
  have hfield : (p.node names).field "schema" = settle names p.schema := rfl
  have hlocation : ((p.node names).field "in").str?.bind Location.ofName? = some p.location := by
    show Location.ofName? p.location.name = some p.location
    cases p.location <;> rfl
  unfold readParameter
  rw [show Reference.pointer? (p.node names) = none from rfl]
  dsimp only
  rw [if_neg (by simp [ParameterPart.node, parameter, Value.isMap]), hlocation]
  dsimp only
  rw [hfield, h.schemaAt]
  dsimp only [bind, Except.bind, Option.getD_some]
  rw [h.check]
  rfl

/-- Nodes that all give parameters are read without a warning. -/
theorem readParameters_ok {α : Type} {method : Method} {path : String} {items : List α}
    {node : α → Value} {read : α → Parameter}
    (h : ∀ a ∈ items, readParameter document method path (node a) = .ok (.inr (read a))) :
    readParameters document method path (items.map node) = ([], .ok (items.map read)) := by
  induction items with
  | nil => rfl
  | cons a rest ih =>
    rw [List.map_cons, readParameters, h a List.mem_cons_self]
    dsimp only
    rw [ih fun b hb => h b (List.mem_cons_of_mem a hb)]
    rfl

/-! ## Body and answers -/

theorem readRequestBody_exported (component : Option String)
    (h : ∀ c ∈ component, Inlines document (componentReference c)) :
    readRequestBody document ((component.map bodyNode).getD .null)
      = .ok (component.map fun c =>
          ⟨true, "application/json", some (inlined document (componentReference c))⟩) := by
  cases component with
  | none => rfl
  | some c =>
    have hinlines := h c rfl
    unfold readRequestBody
    rw [Option.map_some, Option.getD_some]
    have hresolve : Reference.resolve document (bodyNode c) = .ok (bodyNode c) :=
      Reference.resolve_of_pointer?_eq_none rfl
    rw [if_neg (by simp [bodyNode, Value.isNull]), hresolve]
    have hcontent : firstContent ((bodyNode c).field "content")
        = (some "application/json", some (.map [member "schema" (componentReference c)])) := rfl
    have hget : (Value.map [member "schema" (componentReference c)]).get? "schema"
        = some (componentReference c) := rfl
    dsimp only [bind, Except.bind]
    rw [if_neg (by simp [bodyNode, Value.isMap, Reference.isReference, Reference.pointer?, Value.get?]),
      hcontent]
    dsimp only [Option.bind]
    rw [hget]
    dsimp only
    rw [hinlines.schemaAt]
    dsimp only [Option.getD_some]
    rw [hinlines.check]
    rfl

/-- The answers as they are read back. -/
def readBackResponses (document : Value) (spec : OperationSpec) : Named Response :=
  [("200",
    { description := some "Success"
      contentType := if spec.output.isSome then some "application/json" else none
      schema :=
        if spec.output.isSome then
          some (inlined document (componentReference (outputName spec.operationId)))
        else none })]

theorem readResponses_exported (spec : OperationSpec)
    (h : spec.output.isSome →
      Inlines document (componentReference (outputName spec.operationId))) :
    readResponses document (responses spec) = .ok (readBackResponses document spec) := by
  have hread : ∀ node response, readResponse document node = .ok (some response) →
      readResponses document (.map [member "200" node]) = .ok [("200", response)] := by
    intro node response hresponse
    unfold readResponses
    simp only [member, List.mapM_cons, List.mapM_nil, hresponse]
    rfl
  unfold responses readBackResponses
  cases hout : spec.output with
  | none => exact hread _ _ rfl
  | some m =>
    have hinlines := h (by rw [hout]; rfl)
    refine hread _ _ ?_
    simp only [Option.isSome_some, if_true]
    have hcontent : firstContent ((Value.map [member "description" (.str "Success"),
          member "content" (jsonContent (outputName spec.operationId))]).field "content")
        = (some "application/json",
          some (.map [member "schema" (componentReference (outputName spec.operationId))])) := rfl
    have hfield : (Value.map [member "schema"
          (componentReference (outputName spec.operationId))]).field "schema"
        = componentReference (outputName spec.operationId) := rfl
    unfold readResponse
    rw [Reference.resolve_of_pointer?_eq_none rfl]
    dsimp only [bind, Except.bind]
    rw [if_neg (by simp [Value.isMap, Reference.isReference, Reference.pointer?, Value.get?]),
      hcontent]
    dsimp only [Option.map_some, Option.getD_some]
    rw [hfield, hinlines.schemaAt]
    dsimp only [Option.getD_some]
    rw [hinlines.check]
    rfl

/-! ## The operation -/

/-- The operation that is read back from the object of a spec. -/
def readBack (document : Value) (names : List String) (m : Method) (spec : OperationSpec) :
    Operation where
  id := spec.operationId
  method := m
  path := spec.path
  summary := OperationSpec.nonEmpty spec.header.description
  description := OperationSpec.nonEmpty spec.header.goal
  tags := spec.header.tags
  pathParams := ((parameterParts spec).map (·.read document names)).filter (·.location == .path)
  queryParams := ((parameterParts spec).map (·.read document names)).filter (·.location == .query)
  headerParams := ((parameterParts spec).map (·.read document names)).filter (·.location == .header)
  cookieParams := ((parameterParts spec).map (·.read document names)).filter (·.location == .cookie)
  requestBody := (bodyComponent spec).map fun c =>
    ⟨true, "application/json", some (inlined document (componentReference c))⟩
  responses := readBackResponses document spec
  deprecated := decide (spec.header.stability = .deprecated)
  security := some (if spec.auth = .anonymous then [[]] else [[(bearerScheme, [])]])
  identity := some (identity spec)

/-- A member of an exported operation. -/
theorem field_exportedOperation (spec : OperationSpec) (name : String) :
    (exportedOperation names spec).get? name
      = ((operationObject spec).get? name).map (settle names) := by
  unfold exportedOperation
  exact get?_settle (get?_operationObject spec).1 name

theorem operationId_ne_empty (spec : OperationSpec) : spec.operationId ≠ "" := by
  intro h
  have hid : spec.operationId
      = OperationSpec.withoutPoints spec.header.name '_' ++ ("_v" ++ toString spec.header.version) := by
    rfl
  have hlist := congrArg String.toList (hid.symm.trans h)
  simp [String.toList_append] at hlist

/-- What the parameters of an exported operation are read from. -/
theorem parameterNodes_exported (m : Method) (spec : OperationSpec) :
    parameterNodes document (slotOf names (m, spec))
      = .ok ((parameterParts spec).map (·.node names)) := by
  have hown : entriesOf ((exportedOperation names spec).field "parameters")
      = .ok ((parameterParts spec).map (·.node names)) := by
    obtain ⟨-, -, -, -, -, -, hparameters, -⟩ := get?_operationObject spec
    unfold Value.field
    rw [field_exportedOperation, hparameters, ← settle_parameters]
    cases hparams : parameters spec with
    | nil => rfl
    | cons p rest =>
      rw [if_pos (by simp), Option.map_some, settle_list]
      rfl
  have hresolve : ((parameterParts spec).map (·.node names)).mapM (Reference.resolve document)
      = .ok ((parameterParts spec).map (·.node names)) := by
    rw [mapM_eq_ok]
    refine List.map_congr_left fun node hnode => ?_
    obtain ⟨p, -, rfl⟩ := List.mem_map.mp hnode
    exact Reference.resolve_of_pointer?_eq_none rfl
  have hshared : entriesOf .null = .ok [] := rfl
  unfold parameterNodes slotOf
  dsimp only
  rw [hshared, hown]
  dsimp only [bind, Except.bind]
  rw [hresolve]
  rfl

theorem securityCheck_security (spec : OperationSpec) :
    securityCheck (security spec)
      = .ok (some (if spec.auth = .anonymous then [[]] else [[(bearerScheme, [])]])) := by
  unfold security
  split
  · rfl
  · rfl

/-- The requirement that an exported operation states is read back. -/
theorem withDefault_security {v : Value} {spec : OperationSpec}
    (h : v.get? "security" = some (security spec)) :
    Check.withDefault securityCheck none "security" v
      = .ok (some (if spec.auth = .anonymous then [[]] else [[(bearerScheme, [])]])) := by
  unfold Check.withDefault
  rw [h]
  exact securityCheck_security spec

/-- The tags of an exported operation. -/
theorem entriesOf_tags (spec : OperationSpec) :
    entriesOf ((exportedOperation names spec).field "tags")
      = .ok (spec.header.tags.map .str) := by
  obtain ⟨-, -, -, -, htags, -⟩ := get?_operationObject spec
  unfold Value.field
  rw [field_exportedOperation, htags]
  cases spec.header.tags with
  | nil => rfl
  | cons tag rest =>
    rw [if_pos (by simp), Option.map_some, settle_texts]
    rfl

/-- **An operation as far as its schemas do not matter**: only body, answers and parameters are still
to be read. -/
theorem readOperation_slotOf (m : Method) (spec : OperationSpec) (parameters : List Parameter) :
    readOperation document (slotOf names (m, spec)) parameters = do
      let body ← readRequestBody document ((exportedOperation names spec).field "requestBody")
      let responses ← readResponses document ((exportedOperation names spec).field "responses")
      return { readBack document names m spec with
        pathParams := parameters.filter (·.location == .path)
        queryParams := parameters.filter (·.location == .query)
        headerParams := parameters.filter (·.location == .header)
        cookieParams := parameters.filter (·.location == .cookie)
        requestBody := body
        responses } := by
  obtain ⟨-, hid, hsummary, hdescription, -, -, -, -, hsecurity, hdeprecated, hidentity⟩ :=
    get?_operationObject spec
  have hmember : ∀ {name : String} {v : Option Value}, (operationObject spec).get? name = v →
      (exportedOperation names spec).get? name = v.map (settle names) := by
    rintro name v rfl
    exact field_exportedOperation spec name
  have hid' : (exportedOperation names spec).field "operationId" = .str spec.operationId := by
    unfold Value.field
    rw [hmember hid]
    rfl
  have htruthy : (Value.str spec.operationId).isTruthy = true := by
    have := operationId_ne_empty spec
    simpa [Value.isTruthy, String.isEmpty_iff] using this
  have hidentity' : (exportedOperation names spec).field "x-contractspec" = identity spec := by
    unfold Value.field
    rw [hmember hidentity, Option.map_some, settle_identity]
    rfl
  have hdeprecated' : ((exportedOperation names spec).field "deprecated").isTruthy
      = decide (spec.header.stability = .deprecated) := by
    unfold Value.field
    rw [hmember hdeprecated]
    by_cases hdep : spec.header.stability = .deprecated
    · rw [if_pos hdep, decide_eq_true hdep]
      rfl
    · rw [if_neg hdep, decide_eq_false hdep]
      rfl
  have hsettleText : ∀ text : Option String,
      (text.map Value.str).map (settle names) = text.map .str := by
    intro text
    cases text <;> rfl
  have htags : (spec.header.tags.map Value.str).map Value.text = spec.header.tags := by
    rw [List.map_map]
    exact List.map_id _
  unfold readOperation slotOf
  dsimp only
  rw [entriesOf_tags, hid', hidentity', hdeprecated']
  dsimp only [bind, Except.bind]
  rw [if_pos htruthy, Check.perhaps_text ((hmember hsummary).trans (hsettleText _)),
    Check.perhaps_text ((hmember hdescription).trans (hsettleText _)),
    withDefault_security ((hmember hsecurity).trans (by rw [Option.map_some, settle_security])),
    htags]
  cases readRequestBody document ((exportedOperation names spec).field "requestBody") with
  | error cause => rfl
  | ok body =>
    cases readResponses document ((exportedOperation names spec).field "responses") with
    | error cause => rfl
    | ok responses => rfl

/-- The schemas of an exported operation can be read. -/
structure Reads (document : Value) (names : List String) (spec : OperationSpec) : Prop where
  parameters : ∀ p ∈ parameterParts spec, Inlines document (settle names p.schema)
  body : ∀ c ∈ bodyComponent spec, c ∈ names ∧ Inlines document (componentReference c)
  output : spec.output.isSome → outputName spec.operationId ∈ names
    ∧ Inlines document (componentReference (outputName spec.operationId))

theorem reads_of_exported (supplies : Supplies document names) {spec : OperationSpec}
    (hparameters : ∀ p ∈ parameterParts spec, Exported names (settle names p.schema))
    (hinput : spec.input.isSome → inputName spec.operationId ∈ names)
    (houtput : spec.output.isSome → outputName spec.operationId ∈ names) :
    Reads document names spec where
  parameters p hp := inlines_of_exported supplies (hparameters p hp)
  body _ hc :=
    have hname := mem_of_mem_bodyComponent hinput hc
    ⟨hname, inlines_of_exported supplies (.reference hname)⟩
  output h := ⟨houtput h, inlines_of_exported supplies (.reference (houtput h))⟩

theorem readOperation_exported {spec : OperationSpec} (h : Reads document names spec) (m : Method) :
    readOperation document (slotOf names (m, spec))
        ((parameterParts spec).map (·.read document names))
      = .ok (readBack document names m spec) := by
  obtain ⟨-, -, -, -, -, hbody, -, hresponses, -⟩ := get?_operationObject spec
  have hbody' : (exportedOperation names spec).field "requestBody"
      = ((bodyComponent spec).map bodyNode).getD .null := by
    unfold Value.field
    rw [field_exportedOperation, hbody]
    cases hc : bodyComponent spec with
    | none => rfl
    | some c => rw [Option.map_some, Option.map_some, settle_bodyNode (h.body c hc).1]
  have hresponses' : (exportedOperation names spec).field "responses" = responses spec := by
    unfold Value.field
    rw [field_exportedOperation, hresponses, Option.map_some,
      settle_responses fun hsome => (h.output hsome).1]
    rfl
  rw [readOperation_slotOf, hbody', readRequestBody_exported _ fun c hc => (h.body c hc).2,
    hresponses', readResponses_exported spec fun hsome => (h.output hsome).2]
  rfl

/-- **An exported operation is read back**, without a warning. -/
theorem readSlot_exported {spec : OperationSpec} (h : Reads document names spec) (m : Method) :
    readSlot document (slotOf names (m, spec)) = ⟨[], .ok (readBack document names m spec)⟩ := by
  have hmap : (slotOf names (m, spec)).node.isMap = true := isMap_exportedOperation names spec
  unfold readSlot
  rw [hmap, parameterNodes_exported]
  dsimp only [Bool.not_true, Bool.false_eq_true]
  rw [if_neg (by decide)]
  have hread : readParameters document (slotOf names (m, spec)).method
      (slotOf names (m, spec)).path ((parameterParts spec).map (·.node names))
      = ([], .ok ((parameterParts spec).map (·.read document names))) :=
    readParameters_ok fun p hp => readParameter_exported m spec.path p (h.parameters p hp)
  show Reading.mk _ _ = _
  rw [hread]
  exact congrArg (Reading.mk []) (readOperation_exported h m)

/-! ## What an operation says of its spec -/

/-- What is known of an operation that was read from the object of a spec, whatever became of its
schemas and its id. -/
structure Describes (m : Method) (spec : OperationSpec) (o : Operation) : Prop where
  method : o.method = m
  path : o.path = spec.path
  summary : o.summary = OperationSpec.nonEmpty spec.header.description
  description : o.description = OperationSpec.nonEmpty spec.header.goal
  tags : o.tags = spec.header.tags
  deprecated : o.deprecated = decide (spec.header.stability = .deprecated)
  identity : o.identity = some (identity spec)

theorem describes_of_readSlot {m : Method} {spec : OperationSpec} {o : Operation}
    (h : (readSlot document (slotOf names (m, spec))).result = .ok o) : Describes m spec o := by
  unfold readSlot at h
  split at h
  · cases h
  · split at h
    · cases h
    · obtain ⟨parameters, -, h⟩ := bind_eq_ok.mp h
      rw [readOperation_slotOf] at h
      obtain ⟨body, -, h⟩ := bind_eq_ok.mp h
      obtain ⟨responses, -, h⟩ := bind_eq_ok.mp h
      cases h
      exact ⟨rfl, rfl, rfl, rfl, rfl, rfl, rfl⟩

end Reading

end ApiContract.Export
