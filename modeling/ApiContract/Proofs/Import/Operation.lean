import ApiContract.Import.Result
import ApiContract.Proofs.Codegen.Declaration
import ApiContract.Proofs.Export.Reading
import ApiContract.Proofs.Schema.Endless

/-!
# Importing an exported operation

An operation that was read from an exported document is never skipped, its code can be generated and
its identity is that of the exported spec. The one thing that may be missing is a model: where its
input or its output is endless, there is no spec.

* **`objectNode_objectSchema`** — the input of an operation is an object again.
* **`succeeds_importSpec_iff`** — which operations are imported.
* **`survives_of_importSpec`** — what an imported operation keeps.
-/

namespace ApiContract.Import

open Contract OpenApi Schema
open Export (ParameterPart parameterParts readBack bodyComponent inlined inlined_component)

/-- The options of an import that leaves no operation out. -/
def everything : Options := { includeDeprecated := true }

variable {document : Value} {names : List String}

/-! ## Input and output -/

/-- The object of some properties. -/
theorem objectNode_objectSchema (fields : List InputField)
    (exported : ∀ f ∈ fields, Exported names f.schema) :
    ∃ members properties, objectSchema fields = .map members ∧ ObjectNode members properties
      ∧ ∀ m ∈ properties, Exported names m.2 := by
  refine ⟨_, _, rfl, ⟨⟨by simp, rfl⟩, rfl, rfl, rfl, rfl, ?_, ?_⟩, ?_⟩
  · intro v hv
    cases hv
    exact ⟨_, rfl⟩
  · intro v hv
    cases hv
  · intro m hm
    obtain ⟨e, he, rfl⟩ := List.mem_map.mp hm
    obtain ⟨f, hf, rfl⟩ := List.mem_map.mp (Named.mem_of_mem_ofList he)
    exact exported f hf

/-- An operation whose input and output are exported objects. -/
structure Exchanges (names : List String) (o : Operation) : Prop where
  input : ∃ fields, inputFields o = .ok fields ∧ ∀ f ∈ fields, Exported names f.schema
  output : ∀ schema, o.outputSchema = some schema → ∃ members properties,
    schema = .map members ∧ ObjectNode members properties ∧ ∀ m ∈ properties, Exported names m.2

/-- The input of such an operation is an exported object, if there is any. -/
theorem Exchanges.inputSchema {o : Operation} (h : Exchanges names o) :
    ∃ schema, inputSchema o = .ok schema ∧ ∀ s ∈ schema, ∃ members properties,
      s = .map members ∧ ObjectNode members properties ∧ ∀ m ∈ properties, Exported names m.2 := by
  obtain ⟨fields, hfields, exported⟩ := h.input
  unfold Import.inputSchema
  rw [hfields]
  refine ⟨_, rfl, fun s hs => ?_⟩
  split at hs
  · cases hs
  · cases hs
    exact objectNode_objectSchema fields exported

/-- The properties that a body gives are exported. -/
theorem bodyFields_component (supplies : Supplies document names) {component : String}
    (h : component ∈ names) :
    ∃ fields, bodyFields ⟨true, "application/json",
        some (inlined document (componentReference component))⟩ = .ok fields
      ∧ ∀ f ∈ fields, Exported names f.schema := by
  obtain ⟨members, properties, -, hinlined, node, exported⟩ := inlined_component supplies h
  obtain ⟨keys, hkeys⟩ := requiredKeys_ok node.required
  have hreference : Reference.isReference (.map members) = false :=
    Reference.isReference_eq_false node.pointer?_eq_none
  have hproperties : (Value.map members).field "properties" = .map properties := by
    rw [Value.field_map, node.properties]
    rfl
  unfold bodyFields
  rw [hinlined]
  dsimp only
  rw [hreference, if_neg (by decide), hkeys]
  dsimp only [bind, Except.bind]
  rw [hproperties]
  refine ⟨_, rfl, fun f hf => ?_⟩
  obtain ⟨m, hm, rfl⟩ := List.mem_map.mp hf
  exact exported m hm

/-- The properties of an input whose parts are exported. -/
theorem inputFields_exported {o : Operation}
    (path : ∀ p ∈ o.pathParams, Exported names (fieldOfParameter p).schema)
    (query : ∀ p ∈ o.queryParams, Exported names (fieldOfParameter p).schema)
    (header : ∀ p ∈ o.headerParams, Exported names (fieldOfParameter p).schema)
    (body : ∀ b ∈ o.requestBody, ∃ fields, bodyFields b = .ok fields
      ∧ ∀ f ∈ fields, Exported names f.schema) :
    ∃ fields, inputFields o = .ok fields ∧ ∀ f ∈ fields, Exported names f.schema := by
  have hparameters : ∀ f ∈ (o.pathParams.map fun p => { fieldOfParameter p with required := true })
      ++ o.queryParams.map fieldOfParameter
      ++ (o.headerParams.filter fun p => !isReserved p.name).map fieldOfParameter,
      Exported names f.schema := by
    intro f hf
    rcases List.mem_append.mp hf with hf | hf
    · rcases List.mem_append.mp hf with hf | hf
      · obtain ⟨p, hp, rfl⟩ := List.mem_map.mp hf
        exact path p hp
      · obtain ⟨p, hp, rfl⟩ := List.mem_map.mp hf
        exact query p hp
    · obtain ⟨p, hp, rfl⟩ := List.mem_map.mp hf
      exact header p (List.mem_filter.mp hp).1
  unfold inputFields
  cases hbody : o.requestBody with
  | none =>
    refine ⟨_, rfl, fun f hf => ?_⟩
    rcases List.mem_append.mp hf with hf | hf
    · exact hparameters f hf
    · cases hf
  | some b =>
    obtain ⟨fields, hfields, exported⟩ := body b hbody
    dsimp only
    rw [hfields]
    refine ⟨_, rfl, fun f hf => ?_⟩
    rcases List.mem_append.mp hf with hf | hf
    · exact hparameters f hf
    · exact exported f hf

/-- The answer that describes the output of an exported operation. -/
theorem outputSchema_readBack (m : Method) (spec : OperationSpec) :
    (readBack document names m spec).outputSchema
      = if spec.output.isSome then
          some (inlined document (componentReference (Export.outputName spec.operationId)))
        else none := by
  show (successResponse (Export.readBackResponses document spec)).bind (·.2.schema) = _
  unfold Export.readBackResponses
  cases spec.output.isSome with
  | false => simp [successResponse, preferredStatuses, Named.get?, List.lookup_cons]
  | true => rfl

/-- **What an exported operation exchanges** are exported objects. -/
theorem exchanges_readBack (supplies : Supplies document names) (m : Method) (spec : OperationSpec)
    (hparameters : ∀ p ∈ parameterParts spec, Exported names (Export.settle names p.schema))
    (hinput : spec.input.isSome → Export.inputName spec.operationId ∈ names)
    (houtput : spec.output.isSome → Export.outputName spec.operationId ∈ names) :
    Exchanges names (readBack document names m spec) where
  input := by
    have hread : ∀ p ∈ (parameterParts spec).map (·.read document names),
        Exported names (fieldOfParameter p).schema := by
      intro p hp
      obtain ⟨part, hpart, rfl⟩ := List.mem_map.mp hp
      exact (Export.schemaAt_exported supplies (hparameters part hpart)).2.1
    refine inputFields_exported (fun p hp => hread p (List.mem_filter.mp hp).1)
      (fun p hp => hread p (List.mem_filter.mp hp).1) (fun p hp => hread p (List.mem_filter.mp hp).1)
      fun b hb => ?_
    obtain ⟨component, hcomponent, rfl⟩ := Option.map_eq_some_iff.mp hb
    exact bodyFields_component supplies (Export.mem_of_mem_bodyComponent hinput hcomponent)
  output := by
    intro schema hschema
    have heq := (outputSchema_readBack m spec).symm.trans hschema
    split at heq
    · rename_i hsome
      cases heq
      obtain ⟨members, properties, -, hinlined, hobject⟩ := inlined_component supplies (houtput hsome)
      exact ⟨members, properties, hinlined, hobject⟩
    · cases heq

/-! ## Importing -/

/-- No schema of the operation is endless. -/
def Finite (document : Value) (o : Operation) : Prop :=
  (∀ schema, inputSchema o = .ok (some schema) → ¬ Endless document schema)
    ∧ ∀ schema, o.outputSchema = some schema → ¬ Endless document schema

/-- A model is generated for every exported object. -/
theorem succeeds_generateModel? {schema : Option Value} (name : String)
    (h : ∀ s ∈ schema, ∃ members properties,
      s = .map members ∧ ObjectNode members properties ∧ ∀ m ∈ properties, Exported names m.2) :
    Succeeds (generateModel? .declaration schema name) := by
  cases schema with
  | none => exact succeeds_ok _
  | some schema =>
    obtain ⟨members, properties, rfl, node, exported⟩ := h schema rfl
    obtain ⟨code, hcode⟩ := Codegen.Declaration.succeeds_generateModel node exported {} name
    refine succeeds_map.mpr ⟨code, ?_⟩
    show Except.mapError _ (Codegen.Declaration.generateModel {} (.map members) name .null) = _
    rw [hcode]
    rfl

/-- A canonical model is built for an exported object unless it is endless. -/
theorem succeeds_canonicalModel?_iff (supplies : Supplies document names)
    (hdocument : document.isTruthy = true) {schema : Option Value} (name : String)
    (h : ∀ s ∈ schema, ∃ members properties,
      s = .map members ∧ ObjectNode members properties ∧ ∀ m ∈ properties, Exported names m.2) :
    Succeeds (canonicalModel? schema name document) ↔ ∀ s ∈ schema, ¬ Endless document s := by
  cases schema with
  | none => exact ⟨fun _ s hs => (nomatch hs), fun _ => succeeds_ok _⟩
  | some schema =>
    obtain ⟨members, properties, rfl, node, exported⟩ := h schema rfl
    unfold canonicalModel?
    rw [succeeds_map, modelOf_succeeds_iff supplies hdocument node exported name]
    constructor
    · rintro hend s hs
      cases hs
      exact hend
    · intro hend
      exact hend _ rfl

/-- The code of such an operation is generated. -/
theorem succeeds_operationCode {o : Operation} (h : Exchanges names o)
    (hidentity : Succeeds (identityOf o none)) : Succeeds (operationCode o everything) := by
  obtain ⟨schema, hschema, hobject⟩ := h.inputSchema
  obtain ⟨identity, hidentity⟩ := hidentity
  obtain ⟨input, hinput⟩ := succeeds_generateModel? (o.id ++ "Input") hobject
  obtain ⟨output, houtput⟩ := succeeds_generateModel? (o.id ++ "Output") h.output
  unfold operationCode
  refine succeeds_bind.mpr ⟨schema, hschema, succeeds_bind.mpr ⟨input, hinput, ?_⟩⟩
  refine succeeds_bind.mpr ⟨output, houtput, succeeds_bind.mpr ⟨identity, hidentity, ?_⟩⟩
  exact succeeds_pure _

/-- Its spec is built unless a schema is endless. -/
theorem succeeds_operationSpec_iff (supplies : Supplies document names)
    (hdocument : document.isTruthy = true) {o : Operation} (h : Exchanges names o)
    (hidentity : Succeeds (identityOf o none)) :
    Succeeds (operationSpec o everything document) ↔ Finite document o := by
  obtain ⟨schema, hschema, hobject⟩ := h.inputSchema
  obtain ⟨identity, hidentity⟩ := hidentity
  have hinput := succeeds_canonicalModel?_iff supplies hdocument
    (Naming.pascalCase o.id ++ "Input") hobject
  have houtput := succeeds_canonicalModel?_iff supplies hdocument
    (Naming.pascalCase o.id ++ "Output") h.output
  unfold operationSpec
  rw [succeeds_bind]
  constructor
  · rintro ⟨schema', hschema', h⟩
    cases hschema.symm.trans hschema'
    obtain ⟨_, _, h⟩ := succeeds_bind.mp h
    obtain ⟨input, hin, h⟩ := succeeds_bind.mp h
    obtain ⟨output, hout, -⟩ := succeeds_bind.mp h
    refine ⟨fun s hs => ?_, houtput.mp ⟨output, hout⟩⟩
    exact hinput.mp ⟨input, hin⟩ s (Except.ok.inj (hschema.symm.trans hs))
  · rintro ⟨hin, hout⟩
    obtain ⟨input, hin⟩ := hinput.mpr fun s hs => hin s (hschema.trans (congrArg Except.ok hs))
    obtain ⟨output, hout⟩ := houtput.mpr hout
    refine ⟨schema, hschema, succeeds_bind.mpr ⟨identity, hidentity, ?_⟩⟩
    refine succeeds_bind.mpr ⟨input, hin, succeeds_bind.mpr ⟨output, hout, ?_⟩⟩
    exact succeeds_pure _

/-- **Which operations are imported**: exactly those whose schemas end. -/
theorem succeeds_importSpec_iff {api : Api} (supplies : Supplies api.document names)
    (hdocument : api.document.isTruthy = true) {o : Operation} (h : Exchanges names o)
    (hidentity : Succeeds (identityOf o none)) :
    Succeeds (importSpec api everything o) ↔ Finite api.document o := by
  rw [← succeeds_operationSpec_iff supplies hdocument h hidentity]
  obtain ⟨code, hcode⟩ := succeeds_operationCode h hidentity
  obtain ⟨identity, hidentity⟩ := hidentity
  unfold importSpec
  constructor
  · intro h
    obtain ⟨_, _, h⟩ := succeeds_bind.mp h
    obtain ⟨spec, hspec, -⟩ := succeeds_bind.mp h
    exact succeeds_map.mp ⟨spec, hspec⟩
  · intro h
    obtain ⟨spec, hspec⟩ := succeeds_map (f := some).mpr h
    refine succeeds_bind.mpr ⟨code, hcode, succeeds_bind.mpr ⟨spec, hspec, ?_⟩⟩
    exact succeeds_bind.mpr ⟨identity, hidentity, succeeds_pure _⟩

/-! ## What survives -/

/-- The identity of a spec with what its transport and its policy say of it, as an import has it
again. The place of a spec is written out, and of stability and policy only the extremes remain. -/
structure Survives (spec spec' : OperationSpec) : Prop where
  name : spec'.header.name = spec.header.name
  version : spec'.header.version = spec.header.version
  kind : spec'.header.kind = spec.header.kind
  rest : spec'.rest? = some ⟨some spec.verb, some spec.path⟩
  tags : spec'.header.tags = spec.header.tags
  deprecated : spec'.header.stability = .deprecated ↔ spec.header.stability = .deprecated
  anonymous : spec'.auth = .anonymous ↔ spec.auth = .anonymous

/-- The identity of an operation is the one that its spec wrote. -/
theorem identityOf_identity {o : Operation} {spec : OperationSpec}
    (h : o.identity = some (Export.identity spec))
    (hname : spec.header.name ≠ "") (hversion : spec.header.version ≠ 0) :
    identityOf o none = .ok ⟨spec.header.name, spec.header.version, spec.header.kind⟩ := by
  have hnameField : (Export.identity spec).field "name" = .str spec.header.name := rfl
  have hversionField : (Export.identity spec).field "version" = .int spec.header.version := rfl
  have hkindField : (Export.identity spec).field "kind" = .str spec.header.kind.name := rfl
  have hkind : OpKind.ofName? spec.header.kind.name = some spec.header.kind := by
    cases spec.header.kind <;> rfl
  have hnameTruthy : (Value.str spec.header.name).isTruthy = true := by
    simpa [Value.isTruthy, String.isEmpty_iff] using hname
  have hversionTruthy : (Value.int spec.header.version).isTruthy = true := by
    simpa [Value.isTruthy] using hversion
  unfold identityOf
  rw [h, Option.getD_some]
  dsimp only
  rw [hnameField, hversionField, hkindField, if_pos hnameTruthy, if_pos hversionTruthy]
  show Except.ok (Identity.mk spec.header.name spec.header.version
    ((OpKind.ofName? spec.header.kind.name).getD (kindOf o.method))) = _
  rw [hkind]
  rfl

/-- **What an imported operation keeps.** -/
theorem survives_of_operationSpec {o : Operation} {spec spec' : OperationSpec}
    (hidentity : identityOf o none
      = .ok ⟨spec.header.name, spec.header.version, spec.header.kind⟩)
    (hverb : spec.verb = o.method.verb) (hpath : o.path = spec.path)
    (htags : o.tags = spec.header.tags)
    (hdeprecated : o.deprecated = decide (spec.header.stability = .deprecated))
    (hsecurity : o.security
      = some (if spec.auth = .anonymous then [[]] else [[(Export.bearerScheme, [])]]))
    (h : operationSpec o everything document = .ok spec') : Survives spec spec' := by
  unfold operationSpec at h
  obtain ⟨schema, -, h⟩ := bind_eq_ok.mp h
  obtain ⟨identity, hid, h⟩ := bind_eq_ok.mp h
  obtain ⟨input, -, h⟩ := bind_eq_ok.mp h
  obtain ⟨output, -, h⟩ := bind_eq_ok.mp h
  cases hidentity.symm.trans hid
  cases h
  refine ⟨rfl, rfl, rfl, ?_, htags, ?_, ?_⟩
  · show some (RestTransport.mk (some o.method.verb) (some o.path)) = _
    rw [← hverb, hpath]
  · show stabilityOf o .stable = .deprecated ↔ _
    unfold stabilityOf
    rw [hdeprecated]
    by_cases hdep : spec.header.stability = .deprecated
    · simp [hdep]
    · simp [hdep]
  · show authOf o .user = .anonymous ↔ _
    unfold authOf
    rw [hsecurity]
    by_cases hanon : spec.auth = .anonymous
    · simp [hanon]
    · simp [hanon]

end ApiContract.Import
