import ApiContract.Import.Input
import ApiContract.Proofs.Named
import ApiContract.Proofs.OpenApi.Accepted
import ApiContract.Proofs.Value.Lookup
import Mathlib

/-!
# The input of an operation

What a caller passes comes from several sources: the parameters, and the parts of the body. They are
merged by name, and a name that several sources have takes the schema of the last one, keeps the
first place, and is required if any of them requires it. Only a body may give nothing though it is
there: a schema without properties that is no reference has no part that could be named.

* **`sources_of_inputFields`** — the sources of an operation, in their order.
* **`merges_sources`** — what merging makes of them.
* **`inputSchema_merges_sources`** — the headline on merging.
* **`inputSchema_eq_none_iff`** — which operations have no input.
* **`input_covers_iff`** — the headline on what is lost.
-/

namespace ApiContract.Import

open OpenApi

/-! ## Sources -/

/-- The sources that are parameters; those of the path are always required. -/
def parameterSources (o : Operation) : List InputField :=
  o.pathParams.map (fun p => ⟨p.name, p.schema.getD (record []), true⟩)
    ++ o.queryParams.map (fun p => ⟨p.name, p.schema.getD (record []), p.required⟩)
    ++ (o.headerParams.filter fun p => !isReserved p.name).map
      (fun p => ⟨p.name, p.schema.getD (record []), p.required⟩)

/-- The schema lists a key among its required names. -/
def Lists (schema : Value) (key : Scalar) : Prop :=
  ∃ names, (schema.field "required").elements? = some names
    ∧ ∃ k, .scalar k ∈ names ∧ k.sameKey key = true

/-- The properties that a schema is flattened into; an absent or empty value has none. -/
def Flattens (schema : Value) (properties : Members) : Prop :=
  schema.field "properties" = .map properties
    ∨ (schema.field "properties").isTruthy = false ∧ properties = []

/-- A source for a property: its name and node, required if the schema lists it. -/
def IsProperty (schema : Value) (property : Scalar × Value) (source : InputField) : Prop :=
  source.name = property.1.text ∧ source.schema = property.2
    ∧ (source.required = true ↔ Lists schema property.1)

/-- The sources that a body gives: none without a schema, one for a reference that is left, and
otherwise one for each property. -/
inductive BodySources : Option RequestBody → List InputField → Prop where
  | absent : BodySources none []
  | bare {body : RequestBody} (found : body.schema = none) : BodySources (some body) []
  | reference {body : RequestBody} {schema : Value} (found : body.schema = some schema)
      (refers : Reference.isReference schema = true) :
      BodySources (some body) [⟨"body", schema, body.required⟩]
  | object {body : RequestBody} {schema : Value} {properties : Members} {sources : List InputField}
      (found : body.schema = some schema) (other : Reference.isReference schema = false)
      (flattens : Flattens schema properties)
      (fields : List.Forall₂ (IsProperty schema) properties sources) :
      BodySources (some body) sources

/-- The sources of an operation: its parameters, and behind them what its body gives. -/
def SourcesOf (o : Operation) (sources : List InputField) : Prop :=
  ∃ body, sources = parameterSources o ++ body ∧ BodySources o.requestBody body

/-- Going through a value that counts as absent gives nothing. -/
theorem elements?_of_falsy {v : Value} {items : List Value} (hfalsy : v.isTruthy = false)
    (h : v.elements? = some items) : items = [] := by
  cases v with
  | scalar leaf =>
    cases leaf with
    | str s =>
      cases h
      have hempty : s = "" := by simpa [Value.isTruthy] using hfalsy
      rw [hempty]
      rfl
    | bytes b =>
      cases h
      have hempty : b = [] := by simpa [Value.isTruthy] using hfalsy
      rw [hempty]
      rfl
    | _ => cases h
  | list _ =>
    cases h
    simpa [Value.isTruthy] using hfalsy
  | map members =>
    cases h
    have hempty : members = [] := by simpa [Value.isTruthy] using hfalsy
    rw [hempty]
    rfl
  | set members =>
    cases h
    have hempty : members = [] := by simpa [Value.isTruthy] using hfalsy
    rw [hempty]
    rfl

theorem asKey_eq_ok {v : Value} {k : Scalar} : Schema.asKey v = .ok k ↔ v = .scalar k := by
  cases v with
  | scalar leaf =>
    exact ⟨fun h => congrArg _ (Except.ok.inj h), fun h => congrArg _ (Value.scalar.inj h)⟩
  | _ => exact iff_of_false nofun nofun

/-- The required keys are those among the required names. -/
theorem mem_requiredKeys {schema : Value} {keys : List Scalar}
    (h : Schema.requiredKeys schema = .ok keys) (k : Scalar) :
    k ∈ keys ↔ ∃ names, (schema.field "required").elements? = some names ∧ .scalar k ∈ names := by
  unfold Schema.requiredKeys at h
  dsimp only at h
  split at h
  · obtain ⟨items, hitems, hkeys⟩ := bind_eq_ok.mp h
    have hfound : (schema.field "required").elements? = some items := by
      unfold Schema.elements at hitems
      split at hitems
      · next found =>
        cases hitems
        exact found
      · cases hitems
    rw [hfound]
    constructor
    · intro hk
      obtain ⟨v, hv, hkey⟩ := mem_of_mapM_eq_ok hkeys hk
      exact ⟨items, rfl, asKey_eq_ok.mp hkey ▸ hv⟩
    · rintro ⟨names, hnames, hk⟩
      cases hnames
      have hok : Except.ok k ∈ items.map Schema.asKey :=
        List.mem_map.mpr ⟨_, hk, asKey_eq_ok.mpr rfl⟩
      rw [mapM_eq_ok.mp hkeys] at hok
      obtain ⟨k', hk', heq⟩ := List.mem_map.mp hok
      cases heq
      exact hk'
  · next hfalsy =>
    cases h
    refine iff_of_false List.not_mem_nil ?_
    rintro ⟨names, hnames, hk⟩
    rw [elements?_of_falsy (Bool.eq_false_iff.mpr hfalsy) hnames] at hk
    exact List.not_mem_nil hk

theorem isRequired_iff {schema : Value} {keys : List Scalar}
    (h : Schema.requiredKeys schema = .ok keys) (key : Scalar) :
    Schema.isRequired keys key = true ↔ Lists schema key := by
  unfold Schema.isRequired Lists
  rw [List.any_eq_true]
  constructor
  · rintro ⟨k, hk, hsame⟩
    obtain ⟨names, hnames, hmem⟩ := (mem_requiredKeys h k).mp hk
    exact ⟨names, hnames, k, hmem, hsame⟩
  · rintro ⟨names, hnames, k, hmem, hsame⟩
    exact ⟨k, (mem_requiredKeys h k).mpr ⟨names, hnames, hmem⟩, hsame⟩

theorem flattens_of_membersOf {schema : Value} {properties : Members}
    (h : membersOf (schema.field "properties") = .ok properties) : Flattens schema properties := by
  unfold membersOf at h
  split at h
  · next members heq =>
    cases h
    exact .inl heq
  · split at h
    · cases h
    · next hfalsy =>
      cases h
      exact .inr ⟨Bool.eq_false_iff.mpr hfalsy, rfl⟩

theorem bodySources_of_bodyFields {body : RequestBody} {sources : List InputField}
    (h : bodyFields body = .ok sources) : BodySources (some body) sources := by
  unfold bodyFields at h
  split at h
  · next schema found =>
    split at h
    · next refers =>
      cases h
      exact .reference found refers
    · next other =>
      obtain ⟨keys, hkeys, h⟩ := bind_eq_ok.mp h
      obtain ⟨properties, hproperties, h⟩ := bind_eq_ok.mp h
      cases h
      refine .object found (Bool.eq_false_iff.mpr other) (flattens_of_membersOf hproperties) ?_
      refine List.forall₂_map_right_iff.mpr (List.forall₂_same.mpr fun property _ => ?_)
      exact ⟨rfl, rfl, isRequired_iff hkeys property.1⟩
  · next found =>
    cases h
    exact .bare (Option.eq_none_iff_forall_ne_some.mpr fun schema => found schema)

/-- The parameters come first, whatever the body gives. -/
theorem inputFields_eq (o : Operation) :
    inputFields o = (parameterSources o ++ ·) <$> (o.requestBody.elim (.ok []) bodyFields) := by
  unfold inputFields
  cases o.requestBody with
  | none => rfl
  | some body => exact (map_eq_pure_bind _ _).symm

/-- **The properties of an input come from its sources**, in their order. -/
theorem sources_of_inputFields {o : Operation} {sources : List InputField}
    (h : inputFields o = .ok sources) : SourcesOf o sources := by
  rw [inputFields_eq] at h
  obtain ⟨body, hbody, rfl⟩ := map_eq_ok.mp h
  refine ⟨body, rfl, ?_⟩
  cases hrequest : o.requestBody with
  | none =>
    rw [hrequest] at hbody
    cases hbody
    exact .absent
  | some request =>
    rw [hrequest] at hbody
    exact bodySources_of_bodyFields hbody

/-! ## Merging -/

/-- What merging makes of sources: the entries by name, and the required names. -/
structure Merges (sources : List InputField) (properties : Named Value) (required : List String) :
    Prop where
  names : FirstOccurrences (sources.map (·.name)) properties.names
  last : ∀ before source after, sources = before ++ source :: after →
    (∀ s ∈ after, s.name ≠ source.name) → properties.get? source.name = some source.schema
  nodup : required.Nodup
  required_iff : ∀ name, name ∈ required ↔ ∃ s ∈ sources, s.name = name ∧ s.required = true
  subset : ∀ name ∈ required, name ∈ properties.names

/-- The object schema with these entries. -/
def mergedObject (properties : Named Value) (required : List String) : Value :=
  record [("type", .str "object"), ("properties", record properties), ("required", texts required)]

/-- **What an object of some sources holds.** -/
theorem merges_sources (sources : List InputField) :
    ∃ properties required, objectSchema sources = mergedObject properties required
      ∧ Merges sources properties required := by
  have hmem : ∀ name, name ∈ Distinct.ofList ((sources.filter (·.required)).map (·.name))
      ↔ ∃ s ∈ sources, s.name = name ∧ s.required = true := by
    intro name
    rw [Distinct.mem_ofList, List.mem_map]
    simp only [List.mem_filter]
    exact exists_congr fun s => and_assoc.trans (and_congr_right fun _ => and_comm)
  have hnames : FirstOccurrences (sources.map (·.name))
      (Named.ofList (sources.map fun f => (f.name, f.schema))).names := by
    rw [Named.names_ofList, List.map_map]
    exact Distinct.firstOccurrences_ofList _
  refine ⟨_, _, rfl, hnames, ?_, Distinct.nodup_ofList _, hmem, fun name hname => ?_⟩
  · rintro before source after rfl hafter
    rw [List.map_append, List.map_cons]
    refine Named.get?_ofList_last fun e he => ?_
    obtain ⟨s, hs, rfl⟩ := List.mem_map.mp he
    exact hafter s hs
  · obtain ⟨s, hs, rfl, -⟩ := (hmem name).mp hname
    exact (hnames.mem _).mpr (List.mem_map_of_mem hs)

/-- The names of the parameters of the path are required. -/
theorem Merges.path_required {o : Operation} {sources : List InputField}
    {properties : Named Value} {required : List String} (h : Merges sources properties required)
    (hsources : SourcesOf o sources) {p : Parameter} (hp : p ∈ o.pathParams) :
    p.name ∈ required := by
  obtain ⟨body, rfl, -⟩ := hsources
  refine (h.required_iff p.name).mpr ⟨⟨p.name, p.schema.getD (record []), true⟩, ?_, rfl, rfl⟩
  refine List.mem_append_left _ (List.mem_append_left _ (List.mem_append_left _ ?_))
  exact List.mem_map_of_mem hp

/-- **The input of an operation is merged from its sources.** -/
theorem inputSchema_merges_sources {o : Operation} {schema : Value}
    (h : inputSchema o = .ok (some schema)) :
    ∃ sources properties required, SourcesOf o sources
      ∧ schema = mergedObject properties required
      ∧ Merges sources properties required
      ∧ ∀ p ∈ o.pathParams, p.name ∈ required := by
  obtain ⟨sources, hfields, h⟩ := bind_eq_ok.mp h
  have hsources := sources_of_inputFields hfields
  obtain ⟨properties, required, hobject, hmerges⟩ := merges_sources sources
  split at h
  · cases h
  · cases h
    exact ⟨sources, properties, required, hsources, hobject, hmerges,
      fun p hp => hmerges.path_required hsources hp⟩

/-! ## An operation with names in common -/

/-- The schema of one type. -/
def typed (name : String) : Value := record [("type", .str name)]

/-- A body with two properties, of which one is required. -/
def petBody : Value := record [
  ("properties", record [("name", typed "string"), ("id", typed "integer")]),
  ("required", texts ["name"])]

/-- An operation whose parameters have the names of the properties of its body. -/
def renamePet : Operation where
  id := "renamePet"
  method := .put
  path := "/pets/\x7bid\x7d"
  summary := none
  description := none
  tags := []
  pathParams := [⟨"id", .path, true, none, some (typed "string"), false⟩]
  queryParams := [⟨"notify", .query, false, none, none, false⟩,
    ⟨"name", .query, false, none, none, false⟩]
  headerParams := [⟨"Accept", .header, true, none, none, false⟩]
  cookieParams := []
  requestBody := some ⟨true, "application/json", some petBody⟩
  responses := []
  deprecated := false
  security := none
  identity := none

/-- Its input. -/
def renamePetInput : Value := mergedObject
  [("id", typed "integer"), ("notify", record []), ("name", typed "string")] ["id", "name"]

/-- The body gives the schemas of `id` and `name`, which keep their places; `id` stays required. -/
theorem inputSchema_of_renamePet :
    inputSchema renamePet = .ok (some renamePetInput)
      ∧ ∃ sources properties required, SourcesOf renamePet sources
        ∧ renamePetInput = mergedObject properties required
        ∧ Merges sources properties required
        ∧ ∀ p ∈ renamePet.pathParams, p.name ∈ required := by
  have hinput : inputSchema renamePet = .ok (some renamePetInput) := rfl
  exact ⟨hinput, inputSchema_merges_sources hinput⟩

/-! ## What is lost -/

/-- The operation takes an input. -/
def TakesInput (o : Operation) : Prop :=
  o.pathParams ≠ [] ∨ o.queryParams ≠ [] ∨ (∃ p ∈ o.headerParams, isReserved p.name = false)
    ∨ ∃ body schema, o.requestBody = some body ∧ body.schema = some schema

/-- No part of the schema can be named: it is no reference and has no properties. -/
def Propertyless (schema : Value) : Prop :=
  Reference.isReference schema = false ∧ (schema.field "properties").isTruthy = false

/-- The body is all that the operation takes, and none of it can be named. -/
def Vanishes (o : Operation) : Prop :=
  o.pathParams = [] ∧ o.queryParams = [] ∧ (∀ p ∈ o.headerParams, isReserved p.name = true)
    ∧ ∃ body schema, o.requestBody = some body ∧ body.schema = some schema ∧ Propertyless schema
      ∧ Succeeds (Schema.requiredKeys schema)

theorem parameterSources_eq_nil {o : Operation} :
    parameterSources o = [] ↔ o.pathParams = [] ∧ o.queryParams = []
      ∧ ∀ p ∈ o.headerParams, isReserved p.name = true := by
  unfold parameterSources
  simp

theorem membersOf_eq_nil {v : Value} : membersOf v = .ok [] ↔ v.isTruthy = false := by
  unfold membersOf
  split
  · next members => simp [Value.isTruthy]
  · split
    · next htruthy => simp [htruthy]
    · next hfalsy => simpa using hfalsy

/-- **When a body gives nothing** that could be a property. -/
theorem bodyFields_eq_nil {body : RequestBody} : bodyFields body = .ok [] ↔
    ∀ schema, body.schema = some schema →
      Propertyless schema ∧ Succeeds (Schema.requiredKeys schema) := by
  unfold bodyFields
  cases body.schema with
  | none => simp [pure_eq_ok]
  | some schema =>
    simp only [Option.some.injEq, forall_eq']
    unfold Propertyless
    cases Reference.isReference schema with
    | true => simp [pure_eq_ok]
    | false =>
      rw [if_neg Bool.false_ne_true, bind_eq_ok, ← membersOf_eq_nil]
      constructor
      · rintro ⟨keys, hkeys, h⟩
        obtain ⟨properties, hproperties, h⟩ := bind_eq_ok.mp h
        obtain rfl := List.map_eq_nil_iff.mp (pure_eq_ok.mp h)
        exact ⟨⟨rfl, hproperties⟩, keys, hkeys⟩
      · rintro ⟨⟨-, hproperties⟩, keys, hkeys⟩
        exact ⟨keys, hkeys, bind_eq_ok.mpr ⟨[], hproperties, rfl⟩⟩

/-- **Which operations have no input**: they have no parameter that counts, and their body gives
nothing. -/
theorem inputSchema_eq_none_iff {o : Operation} : inputSchema o = .ok none ↔
    parameterSources o = [] ∧ ∀ body, o.requestBody = some body → bodyFields body = .ok [] := by
  have hempty : inputSchema o = .ok none ↔ inputFields o = .ok [] := by
    unfold inputSchema
    rw [bind_eq_ok]
    constructor
    · rintro ⟨fields, hfields, h⟩
      cases fields with
      | nil => exact hfields
      | cons => cases h
    · exact fun h => ⟨[], h, rfl⟩
  rw [hempty, inputFields_eq, map_eq_ok]
  simp only [List.append_eq_nil_iff]
  cases o.requestBody with
  | none => simp
  | some body =>
    simp only [Option.elim_some, Option.some.injEq, forall_eq']
    constructor
    · rintro ⟨_, hbody, hparameters, rfl⟩
      exact ⟨hparameters, hbody⟩
    · exact fun ⟨hparameters, hbody⟩ => ⟨[], hbody, hparameters, rfl⟩

/-- A part of a body that a property of the input may stand for: the whole, if that is a reference,
and otherwise a property of its own. -/
inductive BodyPart (schema : Value) : String → Value → Prop where
  | whole (refers : Reference.isReference schema = true) : BodyPart schema "body" schema
  | property {members : Members} {p : Scalar × Value} (other : Reference.isReference schema = false)
      (found : schema.field "properties" = .map members) (mem : p ∈ members) :
      BodyPart schema p.1.text p.2

/-- Some property of the input stands for a part of the body. -/
def StandsFor (schema input : Value) : Prop :=
  ∃ name node, (input.field "properties").get? name = some node ∧ BodyPart schema name node

/-- The sources that a body gives are parts of it. -/
theorem BodySources.part {body : RequestBody} {schema : Value} {sources : List InputField}
    (h : BodySources (some body) sources) (found : body.schema = some schema) {s : InputField}
    (hs : s ∈ sources) : BodyPart schema s.name s.schema := by
  cases h with
  | bare absent => cases absent.symm.trans found
  | reference found' refers =>
    cases found'.symm.trans found
    cases List.mem_singleton.mp hs
    exact .whole refers
  | object found' other flattens fields =>
    cases found'.symm.trans found
    obtain ⟨p, hp, hname, hschema, -⟩ := exists_of_forall₂ fields hs
    rw [hname, hschema]
    rcases flattens with hmap | ⟨-, rfl⟩
    · exact .property other hmap hp
    · cases hp

/-- A body with a part gives a source. -/
theorem BodySources.ne_nil {body : RequestBody} {schema : Value} {sources : List InputField}
    (h : BodySources (some body) sources) (found : body.schema = some schema)
    (hparts : ¬Propertyless schema) : sources ≠ [] := by
  cases h with
  | bare absent => cases absent.symm.trans found
  | reference => exact List.cons_ne_nil _ _
  | object found' other flattens fields =>
    cases found'.symm.trans found
    rintro rfl
    obtain rfl := List.forall₂_nil_right_iff.mp fields
    refine hparts ⟨other, ?_⟩
    rcases flattens with hmap | ⟨hfalsy, -⟩
    · rw [hmap]
      rfl
    · exact hfalsy

/-- **An operation's input stands for its body**, if anything of that can be named. -/
theorem standsFor_of_inputSchema {o : Operation} {body : RequestBody} {schema : Value}
    (hbody : o.requestBody = some body) (found : body.schema = some schema)
    (hparts : ¬Propertyless schema) {input : Option Value} (h : inputSchema o = .ok input) :
    ∃ s, input = some s ∧ StandsFor schema s := by
  cases input with
  | none =>
    obtain ⟨-, hnothing⟩ := inputSchema_eq_none_iff.mp h
    exact absurd (bodyFields_eq_nil.mp (hnothing body hbody) schema found).1 hparts
  | some s =>
    obtain ⟨sources, properties, required, ⟨given, rfl, hgiven⟩, rfl, hmerges, -⟩ :=
      inputSchema_merges_sources h
    rw [hbody] at hgiven
    -- the last source of all is one of the body, and no later one can take its place
    obtain ⟨before, last, rfl⟩ :=
      (List.eq_nil_or_concat given).resolve_left (hgiven.ne_nil found hparts)
    have hlast := hmerges.last (parameterSources o ++ before) last []
      (by rw [List.concat_eq_append, List.append_assoc]) (fun s hs => absurd hs List.not_mem_nil)
    have hpart := hgiven.part found (s := last) (by simp)
    refine ⟨_, rfl, last.name, last.schema, ?_, hpart⟩
    exact (Members.get?_members properties last.name).trans hlast

/-- An operation that takes an input, and has none, takes a body alone. -/
theorem vanishes_iff {o : Operation} : Vanishes o ↔ inputSchema o = .ok none ∧ TakesInput o := by
  unfold Vanishes TakesInput
  rw [inputSchema_eq_none_iff, parameterSources_eq_nil]
  constructor
  · rintro ⟨hpath, hquery, hheader, body, schema, hbody, found, hparts⟩
    refine ⟨⟨⟨hpath, hquery, hheader⟩, fun body' hbody' => ?_⟩,
      .inr (.inr (.inr ⟨_, _, hbody, found⟩))⟩
    cases hbody.symm.trans hbody'
    refine bodyFields_eq_nil.mpr fun schema' found' => ?_
    cases found.symm.trans found'
    exact hparts
  · rintro ⟨⟨⟨hpath, hquery, hheader⟩, hnothing⟩, htakes⟩
    refine ⟨hpath, hquery, hheader, ?_⟩
    rcases htakes with h | h | ⟨p, hp, hcounts⟩ | ⟨body, schema, hbody, found⟩
    · exact absurd hpath h
    · exact absurd hquery h
    · exact absurd (hheader p hp) (by rw [hcounts]; decide)
    · exact ⟨body, schema, hbody, found, bodyFields_eq_nil.mp (hnothing body hbody) schema found⟩

/-- A body without a part leaves no trace in the input. -/
theorem inputSchema_without_body {o : Operation} {body : RequestBody}
    (hbody : o.requestBody = some body) (hnothing : bodyFields body = .ok []) :
    inputSchema o = inputSchema { o with requestBody := none } := by
  unfold inputSchema
  rw [inputFields_eq, inputFields_eq, hbody]
  dsimp only [Option.elim]
  rw [hnothing]
  rfl

/-- **An operation loses its input exactly if all of it is a body without properties.** A property of
the input stands for any other body, whatever its shape; a body without properties is treated as if
it were absent. -/
theorem input_covers_iff (o : Operation) :
    ((inputSchema o = .ok none → ¬TakesInput o) ↔ ¬Vanishes o)
      ∧ ∀ body schema, o.requestBody = some body → body.schema = some schema →
        (Propertyless schema → Succeeds (Schema.requiredKeys schema) →
          inputSchema o = inputSchema { o with requestBody := none })
        ∧ (¬Propertyless schema → ∀ input, inputSchema o = .ok input →
          ∃ s, input = some s ∧ StandsFor schema s) := by
  refine ⟨?_, fun body schema hbody found => ⟨fun hless hkeys => ?_, fun hparts input h => ?_⟩⟩
  · rw [vanishes_iff, not_and]
  · refine inputSchema_without_body hbody (bodyFields_eq_nil.mpr fun schema' found' => ?_)
    cases found.symm.trans found'
    exact ⟨hless, hkeys⟩
  · exact standsFor_of_inputSchema hbody found hparts h

/-! ## A body that is a list -/

/-- The body of `renamePet` has parts, and the input stands for them. -/
theorem input_of_renamePet_covers :
    ¬Vanishes renamePet ∧ ¬Propertyless petBody ∧ StandsFor petBody renamePetInput := by
  obtain ⟨hcovers, hbody⟩ := input_covers_iff renamePet
  have hparts : ¬Propertyless petBody := fun h => absurd h.2 (by decide)
  have hinput : inputSchema renamePet = .ok (some renamePetInput) := rfl
  obtain ⟨s, hs, hstands⟩ := (hbody _ petBody rfl rfl).2 hparts _ hinput
  cases hs
  exact ⟨hcovers.mp fun hnone => (by cases hinput.symm.trans hnone), hparts, hstands⟩

/-- A list of texts. -/
def labels : Value := record [("type", .str "array"), ("items", typed "string")]

/-- A document with one operation, which takes a list. -/
def labelsDocument : Value := record [("openapi", .str "3.0.0"), ("paths", record [("/labels",
  record [("put", record [("operationId", .str "setLabels"),
    ("requestBody", record [("required", .bool true),
      ("content", record [("application/json", record [("schema", labels)])])]),
    ("responses", record [])])])])]

/-- That operation, as it is read. -/
def setLabels : Operation where
  id := "setLabels"
  method := .put
  path := "/labels"
  summary := none
  description := none
  tags := []
  pathParams := []
  queryParams := []
  headerParams := []
  cookieParams := []
  requestBody := some ⟨true, "application/json", some labels⟩
  responses := []
  deprecated := false
  security := none
  identity := none

/-- **An operation that takes a list has no input.** -/
theorem labels_vanish :
    (∃ api, Api.ofDocument labelsDocument = .ok api ∧ api.operations = [setLabels])
      ∧ inputSchema setLabels = .ok none ∧ TakesInput setLabels := by
  have hversion : detectVersion labelsDocument = .ok "3.0" := by cbv
  have hoperations : [setLabels] = (harvestPaths labelsDocument).operations := by cbv
  refine ⟨⟨⟨labelsDocument, "3.0", _, [], [setLabels], [], _⟩, Api.ofDocument_eq_ok.mpr
    ⟨rfl, hversion, rfl, rfl, hoperations, rfl, rfl, [], rfl, rfl⟩, rfl⟩, rfl, ?_⟩
  exact .inr (.inr (.inr ⟨_, labels, rfl, rfl⟩))

end ApiContract.Import
