import ApiContract.Proofs.Schema.Ending

/-!
# References that are kept

A reference that leads nowhere stays a field that only names its component, and so does one back to a
component that is being expanded. What is being expanded is remembered by name, the last segment of the
pointer that led there; so a reference to some other schema of that name is taken for one back. Every
other reference to an object becomes a nested model.

* **`Gives.isKept_iff`** — which references are kept.
* **`Gives.nested`** — what the others to objects become.
* **`exists_gives_of_met`** — where there is a model, every visit that is met has a field.
* **`noFalseCycles_iff`** — only references back are kept exactly if names tell schemas apart.
-/

namespace ApiContract.Schema

open Contract (FieldSpec SchemaModel)

/-- The field only names the component of the pointer. -/
def IsKept (pointer : String) (f : FieldSpec) : Prop :=
  f.ref = some (Naming.pascalCase (Reference.name pointer)) ∧ f.isArray = false

/-- The pointer leads to a schema that is being expanded on the path. -/
def LeadsBack (document : Value) (path : Path) (pointer : String) : Prop :=
  ∃ target, Targets document pointer target ∧ target ∈ path.expansions.map Expansion.schema

/-- References are kept only where they lead nowhere, or back to a schema that is being expanded; every
other one to an object has a nested model. -/
structure NoFalseCycles (document schema : Value) : Prop where
  kept : ∀ visit pointer f, Met document schema visit → Reference.pointer? visit.node = some pointer →
    Gives document visit f → IsKept pointer f →
      Dangles document visit.node ∨ LeadsBack document visit.path pointer
  nested : ∀ visit pointer f target properties, Met document schema visit →
    Reference.pointer? visit.node = some pointer → Gives document visit f →
      Targets document pointer target → IsObject target properties →
        ¬LeadsBack document visit.path pointer → f.model.isSome = true

/-- Wherever a name that is remembered comes up again, it is that of a schema being expanded. -/
def NamesTell (document schema : Value) : Prop :=
  ∀ visit pointer target, Met document schema visit → Reference.pointer? visit.node = some pointer →
    Targets document pointer target → Reference.name pointer ∈ visit.path.expanding →
      LeadsBack document visit.path pointer

variable {document schema target : Value} {pointer name : String} {visit : Visit} {properties : Members}
  {f : FieldSpec} {m : SchemaModel}

/-- **Which references are kept**: those that lead nowhere, and those whose name is remembered. -/
theorem Gives.isKept_iff (h : Gives document visit f)
    (found : Reference.pointer? visit.node = some pointer) :
    IsKept pointer f ↔ Dangles document visit.node
      ∨ ∃ target, Targets document pointer target ∧ Reference.name pointer ∈ visit.path.expanding := by
  obtain ⟨fuel, h⟩ := h
  constructor
  · rintro ⟨href, hsingle⟩
    by_cases hstands : ∃ e, Stands document visit e
    · obtain ⟨e, stands⟩ := hstands
      by_cases array : (typeOf e.schema).1 = some "array"
      · obtain ⟨item, isOptional, rfl, -⟩ := h.list stands array
        cases hsingle
      · by_cases hobject : ∃ properties, IsObject e.schema properties
        · obtain ⟨properties, object⟩ := hobject
          obtain ⟨inner, -, hnone, -⟩ := h.model stands object
          cases href.symm.trans hnone
        · obtain ⟨-, hnone⟩ := h.leaf stands array (not_exists.mp hobject)
          cases href.symm.trans hnone
    · exact (h.kept found (not_exists.mp hstands)).1
  · intro hwhy
    have stays : ∀ e, ¬Stands document visit e := by
      rintro e (plain | ⟨found', targets, fresh⟩)
      · cases found.symm.trans plain
      · cases found.symm.trans found'
        rcases hwhy with ⟨other, resolved, reference⟩ | ⟨-, -, hexpanding⟩
        · cases (targets.resolve found).symm.trans resolved
          rw [Reference.isReference_eq_false targets.plain] at reference
          cases reference
        · exact fresh hexpanding
    obtain ⟨-, isOptional, rfl⟩ := h.kept found stays
    exact ⟨rfl, rfl⟩

/-- **A reference to an object whose name is not remembered** becomes a nested model, made of the
object inside what is being expanded. -/
theorem Gives.nested (h : Gives document visit f) (found : Reference.pointer? visit.node = some pointer)
    (targets : Targets document pointer target) (object : IsObject target properties)
    (fresh : Reference.name pointer ∉ visit.path.expanding) :
    ∃ inner, f.model = some inner ∧ NamedFor ⟨target, some (Reference.name pointer)⟩ inner
      ∧ Makes document (visit.path.enter ⟨target, some (Reference.name pointer)⟩) inner := by
  obtain ⟨fuel, h⟩ := h
  obtain ⟨inner, hinner, -, -, named, fuel', -, makes⟩ := h.model (.component found targets fresh) object
  exact ⟨inner, hinner, named, fuel', makes⟩

/-- **Where there is a model, every visit that is met has a field.** -/
theorem exists_gives_of_met (h : modelOf schema name document = .ok m)
    (met : Met document schema visit) : ∃ f, Gives document visit f := by
  obtain ⟨start, begins, hreach⟩ := met
  induction hreach with
  | refl => exact exists_gives_of_begins h begins
  | tail _ asks ih =>
    obtain ⟨f, fuel, hf⟩ := ih
    obtain ⟨fuel', -, f', hf'⟩ := hf.next asks
    exact ⟨f', fuel', hf'⟩

/-- **Only references back are kept exactly if names tell schemas apart.** -/
theorem noFalseCycles_iff (h : modelOf schema name document = .ok m) :
    NoFalseCycles document schema ↔ NamesTell document schema := by
  constructor
  · intro hno visit pointer target met found targets hexpanding
    obtain ⟨f, hf⟩ := exists_gives_of_met h met
    have kept := (hf.isKept_iff found).mpr (.inr ⟨target, targets, hexpanding⟩)
    rcases hno.kept visit pointer f met found hf kept with ⟨other, resolved, reference⟩ | back
    · cases (targets.resolve found).symm.trans resolved
      rw [Reference.isReference_eq_false targets.plain] at reference
      cases reference
    · exact back
  · intro htell
    refine ⟨fun visit pointer f met found hf kept => ?_,
      fun visit pointer f target properties met found hf targets object away => ?_⟩
    · exact ((hf.isKept_iff found).mp kept).imp_right fun ⟨target, targets, hexpanding⟩ =>
        htell visit pointer target met found targets hexpanding
    · have fresh : Reference.name pointer ∉ visit.path.expanding := fun hexpanding =>
        away (htell visit pointer target met found targets hexpanding)
      obtain ⟨inner, hinner, -⟩ := hf.nested found targets object fresh
      rw [hinner]
      rfl

/-- **References on the way to a model.** Every reference that is met has a field: it is kept exactly if
it leads nowhere or its name is remembered, and to an object it has a nested model otherwise; nothing
else in the model names a component. So only references back are kept exactly if every name that comes
up again is that of a schema being expanded. -/
theorem references_of_modelOf (h : modelOf schema name document = .ok m) :
    (∀ visit pointer, Met document schema visit → Reference.pointer? visit.node = some pointer →
        (∃ f, Gives document visit f) ∧ ∀ f, Gives document visit f →
          (IsKept pointer f ↔ Dangles document visit.node
            ∨ ∃ target, Targets document pointer target
              ∧ Reference.name pointer ∈ visit.path.expanding)
          ∧ ∀ target properties, Targets document pointer target → IsObject target properties →
            Reference.name pointer ∉ visit.path.expanding →
              ∃ inner, f.model = some inner ∧ NamedFor ⟨target, some (Reference.name pointer)⟩ inner
                ∧ Makes document (visit.path.enter ⟨target, some (Reference.name pointer)⟩) inner)
      ∧ (∀ outer above, ChainOf m (outer :: above) → ∀ field ∈ outer.fields, ∀ left,
          field.2.ref = some left → ∃ visit pointer, Met document schema visit
            ∧ Reference.pointer? visit.node = some pointer
            ∧ left = Naming.pascalCase (Reference.name pointer)
            ∧ (Dangles document visit.node ∨ ∃ target, Targets document pointer target
                ∧ Reference.name pointer ∈ visit.path.expanding))
      ∧ (NoFalseCycles document schema ↔ NamesTell document schema) := by
  refine ⟨fun visit pointer met found => ⟨exists_gives_of_met h met, fun f hf =>
    ⟨hf.isKept_iff found, fun target properties targets object fresh =>
      hf.nested found targets object fresh⟩⟩,
    fun outer above chain field member left href => exists_visit_of_ref h chain member href,
    noFalseCycles_iff h⟩

/-- The one visit of a component that refers to itself is at its reference. -/
theorem eq_of_met_selfReference
    (met : Met selfReference (Contract.componentReference "Node") visit) :
    visit = ⟨{ root := ⟨having "next" (Contract.componentReference "Node"), some "Node"⟩ },
      Contract.componentReference "Node"⟩ := by
  have found : Reference.pointer? (Contract.componentReference "Node")
      = some (Contract.componentPath ++ "Node") := Reference.pointer?_component "Node"
  have root : Root selfReference (Contract.componentReference "Node")
      ⟨having "next" (Contract.componentReference "Node"), some "Node"⟩ :=
    .component found ⟨found, rfl, rfl⟩
  obtain ⟨start, begins, hreach⟩ := met
  induction hreach with
  | refl =>
    cases begins with
    | property root' properties member =>
      cases root.unique root'
      cases properties
      cases List.mem_singleton.mp member
      rfl
    | whole root' absent _ =>
      cases root.unique root'
      cases absent
  | tail _ asks ih =>
    subst ih
    -- the name is remembered from the root, so nothing stands for the reference
    have stays (e : Expansion) : ¬Stands selfReference
        ⟨{ root := ⟨having "next" (Contract.componentReference "Node"), some "Node"⟩ },
          Contract.componentReference "Node"⟩ e := by
      rintro (plain | ⟨found', -, fresh⟩)
      · cases plain
      · cases found.symm.trans found'
        exact fresh (by decide)
    cases asks with
    | item stands _ _ => exact absurd stands (stays _)
    | property stands _ _ => exact absurd stands (stays _)

theorem references_of_selfReference :
    modelOf (Contract.componentReference "Node") "Node" selfReference
        = .ok ⟨"Node", none, [("next", { ref := some "Node", isOptional := true })]⟩
      ∧ NoFalseCycles selfReference (Contract.componentReference "Node") := by
  have hmodel : modelOf (Contract.componentReference "Node") "Node" selfReference
      = .ok ⟨"Node", none, [("next", { ref := some "Node", isOptional := true })]⟩ := rfl
  obtain ⟨-, -, hiff⟩ := references_of_modelOf hmodel
  refine ⟨hmodel, hiff.mpr ?_⟩
  refine fun visit pointer target met found targets _ => ⟨target, targets, ?_⟩
  cases eq_of_met_selfReference met
  cases targets.unique ⟨found, rfl, rfl⟩
  exact List.mem_cons_self

/-- Two schemas of one name, one of which refers to the other. -/
def namesakes : Value :=
  record [
    ("components", record [("schemas", record [
      ("Pet", having "legacy" (record [("$ref", .str "#/definitions/Pet")]))])]),
    ("definitions", record [("Pet", having "name" (record [("type", .str "string")]))])]

/-- **A namesake is taken for a reference back**: the reference inside the component leads to another
schema, which is not being expanded, and yet it is kept. -/
theorem kept_of_namesake :
    let inner : SchemaModel := ⟨"Pet", none, [("legacy", { ref := some "Pet", isOptional := true })]⟩
    modelOf (having "pet" (Contract.componentReference "Pet")) "Owner" namesakes
        = .ok ⟨"Owner", none, [("pet", { model := some inner, isOptional := true })]⟩
      ∧ ¬NoFalseCycles namesakes (having "pet" (Contract.componentReference "Pet")) := by
  intro inner
  have hmodel : modelOf (having "pet" (Contract.componentReference "Pet")) "Owner" namesakes
      = .ok ⟨"Owner", none, [("pet", { model := some inner, isOptional := true })]⟩ := rfl
  refine ⟨hmodel, fun hno => ?_⟩
  let legacy : Value := record [("$ref", .str "#/definitions/Pet")]
  let path : Path := { root := ⟨having "pet" (Contract.componentReference "Pet"), none⟩ }
  have member (key : String) (v : Value) : (Scalar.str key, v) ∈ [(Scalar.str key, v)] :=
    List.mem_cons_self
  have stands : Stands namesakes ⟨path, Contract.componentReference "Pet"⟩
      ⟨having "legacy" legacy, some "Pet"⟩ :=
    .component (Reference.pointer?_component "Pet") ⟨Reference.pointer?_component "Pet", rfl, rfl⟩ (by decide)
  have met : Met namesakes (having "pet" (Contract.componentReference "Pet"))
      ⟨path.enter ⟨having "legacy" legacy, some "Pet"⟩, legacy⟩ :=
    ⟨⟨path, Contract.componentReference "Pet"⟩, .property (.self rfl) rfl (member "pet" _),
      .single (.property stands (isObject_having "legacy" _) (member "legacy" _))⟩
  have found : Reference.pointer? legacy = some "#/definitions/Pet" := rfl
  have targets : Targets namesakes "#/definitions/Pet"
      (having "name" (record [("type", .str "string")])) := ⟨found, rfl, rfl⟩
  obtain ⟨f, hf⟩ := exists_gives_of_met hmodel met
  have kept := (hf.isKept_iff found).mpr (.inr ⟨_, targets, by decide⟩)
  rcases hno.kept _ _ f met found hf kept with ⟨other, resolved, reference⟩ | ⟨other, targets', hmem⟩
  · cases (targets.resolve found).symm.trans resolved
    cases reference
  · cases targets.unique targets'
    revert hmem
    decide

end ApiContract.Schema
