import ApiContract.Proofs.Schema.Visits

/-!
# What the builder makes on the way

Where a visit gives a field, the visits that it asks for give theirs, with less fuel: the field of a
list is made of that of its items, the field of an object has the model that is made on a path one
longer, and the model has the fields of its properties. So a model that is built can be gone through from
outside, and every nested model in it is one that the builder made on some path.

* **`GivesWithin.next`** — a visit that gives a field asks only for visits that do.
* **`GivesWithin.model`** / **`MakesWithin.fields`** — from a field to its model, and on to its fields.
* **`GivesWithin.origin_model`** / **`GivesWithin.origin_ref`** — where a nested model or the name of one
  comes from.
* **`exists_path_of_chain`** — the headline.
-/

namespace ApiContract.Schema

open Contract (FieldSpec SchemaModel)
open Relation (ReflTransGen)

/-! ## Fields and models -/

/-- The field of a visit, where the builder has that much fuel. -/
def GivesWithin (fuel : Nat) (document : Value) (visit : Visit) (f : FieldSpec) : Prop :=
  ∃ c property required parent, Context.Fits c document visit.path
    ∧ fieldWithin fuel c visit.node property required parent = .ok f

/-- The field of a visit. -/
def Gives (document : Value) (visit : Visit) (f : FieldSpec) : Prop :=
  ∃ fuel, GivesWithin fuel document visit f

/-- The model of the last schema of a path, where the builder has that much fuel. -/
def MakesWithin (fuel : Nat) (document : Value) (path : Path) (m : SchemaModel) : Prop :=
  ∃ c name, Context.Fits c document path ∧ modelWithin fuel c path.last.schema name = .ok m

/-- The model of the last schema of a path. -/
def Makes (document : Value) (path : Path) (m : SchemaModel) : Prop :=
  ∃ fuel, MakesWithin fuel document path m

/-- A model that is made of a component that is remembered has its name. -/
def NamedFor (e : Expansion) (m : SchemaModel) : Prop :=
  ∀ name, e.name? = some name → m.name = Naming.pascalCase name

/-- A reference that comes to one that leads nowhere. -/
def Dangles (document node : Value) : Prop :=
  ∃ target, Reference.resolve document node = .ok target ∧ Reference.isReference target = true

variable {document schema node target : Value} {pointer : String} {path : Path} {visit asked : Visit}
  {c : Context} {e : Expansion} {properties : Members} {fuel : Nat} {f : FieldSpec} {m : SchemaModel}
  {property parent : String} {required : Bool}

/-- What is built of the node that a visit stands for. -/
theorem exists_nodeField_of_stands (stands : Stands document visit e) (fits : c.Fits document visit.path)
    (h : fieldWithin fuel c visit.node property required parent = .ok f) :
    ∃ fuel' c', fuel' < fuel ∧ Context.Fits c' document visit.path
      ∧ nodeField fuel' c' e.schema e.component property required parent = .ok f := by
  cases fuel with
  | zero => cases h
  | succ fuel =>
    cases stands with
    | self plain =>
      rw [fieldWithin, plain] at h
      exact ⟨fuel, c, Nat.lt_succ_self _, fits, h⟩
    | component found targets fresh =>
      rw [fieldWithin_pointer fits found targets, if_neg fresh] at h
      split at h
      · cases h
      · exact ⟨fuel, _, Nat.lt_succ_self _, fits.follow _, h⟩

/-- **A list has the type of its items**, one of lists is of any kind. -/
theorem GivesWithin.list (h : GivesWithin fuel document visit f) (stands : Stands document visit e)
    (array : (typeOf e.schema).1 = some "array") :
    ∃ item isOptional, f = listOfItem item isOptional (e.schema.field "description")
      ∧ (e.schema.field "items" = .null ∧ item = { scalar := some .unknown }
        ∨ e.schema.field "items" ≠ .null
          ∧ ∃ fuel' < fuel, GivesWithin fuel' document ⟨visit.path, e.schema.field "items"⟩ item) := by
  obtain ⟨c, property, required, parent, fits, h⟩ := h
  obtain ⟨fuel', c', hlt, fits', h⟩ := exists_nodeField_of_stands stands fits h
  cases fuel' with
  | zero => cases h
  | succ fuel' =>
    rw [nodeField, isMap_of_array array, if_neg (by decide)] at h
    dsimp only at h
    rw [if_pos array] at h
    split at h
    · next hnull =>
      cases h
      exact ⟨_, _, rfl, .inl ⟨hnull, rfl⟩⟩
    · next hother =>
      obtain ⟨item, hitem, h⟩ := bind_eq_ok.mp h
      cases h
      exact ⟨item, _, rfl, .inr ⟨hother, fuel', by omega, c', property, true, parent, fits', hitem⟩⟩

/-- **An object has the model** that is made one further down, and no other type. -/
theorem GivesWithin.model (h : GivesWithin fuel document visit f) (stands : Stands document visit e)
    (object : IsObject e.schema properties) :
    ∃ m, f.model = some m ∧ f.ref = none ∧ f.isArray = false ∧ NamedFor e m
      ∧ ∃ fuel' < fuel, MakesWithin fuel' document (visit.path.enter e) m := by
  obtain ⟨c, property, required, parent, fits, h⟩ := h
  obtain ⟨fuel', c', hlt, fits', h⟩ := exists_nodeField_of_stands stands fits h
  cases fuel' with
  | zero => cases h
  | succ fuel' =>
    rw [nodeField, isMap_of_properties? object.found, if_neg (by decide)] at h
    dsimp only at h
    rw [if_neg object.single, object.found] at h
    obtain ⟨values, hvalues, h⟩ := bind_eq_ok.mp h
    cases (enumValues_isNone hvalues).mpr object.unlisted
    obtain ⟨nested, hnested, h⟩ := bind_eq_ok.mp h
    obtain ⟨text, -, rfl⟩ := exists_text_of_singleField h
    refine ⟨nested, rfl, rfl, rfl, fun name hname => ?_, fuel', by omega, c'.inside e.component, _,
      fits'.inside e, hnested⟩
    obtain ⟨hbuilt, -⟩ := (builtWithin fuel').model _ _ _ _ hnested
    cases hbuilt
    show nestedName e.name? parent property = _
    rw [hname]
    rfl

/-- Any other node has no model, and names none. -/
theorem GivesWithin.leaf (h : GivesWithin fuel document visit f) (stands : Stands document visit e)
    (single : (typeOf e.schema).1 ≠ some "array") (leaf : ∀ properties, ¬IsObject e.schema properties) :
    f.model = none ∧ f.ref = none := by
  obtain ⟨c, property, required, parent, fits, h⟩ := h
  obtain ⟨fuel', c', hlt, fits', h⟩ := exists_nodeField_of_stands stands fits h
  cases fuel' with
  | zero => cases h
  | succ fuel' =>
    rw [nodeField] at h
    split at h
    · cases h
      exact ⟨rfl, rfl⟩
    · dsimp only at h
      rw [if_neg single] at h
      obtain ⟨values, hvalues, h⟩ := bind_eq_ok.mp h
      cases values with
      | some values =>
        obtain ⟨text, -, rfl⟩ := exists_text_of_singleField h
        exact ⟨rfl, rfl⟩
      | none =>
        have unlisted := (enumValues_isNone hvalues).mp rfl
        dsimp only at h
        split at h
        · next hfound =>
          obtain ⟨properties, found⟩ := Option.isSome_iff_exists.mp hfound
          exact absurd ⟨single, unlisted, found⟩ (leaf properties)
        · split at h
          · obtain ⟨text, -, rfl⟩ := exists_text_of_singleField h
            exact ⟨rfl, rfl⟩
          · obtain ⟨text, -, rfl⟩ := exists_text_of_singleField h
            exact ⟨rfl, rfl⟩

/-- **A reference that is not followed** is a field that names its component. -/
theorem GivesWithin.kept (h : GivesWithin fuel document visit f)
    (found : Reference.pointer? visit.node = some pointer) (stays : ∀ e, ¬Stands document visit e) :
    (Dangles document visit.node ∨ ∃ target, Targets document pointer target
        ∧ Reference.name pointer ∈ visit.path.expanding)
      ∧ ∃ isOptional, f = { ref := some (Naming.pascalCase (Reference.name pointer)), isOptional } := by
  obtain ⟨c, property, required, parent, fits, h⟩ := h
  cases fuel with
  | zero => cases h
  | succ fuel =>
    cases hresolve : Reference.resolve document visit.node with
    | error cause =>
      rw [fieldWithin_circular fits found hresolve] at h
      cases h
    | ok target =>
      cases hreference : Reference.pointer? target with
      | some other =>
        have reference := isReference_eq_true_iff.mpr ⟨other, hreference⟩
        rw [fieldWithin_dangling fits found hresolve reference] at h
        cases h
        exact ⟨.inl ⟨target, hresolve, reference⟩, _, rfl⟩
      | none =>
        have targets : Targets document pointer target := ⟨found, hresolve, hreference⟩
        by_cases hexpanding : Reference.name pointer ∈ visit.path.expanding
        · rw [fieldWithin_pointer fits found targets, if_pos hexpanding] at h
          cases h
          exact ⟨.inr ⟨target, targets, hexpanding⟩, _, rfl⟩
        · -- followed, it would stand for its target
          exact absurd (.component found targets hexpanding) (stays _)

/-- **A model has the fields of its properties**, and every property gives one. -/
theorem MakesWithin.fields (h : MakesWithin fuel document path m)
    (found : properties? path.last.schema = some properties) :
    ∃ fuel' < fuel, (∀ p ∈ properties, ∃ f, GivesWithin fuel' document ⟨path, p.2⟩ f)
      ∧ ∀ f ∈ m.fields, ∃ p ∈ properties, f.1 = p.1.text
        ∧ GivesWithin fuel' document ⟨path, p.2⟩ f.2 := by
  obtain ⟨c, name, fits, h⟩ := h
  cases fuel with
  | zero => cases h
  | succ fuel =>
    rw [modelWithin, isMap_of_properties? found, if_neg (by decide)] at h
    dsimp only at h
    split at h
    · next properties' found' =>
      cases found.symm.trans found'
      obtain ⟨keys, -, h⟩ := bind_eq_ok.mp h
      obtain ⟨fields, hfields, h⟩ := bind_eq_ok.mp h
      obtain ⟨about, -, h⟩ := bind_eq_ok.mp h
      cases h
      refine ⟨fuel, Nat.lt_succ_self _, fun p hp => ?_, fun f hf => ?_⟩
      · obtain ⟨f, hf⟩ := succeeds_mapM.mp ⟨fields, hfields⟩ p hp
        obtain ⟨field, hfield, -⟩ := bind_eq_ok.mp hf
        exact ⟨field, c, _, _, _, fits, hfield⟩
      · -- of two properties with one name the last one gives the field
        obtain ⟨p, hp, hf⟩ := mem_of_mapM_eq_ok hfields (Named.mem_of_mem_ofList hf)
        obtain ⟨field, hfield, hf⟩ := bind_eq_ok.mp hf
        cases hf
        exact ⟨p, hp, rfl, c, _, _, _, fits, hfield⟩
    · next absent => cases found.symm.trans absent

/-- A model without properties is empty, or has one field of the whole schema. -/
theorem MakesWithin.whole (h : MakesWithin fuel document path m)
    (absent : properties? path.last.schema = none) :
    IsBare path.last.schema ∧ m.fields = []
      ∨ ¬IsBare path.last.schema ∧ ∃ fuel' < fuel, ∃ name f,
        m.fields = [(name, { f with description := none })]
          ∧ GivesWithin fuel' document ⟨path, path.last.schema⟩ f := by
  obtain ⟨c, name, fits, h⟩ := h
  cases fuel with
  | zero => cases h
  | succ fuel =>
    rw [modelWithin] at h
    cases hmap : path.last.schema.isMap with
    | false =>
      rw [hmap, if_pos (by decide)] at h
      cases h
      exact .inl ⟨isBare_of_not_map hmap, rfl⟩
    | true =>
      rw [hmap, if_neg (by decide)] at h
      dsimp only at h
      split at h
      · next found => cases found.symm.trans absent
      · have hbare := isBare_iff path.last.schema
        split at h
        · next bare =>
          obtain ⟨about, -, h⟩ := bind_eq_ok.mp h
          cases h
          exact .inl ⟨hbare.mpr bare, rfl⟩
        · next other =>
          obtain ⟨field, hfield, h⟩ := bind_eq_ok.mp h
          obtain ⟨about, -, h⟩ := bind_eq_ok.mp h
          cases h
          exact .inr ⟨mt hbare.mp other, fuel, Nat.lt_succ_self _, _, field, rfl, c, _, _, _, fits, hfield⟩

/-! ## Visits that give fields -/

/-- **A visit that gives a field asks for such visits**, which take less fuel. -/
theorem GivesWithin.next (h : GivesWithin fuel document visit f) (asks : Asks document visit asked) :
    ∃ fuel' < fuel, ∃ f', GivesWithin fuel' document asked f' := by
  cases asks with
  | item stands array items =>
    obtain ⟨item, isOptional, -, ⟨hnull, -⟩ | ⟨-, fuel', hlt, hitem⟩⟩ := h.list stands array
    · exact absurd hnull items
    · exact ⟨fuel', hlt, item, hitem⟩
  | property stands object member =>
    obtain ⟨m, -, -, -, -, fuel', hlt, hmakes⟩ := h.model stands object
    obtain ⟨fuel'', hlt', hall, -⟩ := hmakes.fields object.found
    obtain ⟨f', hf'⟩ := hall _ member
    exact ⟨fuel'', by omega, f', hf'⟩

/-- Building that succeeds has come to an end. -/
theorem GivesWithin.acc (h : GivesWithin fuel document visit f) :
    Acc (fun next visit => Asks document visit next) visit := by
  induction fuel using Nat.strongRecOn generalizing visit f with
  | ind fuel ih =>
    refine ⟨visit, fun asked asks => ?_⟩
    obtain ⟨fuel', hlt, f', hnext⟩ := h.next asks
    exact ih fuel' hlt hnext

/-! ## Where a type comes from -/

/-- **A model or a name of one comes from a node that is no list**, which the visit comes to by items. -/
theorem GivesWithin.origin (h : GivesWithin fuel document visit f)
    (hnamed : f.model ≠ none ∨ f.ref ≠ none) :
    ∃ origin fuel' g, ReflTransGen (Asks document) visit origin ∧ origin.path = visit.path
      ∧ GivesWithin fuel' document origin g ∧ g.model = f.model ∧ g.ref = f.ref
      ∧ ∀ e, Stands document origin e → (typeOf e.schema).1 ≠ some "array" := by
  induction fuel using Nat.strongRecOn generalizing visit f with
  | ind fuel ih =>
    by_cases hlist : ∃ e, Stands document visit e ∧ (typeOf e.schema).1 = some "array"
    · obtain ⟨e, stands, array⟩ := hlist
      obtain ⟨item, isOptional, rfl, hitem⟩ := h.list stands array
      unfold listOfItem at hnamed ⊢
      split at hnamed
      · -- a list of lists is of any kind
        exact absurd hnamed (by simp)
      · next hsingle =>
        rw [if_neg hsingle]
        rcases hitem with ⟨-, rfl⟩ | ⟨hother, fuel', hlt, hitem⟩
        · exact absurd hnamed (by simp)
        · obtain ⟨origin, fuel'', g, hreach, hpath, hg⟩ := ih fuel' hlt hitem hnamed
          exact ⟨origin, fuel'', g, .head (.item stands array hother) hreach, hpath, hg⟩
    · exact ⟨visit, fuel, f, .refl, rfl, h, rfl, rfl, fun e stands array => hlist ⟨e, stands, array⟩⟩

/-- A nested model is made of an object that the visit comes to. -/
theorem GivesWithin.origin_model (h : GivesWithin fuel document visit f) (hmodel : f.model = some m) :
    ∃ origin e properties, ReflTransGen (Asks document) visit origin ∧ origin.path = visit.path
      ∧ Stands document origin e ∧ IsObject e.schema properties ∧ NamedFor e m
      ∧ Makes document (visit.path.enter e) m := by
  obtain ⟨origin, fuel', g, hreach, hpath, hg, hgmodel, -, hsingle⟩ :=
    h.origin (.inl (by rw [hmodel]; nofun))
  rw [hmodel] at hgmodel
  by_cases hstands : ∃ e, Stands document origin e
  · obtain ⟨e, stands⟩ := hstands
    by_cases hobject : ∃ properties, IsObject e.schema properties
    · obtain ⟨properties, object⟩ := hobject
      obtain ⟨m', hm', -, -, named, fuel'', -, hmakes⟩ := hg.model stands object
      cases hgmodel.symm.trans hm'
      rw [hpath] at hmakes
      exact ⟨origin, e, properties, hreach, hpath, stands, object, named, fuel'', hmakes⟩
    · obtain ⟨hnone, -⟩ := hg.leaf stands (hsingle e stands) (not_exists.mp hobject)
      cases hgmodel.symm.trans hnone
  · cases found : Reference.pointer? origin.node with
    | none => exact absurd ⟨_, .self found⟩ hstands
    | some pointer =>
      obtain ⟨-, isOptional, rfl⟩ := hg.kept found (not_exists.mp hstands)
      cases hgmodel

/-- The name of a model is left by a reference that the visit comes to and does not follow. -/
theorem GivesWithin.origin_ref (h : GivesWithin fuel document visit f) {name : String}
    (href : f.ref = some name) :
    ∃ origin pointer, ReflTransGen (Asks document) visit origin ∧ origin.path = visit.path
      ∧ Reference.pointer? origin.node = some pointer
      ∧ name = Naming.pascalCase (Reference.name pointer)
      ∧ (Dangles document origin.node ∨ ∃ target, Targets document pointer target
          ∧ Reference.name pointer ∈ visit.path.expanding) := by
  obtain ⟨origin, fuel', g, hreach, hpath, hg, -, hgref, hsingle⟩ :=
    h.origin (.inr (by rw [href]; nofun))
  rw [href] at hgref
  by_cases hstands : ∃ e, Stands document origin e
  · obtain ⟨e, stands⟩ := hstands
    have hnone : g.ref = none := by
      by_cases hobject : ∃ properties, IsObject e.schema properties
      · obtain ⟨properties, object⟩ := hobject
        obtain ⟨m', -, hnone, -⟩ := hg.model stands object
        exact hnone
      · exact (hg.leaf stands (hsingle e stands) (not_exists.mp hobject)).2
    cases hgref.symm.trans hnone
  · cases found : Reference.pointer? origin.node with
    | none => exact absurd ⟨_, .self found⟩ hstands
    | some pointer =>
      obtain ⟨hwhy, isOptional, rfl⟩ := hg.kept found (not_exists.mp hstands)
      rw [hpath] at hwhy
      exact ⟨origin, pointer, hreach, hpath, found, (Option.some.inj hgref).symm, hwhy⟩

/-! ## Chains of nested models -/

/-- A model, a nested model in it, one in that, and so on, the last one first. -/
inductive ChainOf (m : SchemaModel) : List SchemaModel → Prop where
  | whole : ChainOf m [m]
  | nested {outer inner : SchemaModel} {above : List SchemaModel} {f : String × FieldSpec}
      (rest : ChainOf m (outer :: above)) (member : f ∈ outer.fields) (holds : f.2.model = some inner) :
      ChainOf m (inner :: outer :: above)

/-- A field of exactly one type, of which an enumeration has values. -/
structure OneType (f : FieldSpec) : Prop where
  one : [f.scalar.isSome, f.enumValues.isSome, f.model.isSome, f.ref.isSome].count true = 1
  listed : ∀ values, f.enumValues = some values → values ≠ []

theorem BuiltField.oneType {parent property : String} {f : FieldSpec}
    (h : BuiltField parent property f) : OneType f := by
  cases h with
  | scalar s text => exact ⟨rfl, nofun⟩
  | enumeration nonempty text => exact ⟨rfl, fun values hvalues => Option.some.inj hvalues ▸ nonempty⟩
  | nested component built same => exact ⟨rfl, nofun⟩
  | reference name bare => exact ⟨rfl, nofun⟩

/-- All models of a chain are built. -/
theorem ChainOf.built {name : String} {m : SchemaModel} (h : BuiltModel name m)
    {models : List SchemaModel} (chain : ChainOf m models) :
    ∀ outer ∈ models, ∃ name, BuiltModel name outer := by
  induction chain with
  | whole =>
    intro outer houter
    cases List.mem_singleton.mp houter
    exact ⟨name, h⟩
  | @nested outer inner above f _ member holds ih =>
    refine List.forall_mem_cons.mpr ⟨?_, ih⟩
    obtain ⟨name, ⟨description, nodup, built⟩⟩ := ih outer List.mem_cons_self
    have hfield := built f member
    obtain ⟨key, f⟩ := f
    dsimp only at holds hfield
    cases hfield with
    | nested component built _ => exact ⟨_, Option.some.inj holds ▸ built⟩
    | scalar _ _ => cases holds
    | enumeration _ _ => cases holds
    | reference _ _ => cases holds

/-- **Every field of every nested model** is of one type. -/
theorem oneType_of_chain {schema document : Value} {name : String} {m : SchemaModel}
    (h : modelOf schema name document = .ok m) {models : List SchemaModel} (chain : ChainOf m models) :
    ∀ outer ∈ models, ∀ f ∈ outer.fields, OneType f.2 := by
  intro outer houter f hf
  obtain ⟨name, ⟨description, nodup, built⟩⟩ := chain.built (built_modelOf h) outer houter
  exact (built f hf).oneType

/-- A path that building the model of a schema comes to. -/
inductive Expanded (document schema : Value) : Path → Prop where
  | root {e : Expansion} (root : Root document schema e) : Expanded document schema { root := e }
  | inside {visit : Visit} {e : Expansion} {properties : Members} (met : Met document schema visit)
      (stands : Stands document visit e) (object : IsObject e.schema properties) :
      Expanded document schema (visit.path.enter e)

/-- The models are made along the path, each of its own schema. -/
inductive MadeAlong (document : Value) : List SchemaModel → Path → Prop where
  | root {e : Expansion} {m : SchemaModel} (makes : Makes document { root := e } m) :
      MadeAlong document [m] { root := e }
  | nested {models : List SchemaModel} {path : Path} {e : Expansion} {inner : SchemaModel}
      (rest : MadeAlong document models path) (named : NamedFor e inner)
      (makes : Makes document (path.enter e) inner) : MadeAlong document (inner :: models) (path.enter e)

variable {name : String} {models above : List SchemaModel} {outer : SchemaModel}

theorem MadeAlong.makes (h : MadeAlong document (m :: above) path) : Makes document path m := by
  cases h with
  | root makes => exact makes
  | nested _ _ makes => exact makes

/-- **No name is on a path twice**, but for the empty one. -/
theorem Expanded.nodup (h : Expanded document schema path) : path.expanding.Nodup := by
  cases h with
  | @root e root =>
    show ([] ++ e.component.toList).Nodup
    cases e.component <;> simp
  | inside met stands object => exact stands.nodup met.nodup

theorem exists_makes_of_modelOf (h : modelOf schema name document = .ok m) :
    ∃ e, Root document schema e ∧ Makes document { root := e } m := by
  cases hresolve : Reference.resolve document schema with
  | error cause => cases (modelOf_of_circular hresolve name).symm.trans h
  | ok target =>
    obtain ⟨e, root⟩ := exists_root_of_resolve hresolve
    rw [modelOf_of_root root] at h
    exact ⟨e, root, _, _, _, outset_fits document e, h⟩

/-- **Where there is a model, what it begins with has fields.** -/
theorem exists_gives_of_begins (h : modelOf schema name document = .ok m)
    (begins : Begins document schema visit) : ∃ f, Gives document visit f := by
  cases begins with
  | @property e properties property root found member =>
    rw [modelOf_of_root root] at h
    have makes : MakesWithin _ document { root := e } m := ⟨_, _, outset_fits document e, h⟩
    obtain ⟨fuel, -, hall, -⟩ := makes.fields found
    obtain ⟨f, hf⟩ := hall property member
    exact ⟨f, fuel, hf⟩
  | @whole e root absent other =>
    rw [modelOf_of_root root] at h
    have makes : MakesWithin _ document { root := e } m := ⟨_, _, outset_fits document e, h⟩
    obtain ⟨bare, -⟩ | ⟨-, fuel, -, key, f, -, hf⟩ := makes.whole absent
    · exact absurd bare other
    · exact ⟨f, fuel, hf⟩

/-- A field of a model on the path is given by a visit there. -/
theorem exists_visit_of_field (expanded : Expanded document schema path)
    (makes : Makes document path outer) {field : String × FieldSpec} (member : field ∈ outer.fields) :
    ∃ visit fuel g, Met document schema visit ∧ visit.path = path ∧ GivesWithin fuel document visit g
      ∧ g.model = field.2.model ∧ g.ref = field.2.ref := by
  obtain ⟨fuel, makes⟩ := makes
  cases expanded with
  | @root e root =>
    cases found : properties? e.schema with
    | some properties =>
      obtain ⟨fuel', -, -, hfields⟩ := makes.fields found
      obtain ⟨p, hp, -, hgives⟩ := hfields field member
      exact ⟨_, fuel', _, ⟨_, .property root found hp, .refl⟩, rfl, hgives, rfl, rfl⟩
    | none =>
      obtain ⟨-, hempty⟩ | ⟨other, fuel', -, key, g, hfields, hgives⟩ := makes.whole found
      · rw [hempty] at member
        exact absurd member List.not_mem_nil
      · rw [hfields] at member
        cases List.mem_singleton.mp member
        exact ⟨_, fuel', g, ⟨_, .whole root found other, .refl⟩, rfl, hgives, rfl, rfl⟩
  | @inside visit e properties met stands object =>
    obtain ⟨fuel', -, -, hfields⟩ := makes.fields object.found
    obtain ⟨p, hp, -, hgives⟩ := hfields field member
    obtain ⟨start, begins, hreach⟩ := met
    exact ⟨_, fuel', _, ⟨start, begins, hreach.tail (.property stands object hp)⟩, rfl, hgives, rfl, rfl⟩

/-- **Every chain of nested models is made along a path** that building comes to. -/
theorem exists_path_of_chain (h : modelOf schema name document = .ok m) (chain : ChainOf m models) :
    ∃ path, Expanded document schema path ∧ MadeAlong document models path := by
  induction chain with
  | whole =>
    obtain ⟨e, root, makes⟩ := exists_makes_of_modelOf h
    exact ⟨_, .root root, .root makes⟩
  | @nested outer inner above field _ member holds ih =>
    obtain ⟨path, expanded, along⟩ := ih
    obtain ⟨visit, fuel, g, ⟨start, begins, hreach⟩, rfl, hgives, hmodel, -⟩ :=
      exists_visit_of_field expanded along.makes member
    obtain ⟨origin, e, properties, hreach', hpath, stands, object, named, hmakes⟩ :=
      hgives.origin_model (hmodel.trans holds)
    -- the model of a list comes from its items, which are on the same path
    refine ⟨visit.path.enter e, ?_, .nested along named hmakes⟩
    rw [← hpath]
    exact .inside ⟨start, begins, hreach.trans hreach'⟩ stands object

/-- **Every name of a model in the place of one** is left by a reference that building comes to. -/
theorem exists_visit_of_ref (h : modelOf schema name document = .ok m)
    (chain : ChainOf m (outer :: above)) {field : String × FieldSpec} (member : field ∈ outer.fields)
    {left : String} (href : field.2.ref = some left) :
    ∃ visit pointer, Met document schema visit ∧ Reference.pointer? visit.node = some pointer
      ∧ left = Naming.pascalCase (Reference.name pointer)
      ∧ (Dangles document visit.node ∨ ∃ target, Targets document pointer target
          ∧ Reference.name pointer ∈ visit.path.expanding) := by
  obtain ⟨path, expanded, along⟩ := exists_path_of_chain h chain
  obtain ⟨visit, fuel, g, ⟨start, begins, hreach⟩, rfl, hgives, -, hgref⟩ :=
    exists_visit_of_field expanded along.makes member
  obtain ⟨origin, pointer, hreach', hpath, found, hname, hwhy⟩ := hgives.origin_ref (hgref.trans href)
  rw [← hpath] at hwhy
  exact ⟨origin, pointer, ⟨start, begins, hreach.trans hreach'⟩, found, hname, hwhy⟩

end ApiContract.Schema
