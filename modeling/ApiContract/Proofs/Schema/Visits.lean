import ApiContract.Proofs.Reference.Chain
import ApiContract.Proofs.Schema.Built
import ApiContract.Proofs.Schema.Parts
import Mathlib.Logic.Relation

/-!
# What the builder visits

To build the model of a schema a field is asked for at every property, and at the items of every list.
A visit says where: which models are being expanded, and the node that the field is asked for. One visit
asks for others, and nothing decreases from one to the next in itself, since a reference leads anywhere
in the document.

The steps are a relation on visits, without the fuel and without the pointers that the builder keeps in
mind: building comes to an end if no visit asks for others without end.

The target of a reference refers to others, and so on round. Building goes round such a cycle for ever
unless it passes a component that is remembered: an object of named properties, under a name that is not
empty. Inline objects, lists and the component without a name do not count.

* **`Targets.unique`** — a pointer alone says where its chain of references ends.
* **`Stands.unique`** — the field of a visit is built of one node at most.
* **`fieldWithin_pointer`** / **`fieldWithin_dangling`** / **`fieldWithin_circular`** — the field of a
  reference, by the end of its chain.
* **`Context.Fits.inside`** — the context stays the one that the path says.
* **`Met.nodup`** — no component is remembered twice.
* **`RefersTo.mem_pointersIn`** / **`Targets.mem_nodes`** — all of it happens in the schema and the document.
* **`exists_visit_of_leadsAround`** — a step around the names, as building takes it.
* **`not_acc_of_cycle`** — a cycle around the names goes on for ever.
* **`cyclesPass_guards`** — where no mapping has a member of the empty name, all objects are remembered.
-/

namespace ApiContract.Schema

open Contract (FieldSpec SchemaModel)
open Reference (pointersIn)
open Relation (ReflTransGen TransGen)

/-! ## Places -/

/-- A schema that is made into a model, and the name of the component that it is, if a reference leads
to it. -/
structure Expansion where
  schema : Value
  component : Option String

/-- The name that an expansion further down is remembered by. An empty name is not. -/
def Expansion.name? (e : Expansion) : Option String := e.component.filter (!·.isEmpty)

/-- The models on the way down: the one that is asked for, and those inside it, the last one first. -/
structure Path where
  root : Expansion
  inner : List Expansion := []

/-- One model further down. -/
def Path.enter (path : Path) (e : Expansion) : Path := { path with inner := e :: path.inner }

/-- The model that is being made. -/
def Path.last (path : Path) : Expansion := path.inner.headD path.root

/-- All models of a path, the last one first. -/
def Path.expansions (path : Path) : List Expansion := path.inner ++ [path.root]

/-- The names of the components that are being expanded. That of the root counts even if it is empty. -/
def Path.expanding (path : Path) : List String :=
  path.inner.filterMap Expansion.name? ++ path.root.component.toList

/-- A node that a field is asked for, and the models on the way to it. -/
structure Visit where
  path : Path
  node : Value

@[simp] theorem Path.expanding_enter (path : Path) (e : Expansion) :
    (path.enter e).expanding = e.name?.toList ++ path.expanding := by
  unfold Path.expanding Path.enter
  cases hname : e.name? with
  | none => rw [List.filterMap_cons_none hname, Option.toList_none, List.nil_append]
  | some name => rw [List.filterMap_cons_some hname, Option.toList_some, List.singleton_append,
      List.cons_append]

/-- An object of named properties, which becomes a model. -/
structure IsObject (node : Value) (properties : Members) : Prop where
  single : (typeOf node).1 ≠ some "array"
  unlisted : (node.field "enum").isTruthy = false
  found : properties? node = some properties

theorem IsObject.unique {node : Value} {properties others : Members} (h : IsObject node properties)
    (h' : IsObject node others) : properties = others :=
  Option.some.inj (h.found.symm.trans h'.found)

/-- The end of the chain of references that begins with a pointer is a node that is no reference. -/
inductive Targets (document : Value) (pointer : String) (target : Value) : Prop where
  | mk {node : Value} (found : Reference.pointer? node = some pointer)
      (resolved : Reference.resolve document node = .ok target)
      (plain : Reference.pointer? target = none)

/-- The node that the field of a visit is built of: its own, or the end of its reference unless the
component is being expanded. -/
inductive Stands (document : Value) (visit : Visit) : Expansion → Prop where
  | self (plain : Reference.pointer? visit.node = none) : Stands document visit ⟨visit.node, none⟩
  | component {pointer : String} {target : Value}
      (found : Reference.pointer? visit.node = some pointer) (targets : Targets document pointer target)
      (fresh : Reference.name pointer ∉ visit.path.expanding) :
      Stands document visit ⟨target, some (Reference.name pointer)⟩

/-- What a visit asks for: the items of a list, inside the same models, and the properties of an object,
inside one more. -/
inductive Asks (document : Value) (visit : Visit) : Visit → Prop where
  | item {e : Expansion} (stands : Stands document visit e)
      (array : (typeOf e.schema).1 = some "array") (items : e.schema.field "items" ≠ .null) :
      Asks document visit ⟨visit.path, e.schema.field "items"⟩
  | property {e : Expansion} {properties : Members} {property : Scalar × Value}
      (stands : Stands document visit e) (object : IsObject e.schema properties)
      (member : property ∈ properties) : Asks document visit ⟨visit.path.enter e, property.2⟩

/-- The node that a schema is made into a model of, and the component that it is. A reference that
leads nowhere is a node of its own. -/
inductive Root (document schema : Value) : Expansion → Prop where
  | self (plain : Reference.pointer? schema = none) : Root document schema ⟨schema, none⟩
  | component {pointer : String} {target : Value} (found : Reference.pointer? schema = some pointer)
      (targets : Targets document pointer target) :
      Root document schema ⟨target, some (Reference.name pointer)⟩
  | dangling {target : Value} (resolved : Reference.resolve document schema = .ok target)
      (reference : Reference.isReference target = true) : Root document schema ⟨target, none⟩

/-- What the model of a schema asks for: a field for every property, or one for the whole schema. -/
inductive Begins (document schema : Value) : Visit → Prop where
  | property {e : Expansion} {properties : Members} {property : Scalar × Value}
      (root : Root document schema e) (found : properties? e.schema = some properties)
      (member : property ∈ properties) : Begins document schema ⟨{ root := e }, property.2⟩
  | whole {e : Expansion} (root : Root document schema e) (absent : properties? e.schema = none)
      (other : ¬IsBare e.schema) : Begins document schema ⟨{ root := e }, e.schema⟩

/-- A visit on the way of building the model of a schema. -/
def Met (document schema : Value) (visit : Visit) : Prop :=
  ∃ start, Begins document schema start ∧ ReflTransGen (Asks document) start visit

/-- Building the model of a schema comes to an end: no visit asks for others without end. -/
def Ends (document schema : Value) : Prop :=
  ∀ start, Begins document schema start → Acc (fun next visit => Asks document visit next) start

/-! ## Ends of references -/

section Targets

variable {document schema node target other : Value} {pointer : String} {visit : Visit}

theorem isReference_eq_true_iff : Reference.isReference node = true ↔ ∃ pointer, Reference.pointer? node
    = some pointer :=
  Option.isSome_iff_exists

/-- A pointer says what all references with it come to: from the second step on, their chains are one. -/
theorem Targets.resolve (h : Targets document pointer target)
    (found : Reference.pointer? node = some pointer) : Reference.resolve document node = .ok target := by
  obtain ⟨found', resolved, plain⟩ := h
  unfold Reference.resolve Reference.follow at resolved ⊢
  rw [found'] at resolved
  rw [found]
  dsimp only at resolved ⊢
  rw [List.contains_nil, if_neg (by decide)] at resolved ⊢
  cases hfound : Reference.resolvePointer document pointer with
  | none =>
    rw [hfound] at resolved
    cases resolved
    cases found'.symm.trans plain
  | some next =>
    rw [hfound] at resolved
    exact resolved

theorem Targets.plain (h : Targets document pointer target) : Reference.pointer? target = none := by
  obtain ⟨-, -, plain⟩ := h
  exact plain

/-- **A pointer has one target** at most. -/
theorem Targets.unique (h : Targets document pointer target) (h' : Targets document pointer other) :
    target = other := by
  obtain ⟨found, resolved, -⟩ := h
  exact Except.ok.inj (resolved.symm.trans (h'.resolve found))

/-- What is no reference comes to itself. -/
theorem resolve_of_plain (plain : Reference.pointer? node = none) :
    Reference.resolve document node = .ok node :=
  Reference.resolve_of_ends fun _ hpointer => nomatch plain.symm.trans hpointer

/-- **A field is built of one node** at most. -/
theorem Stands.unique {e e' : Expansion} (h : Stands document visit e) (h' : Stands document visit e') :
    e = e' := by
  cases h with
  | self plain =>
    cases h' with
    | self _ => rfl
    | component found _ _ => cases plain.symm.trans found
  | component found targets _ =>
    cases h' with
    | self plain => cases plain.symm.trans found
    | component found' targets' _ =>
      cases found.symm.trans found'
      rw [targets.unique targets']

theorem Stands.plain {e : Expansion} (h : Stands document visit e) :
    Reference.pointer? e.schema = none := by
  cases h with
  | self plain => exact plain
  | component _ targets _ => exact targets.plain

/-- Without a document that counts, no reference leads on. -/
theorem resolve_of_falsy (h : document.isTruthy = false) :
    Reference.resolve document node = .ok node :=
  Reference.resolve_of_ends fun pointer _ =>
    Reference.resolvePointer_eq_none_iff.mp (Reference.resolvePointer_of_falsy h pointer)

end Targets

/-! ## The builder on a path -/

/-- The context of a path: it resolves references as the document does, and remembers the components
that are being expanded. -/
structure Context.Fits (c : Context) (document : Value) (path : Path) : Prop where
  resolves : ∀ node, Reference.resolve c.document node = Reference.resolve document node
  expanding : c.expanding = path.expanding

section Steps

variable {document node target : Value} {pointer : String} {path : Path} {c : Context} {fuel : Nat}
  {property parent : String} {required : Bool}

theorem Context.Fits.follow (h : c.Fits document path) (followed : List String) :
    Context.Fits { c with followed } document path :=
  ⟨h.resolves, h.expanding⟩

theorem Context.inside_eq (c : Context) (e : Expansion) :
    c.inside e.component = e.name?.elim c c.expand := by
  unfold Context.inside Expansion.name?
  cases e.component.filter (!·.isEmpty) <;> rfl

/-- **The context stays the one of the path** when a model is entered. -/
theorem Context.Fits.inside (h : c.Fits document path) (e : Expansion) :
    (c.inside e.component).Fits document (path.enter e) := by
  rw [c.inside_eq]
  constructor
  · intro node
    cases e.name? <;> exact h.resolves node
  · rw [Path.expanding_enter, ← h.expanding]
    cases e.name? <;> rfl

/-- A reference to a component: kept inside the component itself, refused where nothing has been
expanded since it was followed, and otherwise followed. -/
theorem fieldWithin_pointer (fits : c.Fits document path) (found : Reference.pointer? node = some pointer)
    (targets : Targets document pointer target) :
    fieldWithin (fuel + 1) c node property required parent
      = if Reference.name pointer ∈ path.expanding then
          .ok { ref := some (Naming.pascalCase (Reference.name pointer)), isOptional := !required }
        else if pointer ∈ c.followed then .error .unexpected
        else
          nodeField fuel { c with followed := pointer :: c.followed } target
            (some (Reference.name pointer)) property required parent := by
  have hderef : dereference c node = .ok (target, some (Reference.name pointer)) := by
    unfold dereference
    rw [found]
    dsimp only
    rw [fits.resolves, targets.resolve found]
    show Except.ok (target, if Reference.isReference target then none else _) = _
    rw [Reference.isReference_eq_false targets.plain]
    rfl
  unfold fieldWithin
  rw [found]
  dsimp only
  rw [hderef]
  show (if c.expanding.contains (Reference.name pointer) = true then _ else _) = _
  rw [← fits.expanding]
  simp only [List.contains_iff_mem]
  rfl

/-- A reference that ends at one that leads nowhere is kept. -/
theorem fieldWithin_dangling (fits : c.Fits document path)
    (found : Reference.pointer? node = some pointer)
    (resolved : Reference.resolve document node = .ok target)
    (reference : Reference.isReference target = true) :
    fieldWithin (fuel + 1) c node property required parent
      = .ok { ref := some (Naming.pascalCase (Reference.name pointer)), isOptional := !required } := by
  have hderef : dereference c node = .ok (target, none) := by
    unfold dereference
    rw [found]
    dsimp only
    rw [fits.resolves, resolved]
    show Except.ok (target, if Reference.isReference target then none else _) = _
    rw [reference]
    rfl
  unfold fieldWithin
  rw [found]
  dsimp only
  rw [hderef]
  rfl

/-- A chain of references that comes back to a pointer fails. -/
theorem fieldWithin_circular (fits : c.Fits document path)
    (found : Reference.pointer? node = some pointer) {cause : Failure}
    (circular : Reference.resolve document node = .error cause) :
    fieldWithin (fuel + 1) c node property required parent = .error cause := by
  have hderef : dereference c node = .error cause := by
    unfold dereference
    rw [found]
    dsimp only
    rw [fits.resolves, circular]
    rfl
  unfold fieldWithin
  rw [found]
  dsimp only
  rw [hderef]
  rfl

end Steps

/-! ## The whole model -/

section Whole

variable {document schema : Value} {e : Expansion} {visit asked : Visit}

/-- The context that the model of a component, or of no component, is begun with. -/
def outset (document : Value) (component : Option String) : Context :=
  let c : Context := { document := if document.isTruthy then document else .map [] }
  match component with
  | some name => c.expand name
  | none => c

theorem outset_fits (document : Value) (e : Expansion) :
    (outset document e.component).Fits document { root := e } := by
  have hresolves (node : Value) :
      Reference.resolve (if document.isTruthy then document else .map []) node
        = Reference.resolve document node := by
    cases htruthy : document.isTruthy with
    | true => rw [if_pos rfl]
    | false => rw [if_neg (by decide), resolve_of_falsy htruthy, resolve_of_falsy rfl]
  obtain ⟨schema, component⟩ := e
  cases component with
  | none => exact ⟨hresolves, rfl⟩
  | some name => exact ⟨hresolves, rfl⟩

/-- **The model of a schema** is that of its root. -/
theorem modelOf_of_root (root : Root document schema e) (name : String) :
    modelOf schema name document
      = modelWithin (depthBound schema document) (outset document e.component) e.schema
          (if (Naming.pascalCase name).isEmpty then name else Naming.pascalCase name) := by
  have hresolves := (outset_fits document ⟨schema, none⟩).resolves
  have hderef : dereference (outset document none) schema = .ok (e.schema, e.component) := by
    unfold dereference
    cases root with
    | self plain => rw [plain]; rfl
    | component found targets =>
      rw [found]
      dsimp only
      rw [hresolves, targets.resolve found]
      show Except.ok (_, if Reference.isReference _ then none else _) = _
      rw [Reference.isReference_eq_false targets.plain]
      rfl
    | @dangling target resolved reference =>
      cases found : Reference.pointer? schema with
      | none =>
        cases (resolve_of_plain found).symm.trans resolved
        rw [Reference.isReference_eq_false found] at reference
        cases reference
      | some pointer =>
        dsimp only
        rw [hresolves, resolved]
        show Except.ok (_, if Reference.isReference target then none else _) = _
        rw [reference]
        rfl
  unfold modelOf
  dsimp only
  show (dereference (outset document none) schema >>= _) = _
  rw [hderef]
  rfl

/-- A chain of references that has an end has a root. -/
theorem exists_root_of_resolve {target : Value} (h : Reference.resolve document schema = .ok target) :
    ∃ e, Root document schema e := by
  cases found : Reference.pointer? schema with
  | none => exact ⟨_, .self found⟩
  | some pointer =>
    cases hreference : Reference.pointer? target with
    | none => exact ⟨_, .component found ⟨found, h, hreference⟩⟩
    | some other => exact ⟨_, .dangling h (isReference_eq_true_iff.mpr ⟨other, hreference⟩)⟩

/-- **A schema has one root** at most. -/
theorem Root.unique {e e' : Expansion} (h : Root document schema e) (h' : Root document schema e') :
    e = e' := by
  -- a root that is a reference is none of a plain schema, and none that a pointer has as its target
  have dangling {target : Value} (resolved : Reference.resolve document schema = .ok target)
      (reference : Reference.isReference target = true) {e : Expansion} (h : Root document schema e) :
      e = ⟨target, none⟩ := by
    cases h with
    | self plain =>
      cases (resolve_of_plain plain).symm.trans resolved
      rfl
    | component found targets =>
      cases (targets.resolve found).symm.trans resolved
      rw [Reference.isReference_eq_false targets.plain] at reference
      cases reference
    | dangling resolved' _ =>
      cases resolved.symm.trans resolved'
      rfl
  cases h with
  | dangling resolved reference => exact (dangling resolved reference h').symm
  | self plain =>
    cases h' with
    | self _ => rfl
    | component found _ => cases plain.symm.trans found
    | dangling resolved reference => exact dangling resolved reference (.self plain)
  | component found targets =>
    cases h' with
    | self plain => cases plain.symm.trans found
    | component found' targets' =>
      cases found.symm.trans found'
      rw [targets.unique targets']
    | dangling resolved reference => exact dangling resolved reference (.component found targets)

/-- A chain of references that comes back to a pointer has no model. -/
theorem modelOf_of_circular {cause : Failure} (h : Reference.resolve document schema = .error cause)
    (name : String) : modelOf schema name document = .error cause := by
  have hderef : dereference (outset document none) schema = .error cause := by
    unfold dereference
    cases found : Reference.pointer? schema with
    | none => cases (resolve_of_plain found).symm.trans h
    | some pointer =>
      dsimp only
      rw [(outset_fits document ⟨schema, none⟩).resolves, h]
      rfl
  unfold modelOf
  dsimp only
  show (dereference (outset document none) schema >>= _) = _
  rw [hderef]
  rfl

/-! ### Names -/

/-- A component is entered only if it is not remembered yet. -/
theorem Stands.nodup (stands : Stands document visit e) (h : visit.path.expanding.Nodup) :
    (visit.path.enter e).expanding.Nodup := by
  rw [Path.expanding_enter]
  cases hname : e.name? with
  | none => exact h
  | some name =>
    rw [Option.toList_some, List.singleton_append, List.nodup_cons]
    refine ⟨?_, h⟩
    cases stands with
    | self plain => cases hname
    | component found targets fresh =>
      obtain ⟨heq, -⟩ := Option.filter_eq_some_iff.mp hname
      cases heq
      exact fresh

theorem Asks.nodup (asks : Asks document visit asked) (h : visit.path.expanding.Nodup) :
    asked.path.expanding.Nodup := by
  cases asks with
  | item _ _ _ => exact h
  | property stands _ _ => exact stands.nodup h

/-- **No component is remembered twice** at any visit. -/
theorem Met.nodup (met : Met document schema visit) : visit.path.expanding.Nodup := by
  obtain ⟨start, begins, hreach⟩ := met
  induction hreach with
  | refl =>
    have hroot (e : Expansion) : Path.expanding { root := e } = e.component.toList := List.nil_append _
    cases begins with
    | @property e _ _ _ _ _ => rw [hroot]; cases e.component <;> simp
    | @whole e _ _ _ => rw [hroot]; cases e.component <;> simp
  | tail _ asks ih => exact asks.nodup ih

end Whole

/-! ## References inside references -/

/-- A reference that a field of the node comes to before another reference is followed. -/
inductive RefersTo : Value → String → Prop where
  | here {node : Value} {pointer : String} (found : Reference.pointer? node = some pointer) :
      RefersTo node pointer
  | item {node : Value} {pointer : String} (plain : Reference.pointer? node = none)
      (array : (typeOf node).1 = some "array") (rest : RefersTo (node.field "items") pointer) :
      RefersTo node pointer
  | property {node : Value} {properties : Members} {property : Scalar × Value} {pointer : String}
      (plain : Reference.pointer? node = none) (object : IsObject node properties)
      (member : property ∈ properties) (rest : RefersTo property.2 pointer) : RefersTo node pointer

/-- The target of one pointer refers to the other. -/
def Leads (document : Value) (pointer next : String) : Prop :=
  ∃ target, Targets document pointer target ∧ RefersTo target next

/-- The target of the pointer has named properties, and is neither a list nor an enumeration. -/
def ToObject (document : Value) (pointer : String) : Prop :=
  ∃ target properties, Targets document pointer target ∧ IsObject target properties

/-- The pointer leads to an object that is remembered while it is expanded. -/
def Guards (document : Value) (pointer : String) : Prop :=
  ToObject document pointer ∧ Reference.name pointer ≠ ""

/-- One pointer leads to the next, and is not of the good ones. -/
def LeadsAround (document : Value) (good : String → Prop) (pointer next : String) : Prop :=
  Leads document pointer next ∧ ¬good pointer

/-- Every cycle of references passes through at least one of the good ones: around them, none leads back
to itself. -/
def CyclesPass (document : Value) (good : String → Prop) : Prop :=
  ∀ pointer, ¬TransGen (LeadsAround document good) pointer pointer

variable {document node target : Value} {pointer : String} {visit : Visit} {properties : Members}

theorem mem_nodes_of_property {property : Scalar × Value} (found : properties? node = some properties)
    (member : property ∈ properties) : property.2 ∈ node.nodes := by
  unfold properties? at found
  split at found
  · next members hget =>
    cases found
    have hinside := Value.mem_nodes_of_member member property.2.mem_nodes_self
    exact (node.infix_of_mem_nodes (Value.mem_nodes_of_get? hget)).subset hinside
  · cases found

theorem not_refersTo_null : ¬RefersTo .null pointer := by
  intro h
  cases h with
  | here found => cases found
  | item _ array _ => cases array
  | property _ object _ _ => cases object.found

/-- The references of a node are references of its tree. -/
theorem RefersTo.mem_pointersIn (h : RefersTo node pointer) : pointer ∈ pointersIn node := by
  induction h with
  | here found => exact Reference.mem_pointersIn found
  | @item node pointer _ _ rest ih =>
    have hitems : node.field "items" ≠ .null := fun hnull => not_refersTo_null (hnull ▸ rest)
    exact Reference.pointersIn_subset (Value.mem_nodes_of_get? (Value.get?_of_field_ne hitems)) ih
  | property _ object member _ ih =>
    exact Reference.pointersIn_subset (mem_nodes_of_property object.found member) ih

/-- A target is a node of the document. -/
theorem Targets.mem_nodes (h : Targets document pointer target) : target ∈ document.nodes := by
  obtain ⟨found, resolved, plain⟩ := h
  have houtcome := Reference.resolve_outcome document ‹Value›
  rw [resolved] at houtcome
  cases houtcome with
  | ends chain _ _ =>
    refine chain.mem_nodes.resolve_left fun heq => ?_
    cases found.symm.trans (heq ▸ plain)

/-! ## Cycles that go on for ever -/

/-- Building comes from a node to each reference there, with the same names remembered. -/
theorem exists_visit_of_refersTo (h : RefersTo node pointer) (path : Path) :
    ∃ visit, ReflTransGen (Asks document) ⟨path, node⟩ visit ∧ visit.path.expanding = path.expanding
      ∧ Reference.pointer? visit.node = some pointer := by
  induction h generalizing path with
  | here found => exact ⟨_, .refl, rfl, found⟩
  | @item node pointer plain array rest ih =>
    have items : node.field "items" ≠ .null := fun hnull => not_refersTo_null (hnull ▸ rest)
    have stands : Stands document ⟨path, node⟩ ⟨node, none⟩ := .self plain
    obtain ⟨visit, hreach, hexpanding, found⟩ := ih path
    exact ⟨visit, .head (.item stands array items) hreach, hexpanding, found⟩
  | @property node properties property pointer plain object member rest ih =>
    have stands : Stands document ⟨path, node⟩ ⟨node, none⟩ := .self plain
    obtain ⟨visit, hreach, hexpanding, found⟩ := ih (path.enter ⟨node, none⟩)
    exact ⟨visit, .head (.property stands object member) hreach, hexpanding, found⟩

/-- A step around the names comes to the next pointer, and nothing is remembered on the way. -/
theorem exists_visit_of_leadsAround {next : String}
    (h : LeadsAround document (Guards document) pointer next)
    (found : Reference.pointer? visit.node = some pointer) (hnone : visit.path.expanding = []) :
    ∃ later, TransGen (Asks document) visit later ∧ later.path.expanding = []
      ∧ Reference.pointer? later.node = some next := by
  obtain ⟨⟨target, targets, refers⟩, unguarded⟩ := h
  have stands : Stands document visit ⟨target, some (Reference.name pointer)⟩ :=
    .component found targets (by rw [hnone]; exact List.not_mem_nil)
  cases refers with
  | here found' => cases found'.symm.trans targets.plain
  | item _ array rest =>
    have items : target.field "items" ≠ .null := fun hnull => not_refersTo_null (hnull ▸ rest)
    obtain ⟨later, hreach, hexpanding, found'⟩ := exists_visit_of_refersTo rest visit.path
    exact ⟨later, .head' (.item stands array items) hreach, hexpanding.trans hnone, found'⟩
  | property _ object member rest =>
    have hname : Reference.name pointer = "" :=
      by_contra fun hname => unguarded ⟨⟨target, _, targets, object⟩, hname⟩
    obtain ⟨later, hreach, hexpanding, found'⟩ :=
      exists_visit_of_refersTo rest (visit.path.enter ⟨target, some (Reference.name pointer)⟩)
    refine ⟨later, .head' (.property stands object member) hreach, hexpanding.trans ?_, found'⟩
    rw [Path.expanding_enter, hnone, hname]
    rfl

theorem exists_visit_of_around {next : String}
    (h : TransGen (LeadsAround document (Guards document)) pointer next)
    (found : Reference.pointer? visit.node = some pointer) (hnone : visit.path.expanding = []) :
    ∃ later, TransGen (Asks document) visit later ∧ later.path.expanding = []
      ∧ Reference.pointer? later.node = some next := by
  induction h with
  | single hstep => exact exists_visit_of_leadsAround hstep found hnone
  | tail _ hstep ih =>
    obtain ⟨middle, hreach, hnone', found'⟩ := ih
    obtain ⟨later, hreach', hlater⟩ := exists_visit_of_leadsAround hstep found' hnone'
    exact ⟨later, hreach.trans hreach', hlater⟩

/-- **A cycle around the names goes on for ever**: from each visit at its pointer, building comes to
another one. -/
theorem not_acc_of_cycle (h : TransGen (LeadsAround document (Guards document)) pointer pointer)
    (found : Reference.pointer? visit.node = some pointer) (hnone : visit.path.expanding = []) :
    ¬Acc (fun asked visit => Asks document visit asked) visit := by
  intro hacc
  replace hacc := hacc.transGen
  induction hacc with
  | intro visit _ ih =>
    obtain ⟨later, hreach, hnone', found'⟩ := exists_visit_of_around h found hnone
    exact ih later hreach.swap found' hnone'

/-- A target is what the pointer itself leads to, or what a reference there comes to. -/
theorem Targets.resolvePointer_ne_none (h : Targets document pointer target) :
    Reference.resolvePointer document pointer ≠ none := by
  intro hnone
  obtain ⟨found, resolved, plain⟩ := h
  have hends : Reference.Ends document _ := fun other hother => by
    cases found.symm.trans hother
    exact Reference.resolvePointer_eq_none_iff.mp hnone
  cases (Reference.resolve_of_ends hends).symm.trans resolved
  cases found.symm.trans plain

/-- **Where no mapping has a member of the empty name**, all objects are remembered. -/
theorem cyclesPass_guards (hkeys : ∀ v ∈ document.nodes, v.get? "" = none)
    (h : CyclesPass document (ToObject document)) : CyclesPass document (Guards document) := by
  refine fun pointer hcycle => h pointer (TransGen.mono ?_ _ _ hcycle)
  rintro p q ⟨leads, unguarded⟩
  refine ⟨leads, fun toObject => unguarded ⟨toObject, ?_⟩⟩
  obtain ⟨target, properties, targets, -⟩ := toObject
  obtain ⟨found, hfound⟩ := Option.ne_none_iff_exists'.mp targets.resolvePointer_ne_none
  exact Reference.name_ne_empty hkeys hfound

/-- A document without lists has only cycles of objects. -/
theorem cyclesPass_toObject (h : ∀ node ∈ document.nodes, (typeOf node).1 ≠ some "array") :
    CyclesPass document (ToObject document) := by
  intro pointer hcycle
  obtain ⟨next, ⟨⟨target, targets, refers⟩, hno⟩, -⟩ := TransGen.head'_iff.mp hcycle
  cases refers with
  | here found => cases found.symm.trans targets.plain
  | item _ array _ => exact h target targets.mem_nodes array
  | property _ object _ _ => exact hno ⟨target, _, targets, object⟩

end ApiContract.Schema
