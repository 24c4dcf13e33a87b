import ApiContract.Proofs.Codegen.Declaration
import ApiContract.Proofs.Codegen.Layout
import ApiContract.Proofs.Codegen.Regions
import ApiContract.Proofs.Codegen.Written

/-!
# Where generated models take their types from

A field of a declaration may be of a model: a nested one, which is declared above, or one of another
file, which is imported. A validator is one expression, and imports the models that it refers to.
Neither imports anything else besides the libraries.

References must stand alone for this. A list whose items are a reference with properties beside it has
a nested model that is a comment, so nothing declares or imports the type of the field.

* **`needsImport_iff`** — the fields that a model is imported for.
* **`BareReferences.declares`** — the models that a model declares.
* **`refers_iff`** — the references of a validator, by the nodes that it is written out with.
* **`wellScoped_of_generateModel`** — the headline.
-/

namespace ApiContract.Codegen

/-! ## References that stand alone -/

/-- No member stands beside a reference, at any depth. -/
inductive BareReferences : Value → Prop where
  | mk {v : Value}
      (alone : ∀ pointer, Reference.pointer? v = some pointer → ∃ member, v = .map [member])
      (items : ∀ item, v.get? "items" = some item → BareReferences item)
      (properties : ∀ ps, Schema.properties? v = some ps → ∀ p ∈ ps, BareReferences p.2) :
      BareReferences v

variable {conventions : Conventions} {schema target node given : Value} {name symbol : String}
  {code : GeneratedCode}

theorem BareReferences.item (h : BareReferences schema) {item : Value}
    (hitem : schema.get? "items" = some item) : BareReferences item := by
  cases h with
  | mk _ items _ => exact items item hitem

theorem BareReferences.property (h : BareReferences schema) {properties : Members}
    (hproperties : Schema.properties? schema = some properties) {p : Scalar × Value}
    (hp : p ∈ properties) : BareReferences p.2 := by
  cases h with
  | mk _ _ each => exact each properties hproperties p hp

/-- An object is no reference. -/
theorem BareReferences.pointer?_eq_none (h : BareReferences schema)
    (hproperties : (Schema.properties? schema).isSome = true) :
    Reference.pointer? schema = none := by
  cases h with
  | @mk _ alone _ _ =>
    refine Option.eq_none_iff_forall_ne_some.mpr fun pointer hpointer => ?_
    obtain ⟨⟨key, value⟩, rfl⟩ := alone pointer hpointer
    unfold Schema.properties? at hproperties
    unfold Reference.pointer? at hpointer
    simp only [Value.get?, Members.get?_cons, Members.get?_nil] at hproperties hpointer
    -- the one member would be both
    by_cases href : key.sameKey (.str "$ref") = true
    · rw [Scalar.sameKey_str_iff.mp href, if_neg (by decide)] at hproperties
      cases hproperties
    · rw [if_neg href] at hpointer
      cases hpointer

namespace Declaration

variable {m : Model} {f : Field}

/-! ## Declarations -/

theorem Hoists.bare (h : Hoists schema target) (hbare : BareReferences schema) :
    BareReferences target := by
  have htarget : ∀ node, BareReferences node → nestTarget? node = some target →
      BareReferences target := by
    intro node hnode hoisted
    have hinline := isInline_of_nestTarget? hoisted
    by_cases harray : (Schema.typeOf node).1 = some "array"
    · rw [nestTarget?_of_array hinline harray] at hoisted
      exact hnode.item (Option.filter_eq_some_iff.mp hoisted).1
    · rw [nestTarget?_of_single hinline harray] at hoisted
      cases hoisted
      exact hnode
  cases h with
  | property found member hoisted => exact htarget _ (hbare.property found member) hoisted
  | items hoisted array => exact htarget schema hbare hoisted

/-- **The models that a model declares**, if references stand alone. -/
theorem declares_of_bare (h : model schema name given = .ok m) (hbare : BareReferences schema)
    (hproperties : (Schema.properties? schema).isSome = true) :
    ∀ d ∈ declared m, Declares d.name d ∧ '\n' ∉ d.name.toList := by
  refine model_induction (motive := fun schema m => BareReferences schema →
    (Schema.properties? schema).isSome = true →
      ∀ d ∈ declared m, Declares d.name d ∧ '\n' ∉ d.name.toList)
    (fun schema name given m h ih hbare hproperties d hd => ?_) h hbare hproperties
  rcases mem_declared.mp hd with rfl | ⟨f, hf, n, hn, hd⟩
  · have hdeclares : Declares (Naming.modelName name) d := by
      cases declaredModel h with
      | reference found => cases (hbare.pointer?_eq_none hproperties).symm.trans found
      | leaf _ _ declares _ => exact declares
      | object _ _ _ _ _ declares => exact declares
      | list _ _ _ _ _ _ declares => exact declares
    rw [hdeclares.name]
    exact ⟨hdeclares, notMem_modelName name⟩
  · obtain ⟨target, hoists, nests, -, hmodels⟩ := ih f hf n hn
    exact hmodels (hoists.bare hbare) nests.1 d hd

/-- The lines of a declaration declare its model. -/
theorem declaresIn_of_declaring {blocks : List Block} {b : Block} (hb : b ∈ blocks)
    (h : Declaring b) (hdeclares : Declares b.model.name b.model)
    (hone : '\n' ∉ b.model.name.toList) :
    DeclaresIn (joinLines (blockLines blocks)) b.model.name := by
  have hlines : b.lines ⊆ blockLines blocks := fun line hline => mem_blockLines hb hline
  cases h with
  | object opens => exact Declaring.declaresIn (.object opens) hlines rfl hone
  | leaf declares empty => exact Declaring.declaresIn (.leaf declares empty) hlines rfl hone
  | reference _ _ _ =>
    obtain ⟨line, hline, hstart⟩ := hdeclares.declares
    exact ⟨line, mem_linesOf_joinLines (hlines (List.mem_singleton_self _)) hline, hstart⟩

/-- **A model is imported for a field** if the field names it. -/
theorem needsImport_iff :
    f.needsImport = true ∧ f.type.type = symbol ↔ writtenType f = .named symbol := by
  unfold Field.needsImport writtenType
  cases f.enumValues with
  | some values => simp
  | none =>
    cases f.scalarType with
    | some scalar => simp
    | none =>
      cases f.nestedModel with
      | some nested => simp
      | none =>
        cases f.type.primitive with
        | true => simp
        | false => cases f.type.isReference <;> simp

theorem nestedModel_of_written {n : Model} (h : writtenType f = .nested n) :
    f.nestedModel = some n := by
  unfold writtenType at h
  split at h
  · cases h
  · cases h
  · rename_i hnested
    cases h
    exact hnested
  · split at h
    · cases h
    · split at h <;> cases h

/-- The types of the fields are in scope: the code is made of declarations, of which each writes the
types of its fields and stands below those of their nested models. The models that the fields name are
imported, and nothing else besides the library. -/
structure WellScoped (conventions : Conventions) (m : Model) (code : GeneratedCode)
    (blocks : List Block) : Prop where
  models : blocks.map Block.model = declared m
  laid : code.code = joinLines (blockLines blocks)
  declaring : ∀ b ∈ blocks, Declaring b
  typed : ∀ b ∈ blocks, ∀ f ∈ b.model.fields, ∃ remark,
    "      type: " ++ (writtenType f).text f.name ++ "," ++ remark ∈ b.lines
  hoisted : ∀ above b below, blocks = above ++ b :: below → ∀ f ∈ b.model.fields, ∀ n,
    writtenType f = .nested n → DeclaresIn (joinLines (blockLines above)) n.name
  imported : ∀ b ∈ blocks, ∀ f ∈ b.model.fields, ∀ symbol, writtenType f = .named symbol →
    modelImport .declaration conventions symbol ∈ code.imports
  used : ∀ line ∈ code.imports, line ∈ Dialect.declaration.baseImports
    ∨ ∃ b ∈ blocks, ∃ f ∈ b.model.fields, ∃ symbol, writtenType f = .named symbol
        ∧ modelImport .declaration conventions symbol = line

/-- The type of a field stands in the declaration of its model. -/
theorem exists_typed {b : Block} (h : Declaring b) (hf : f ∈ b.model.fields) :
    ∃ remark, "      type: " ++ (writtenType f).text f.name ++ "," ++ remark ∈ b.lines := by
  obtain ⟨remark, htype, -⟩ := fieldType_eq f
  have hline : "      type: " ++ fieldType f ∈ fieldLines f := by simp [fieldLines, toString]
  rw [htype, ← String.append_assoc, ← String.append_assoc] at hline
  cases h with
  | object opens =>
    exact ⟨remark, List.mem_append_left _ (List.mem_append_right _
      (List.mem_flatMap.mpr ⟨f, hf, hline⟩))⟩
  | leaf _ empty => exact absurd (empty ▸ hf) List.not_mem_nil
  | reference _ empty _ => exact absurd (empty ▸ hf) List.not_mem_nil

theorem exists_wellScoped (hbare : BareReferences schema)
    (hproperties : (Schema.properties? schema).isSome = true)
    (h : generateModel conventions schema name given = .ok code) :
    ∃ m blocks, model schema name given = .ok m ∧ WellScoped conventions m code blocks := by
  obtain ⟨m, hm, h⟩ := bind_eq_ok.mp h
  obtain ⟨blocks, layout⟩ := exists_layout hm
  have hdeclares := declares_of_bare hm hbare hproperties
  -- models and blocks are the same in turn, so what is said of the one is said of the other
  have hblock : ∀ b ∈ blocks, b.model ∈ declared m := by
    rw [← layout.models]
    exact fun b hb => List.mem_map_of_mem hb
  have himports : ∀ line, line ∈ code.imports ↔ line ∈ [libraryImport] ∨ ∃ symbol,
      Imports m symbol ∧ modelImport .declaration conventions symbol = line := by
    rw [← Except.ok.inj h]
    exact fun line => mem_fieldImports
  have hnamed : ∀ symbol, Imports m symbol
      ↔ ∃ b ∈ blocks, ∃ f ∈ b.model.fields, writtenType f = .named symbol := by
    intro symbol
    unfold Imports
    constructor
    · rintro ⟨f, hf, hneeds⟩
      obtain ⟨d, hd, hf⟩ := (mem_allFields hm).mp hf
      rw [← layout.models] at hd
      obtain ⟨b, hb, rfl⟩ := List.mem_map.mp hd
      exact ⟨b, hb, f, hf, needsImport_iff.mp hneeds⟩
    · rintro ⟨b, hb, f, hf, hwritten⟩
      exact ⟨f, (mem_allFields hm).mpr ⟨_, hblock b hb, hf⟩, needsImport_iff.mpr hwritten⟩
  refine ⟨m, blocks, hm, layout.models, ?_, layout.declaring,
    fun b hb f hf => exists_typed (layout.declaring b hb) hf, ?_, ?_, ?_⟩
  · rw [← Except.ok.inj h]
    exact layout.code
  · intro above b below hblocks f hf n hwritten
    obtain ⟨a, ha, rfl⟩ := layout.ordered above b below hblocks f hf n
      (nestedModel_of_written hwritten)
    have hmem : a ∈ blocks := hblocks ▸ List.mem_append_left _ ha
    obtain ⟨hown, hone⟩ := hdeclares _ (hblock a hmem)
    exact declaresIn_of_declaring ha (layout.declaring a hmem) hown hone
  · exact fun b hb f hf symbol hwritten =>
      (himports _).mpr (.inr ⟨symbol, (hnamed symbol).mpr ⟨b, hb, f, hf, hwritten⟩, rfl⟩)
  · intro line hline
    rcases (himports line).mp hline with hbase | ⟨symbol, hsymbol, rfl⟩
    · exact .inl hbase
    · obtain ⟨b, hb, f, hf, hwritten⟩ := (hnamed symbol).mp hsymbol
      exact .inr ⟨b, hb, f, hf, symbol, hwritten, rfl⟩

end Declaration

namespace Zod

/-! ## Validators -/

/-- The expression of a reference. -/
def lazyReference (pointer : String) : String :=
  "z.lazy(() => " ++ referenceSymbol pointer ++ "Schema)"

/-- **A validator refers to the references that it is written out with.** -/
theorem refers_iff {pointer : String} :
    Refers pointer schema
      ↔ ∃ node, WrittenWith node schema ∧ Reference.pointer? node = some pointer := by
  constructor
  · intro h
    induction h with
    | reference found => exact ⟨_, .self, found⟩
    | property other found mem _ ih =>
      obtain ⟨node, hwritten, hpointer⟩ := ih
      exact ⟨node, .property other found mem hwritten, hpointer⟩
    | items other absent unlisted array items _ ih =>
      obtain ⟨node, hwritten, hpointer⟩ := ih
      exact ⟨node, .item other absent unlisted array items hwritten, hpointer⟩
  · rintro ⟨node, hwritten, hpointer⟩
    induction hwritten with
    | self => exact .reference hpointer
    | property other found member _ ih => exact .property other found member ih
    | item other single unlisted array found _ ih =>
      exact .items other single unlisted array found ih

/-- A reference is written out by its symbol. -/
theorem lazyReference_of_written {pointer : String} {root : Value}
    (h : generateModel conventions schema name given = .ok code) (hroot : Root schema root)
    (hwritten : WrittenWith node root) (hpointer : Reference.pointer? node = some pointer) :
    (lazyReference pointer).toList <:+: code.code.toList := by
  obtain ⟨isRequired, e, he, hcode⟩ := expression_of_generateModel h hroot hwritten
  rw [expression, hpointer] at he
  rw [← pure_eq_ok.mp he] at hcode
  refine List.IsInfix.trans ?_ hcode
  dsimp only
  rw [String.toList_append]
  exact (List.prefix_append _ _).isInfix

/-- The references of a validator are in scope: their models are imported, and nothing else besides
the libraries. -/
structure WellScoped (conventions : Conventions) (properties : Members) (code : GeneratedCode) :
    Prop where
  imported : ∀ p ∈ properties, ∀ node pointer, WrittenWith node p.2 →
    Reference.pointer? node = some pointer → (lazyReference pointer).toList <:+: code.code.toList
      ∧ modelImport .zod conventions (referenceSymbol pointer) ∈ code.imports
  used : ∀ line ∈ code.imports, line ∈ Dialect.zod.baseImports
    ∨ ∃ p ∈ properties, ∃ node pointer, WrittenWith node p.2
        ∧ Reference.pointer? node = some pointer
        ∧ modelImport .zod conventions (referenceSymbol pointer) = line

theorem wellScoped {properties : Members} (hproperties : Schema.properties? schema = some properties)
    (h : generateModel conventions schema name given = .ok code) :
    WellScoped conventions properties code := by
  have hcode : Dialect.zod.generateModel conventions schema name given = .ok code := h
  have himports : ∀ line, line ∈ code.imports ↔ line ∈ Dialect.zod.baseImports
      ∨ ∃ pointer, ModelRefers pointer schema
          ∧ modelImport .zod conventions (referenceSymbol pointer) = line :=
    fun line => mem_imports_iff (.inr rfl) hcode
  constructor
  · intro p hp node pointer hwritten hpointer
    refine ⟨lazyReference_of_written h (.property hproperties hp) hwritten hpointer, ?_⟩
    exact (himports _).mpr (.inr ⟨pointer, .property hproperties hp
      (refers_iff.mpr ⟨node, hwritten, hpointer⟩), rfl⟩)
  · intro line hline
    rcases (himports line).mp hline with hbase | ⟨pointer, hrefers, rfl⟩
    · exact .inl hbase
    · cases hrefers with
      | property found mem refers =>
        cases hproperties.symm.trans found
        obtain ⟨node, hwritten, hpointer⟩ := refers_iff.mp refers
        exact .inr ⟨_, mem, node, pointer, hwritten, hpointer, rfl⟩
      | other absent _ _ _ => cases hproperties.symm.trans absent

end Zod

/-! ## Both dialects -/

/-- **The types of the fields of a generated model are in scope**, for every object in which references
stand alone. In a declaration, the type of a field is declared above or imported; in a validator it is
imported. No other model is imported. -/
theorem wellScoped_of_generateModel {properties : Members}
    (hproperties : Schema.properties? schema = some properties) (hbare : BareReferences schema)
    (conventions : Conventions) (name : String) (given : Value) :
    (∀ code, Dialect.declaration.generateModel conventions schema name given = .ok code →
      ∃ m blocks, Declaration.model schema name given = .ok m
        ∧ Declaration.WellScoped conventions m code blocks)
    ∧ ∀ code, Dialect.zod.generateModel conventions schema name given = .ok code →
      Zod.WellScoped conventions properties code :=
  ⟨fun _ h => Declaration.exists_wellScoped hbare (by rw [hproperties]; rfl) h,
    fun _ h => Zod.wellScoped hproperties h⟩

/-! ## An order -/

def cityProperties : Members := [(.str "city", .map [(.str "type", .str "string")])]

def addressSchema : Value :=
  .map [(.str "type", .str "object"), (.str "properties", .map cityProperties)]

/-- A customer in another file, and an address of its own. -/
def orderProperties : Members :=
  [(.str "customer", Contract.componentReference "Customer"), (.str "address", addressSchema)]

def orderSchema : Value :=
  .map [(.str "type", .str "object"), (.str "properties", .map orderProperties)]

theorem bareReferences_order : BareReferences orderSchema := by
  have hcity : BareReferences (.map [(.str "type", .str "string")]) := .mk nofun nofun nofun
  have haddress : BareReferences addressSchema := by
    refine .mk nofun nofun fun ps hps => ?_
    cases hps
    exact List.forall_mem_singleton.mpr hcity
  have hcustomer : BareReferences (Contract.componentReference "Customer") :=
    .mk (fun _ _ => ⟨_, rfl⟩) nofun nofun
  refine .mk nofun nofun fun ps hps => ?_
  cases hps
  exact List.forall_mem_cons.mpr ⟨hcustomer, List.forall_mem_singleton.mpr haddress⟩

theorem succeeds_declaration_order :
    Succeeds (Declaration.generateModel {} orderSchema "Order" .null) := by
  have hcity : Schema.Exported ["Customer"] (.map [(.str "type", .str "string")]) :=
    .leaf ⟨⟨by simp, rfl⟩, fun t ht => ⟨"string", (Option.some.inj ht).symm, by decide⟩, rfl, rfl,
      nofun, nofun⟩
  have haddress : Schema.ObjectNode
      [(.str "type", .str "object"), (.str "properties", .map cityProperties)] cityProperties :=
    ⟨⟨by simp, rfl⟩, rfl, rfl, rfl, rfl, nofun, nofun⟩
  have horder : Schema.ObjectNode
      [(.str "type", .str "object"), (.str "properties", .map orderProperties)] orderProperties :=
    ⟨⟨by simp, rfl⟩, rfl, rfl, rfl, rfl, nofun, nofun⟩
  have hproperties : ∀ p ∈ orderProperties, Schema.Exported ["Customer"] p.2 :=
    List.forall_mem_cons.mpr ⟨.reference (List.mem_singleton_self _),
      List.forall_mem_singleton.mpr (.object haddress (List.forall_mem_singleton.mpr hcity))⟩
  exact Declaration.succeeds_generateModel horder hproperties {} "Order"

theorem Zod.succeeds_memberExpressions {properties : Members}
    (h : ∀ p ∈ properties, ∀ required, Succeeds (expression p.2 required)) (keys : List Scalar) :
    Succeeds (memberExpressions keys properties) := by
  induction properties with
  | nil =>
    rw [memberExpressions]
    exact succeeds_pure _
  | cons p rest ih =>
    obtain ⟨key, node⟩ := p
    obtain ⟨value, hvalue⟩ := h (key, node) List.mem_cons_self (Schema.isRequired keys key)
    obtain ⟨more, hmore⟩ := ih fun p hp => h p (List.mem_cons_of_mem _ hp)
    rw [memberExpressions]
    exact succeeds_bind.mpr ⟨value, hvalue, succeeds_bind.mpr ⟨more, hmore, succeeds_pure _⟩⟩

theorem succeeds_zod_order : Succeeds (Zod.generateModel {} orderSchema "Order" .null) := by
  have hcity : ∀ p ∈ cityProperties, ∀ required, Succeeds (Zod.expression p.2 required) := by
    refine List.forall_mem_singleton.mpr fun required => ?_
    rw [Zod.expression]
    exact ⟨_, rfl⟩
  have horder : ∀ p ∈ orderProperties, ∀ required, Succeeds (Zod.expression p.2 required) := by
    refine List.forall_mem_cons.mpr ⟨fun required => ?_,
      List.forall_mem_singleton.mpr fun required => ?_⟩
    · rw [Zod.expression]
      exact ⟨_, rfl⟩
    · obtain ⟨es, hes⟩ := Zod.succeeds_memberExpressions hcity []
      rw [Zod.expression_of_properties rfl rfl]
      exact succeeds_bind.mpr ⟨[], rfl, succeeds_bind.mpr ⟨es, hes, _, rfl⟩⟩
  obtain ⟨es, hes⟩ := Zod.succeeds_memberExpressions horder []
  exact ⟨_, bind_eq_ok.mpr ⟨_, bind_eq_ok.mpr ⟨[], rfl, bind_eq_ok.mpr ⟨es, hes, rfl⟩⟩, rfl⟩⟩

/-- An order with an address: both kinds of code are generated, and have their types in scope. -/
theorem wellScoped_of_order :
    Schema.properties? orderSchema = some orderProperties ∧ BareReferences orderSchema
    ∧ (∃ code m blocks, Dialect.declaration.generateModel {} orderSchema "Order" .null = .ok code
      ∧ Declaration.model orderSchema "Order" .null = .ok m
      ∧ Declaration.WellScoped {} m code blocks)
    ∧ ∃ code, Dialect.zod.generateModel {} orderSchema "Order" .null = .ok code
      ∧ Zod.WellScoped {} orderProperties code := by
  obtain ⟨declaration, hdeclaration⟩ := succeeds_declaration_order
  obtain ⟨validator, hvalidator⟩ := succeeds_zod_order
  obtain ⟨hdeclared, hvalidated⟩ :=
    wellScoped_of_generateModel rfl bareReferences_order {} "Order" .null
  obtain ⟨m, blocks, hm, hscoped⟩ := hdeclared declaration hdeclaration
  exact ⟨rfl, bareReferences_order, ⟨declaration, m, blocks, hdeclaration, hm, hscoped⟩,
    validator, hvalidator, hvalidated validator hvalidator⟩

end ApiContract.Codegen
