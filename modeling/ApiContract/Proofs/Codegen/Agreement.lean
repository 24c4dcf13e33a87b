import ApiContract.Proofs.Codegen.Alike

/-!
# The declaration and the model of one schema

The declaration and the model of an object have a field for every property. They agree exactly if the
properties have different names and each is read alike, which is shown one level at a time: a property
comes down to the model of its node or of its items, and a model to its properties.

* **`fieldsAlike_of`** / **`modelsAlike_of`** — one step down.
* **`FieldsOf.sameOutlines`** — what is said alike in any case.
* **`modelsAlike`** — by induction on the schema.
-/

namespace ApiContract.Codegen.Declaration

open Contract (FieldSpec SchemaModel)
open Schema (typeOf properties? enumValues BuiltAs OfScalar fieldWithin modelWithin)

variable {v w : Value} {name parent : String} {required : Bool} {f : Field} {spec : FieldSpec}

/-! ## Nodes that are no lists -/

theorem readAlike_single_iff (hmap : v.isMap = true) (hsingle : (typeOf v).1 ≠ some "array")
    (hunlisted : (v.field "enum").isTruthy = false) : ReadAlike v ↔ SingleAlike v := by
  refine ⟨fun halike => ?_, .single hmap hsingle⟩
  cases halike with
  | other other => exact absurd (hmap.symm.trans other) (by decide)
  | values _ _ listed => exact absurd (hunlisted.symm.trans listed) (by decide)
  | single _ _ alike => exact alike
  | bareList array _ _ => exact absurd array hsingle
  | list array _ _ => exact absurd array hsingle

theorem sameType_of_single (hinline : IsInline v) (hsingle : (typeOf v).1 ≠ some "array")
    (ih : ModelsAlike v) (hwritten : WrittenAs v name parent f) (hbuilt : BuiltAs v spec) :
    SameType f spec ↔ ReadAlike v := by
  have htarget := nestTarget?_of_single hinline hsingle
  cases hwritten with
  | values _ listed written =>
    exact ⟨fun _ => .values hinline.1 hsingle (Schema.isTruthy_of_listed listed),
      fun _ => .values (hbuilt.values_of_listed listed) written⟩
  | nested unlisted found nests built written =>
    cases htarget.symm.trans found
    rw [readAlike_single_iff hinline.1 hsingle unlisted]
    exact sameType_iff hinline hsingle unlisted ih (.nested nests built written) hbuilt
  | scalar unlisted single written =>
    rw [readAlike_single_iff hinline.1 hsingle unlisted]
    exact sameType_iff hinline hsingle unlisted ih (.scalar (single v htarget) written) hbuilt

/-! ## Lists -/

/-- Items of a list without values, if they are no lists. -/
theorem itemsAlike_iff (hunlisted : (v.field "enum").isTruthy = false) {item : Value}
    (hsingle : (typeOf item).1 ≠ some "array") :
    ItemsAlike v item ↔
      if (item.field "enum").isTruthy = true then Nests item else SingleAlike item := by
  constructor
  · intro halike
    cases halike with
    | lists _ list _ => exact absurd list hsingle
    | single _ _ alike =>
      have hitem : (item.field "enum").isTruthy = false := by
        cases alike with
        | leaf unlisted _ _ => exact unlisted
        | object unlisted _ _ _ _ => exact unlisted
      rw [if_neg (by rw [hitem]; decide)]
      exact alike
    | values _ listed nests =>
      rw [if_pos listed]
      exact nests
    | listed listed _ _ _ =>
      exact absurd (hunlisted.symm.trans (Schema.isTruthy_of_listed listed)) (by decide)
  · intro halike
    split at halike
    · rename_i hlisted
      exact .values hunlisted hlisted halike
    · exact .single hunlisted hsingle halike

/-- Items that are lists. -/
theorem itemsAlike_lists_iff {item : Value} (hlist : (typeOf item).1 = some "array") :
    ItemsAlike v item ↔ (v.field "enum").isTruthy = false ∧ Schema.scalarType item = none := by
  refine ⟨fun halike => ?_, fun ⟨unlisted, unscaled⟩ => .lists unlisted hlist unscaled⟩
  cases halike with
  | lists unlisted _ unscaled => exact ⟨unlisted, unscaled⟩
  | single _ single _ => exact absurd hlist single
  | values unlisted _ nests => exact ⟨unlisted, nests.scalarType⟩
  | listed _ single _ _ => exact absurd hlist single

/-- Items of a list with values. -/
theorem itemsAlike_listed_iff {values : List Value} (hlisted : enumValues v = .ok (some values))
    {item : Value} (hsingle : (typeOf item).1 ≠ some "array") :
    ItemsAlike v item ↔ ∃ itemValues, enumValues item = .ok (some itemValues)
      ∧ values.map Value.text = itemValues.map Value.text := by
  have hlisted' : (v.field "enum").isTruthy ≠ false := by
    rw [Schema.isTruthy_of_listed hlisted]
    decide
  refine ⟨fun halike => ?_, fun ⟨_, items, same⟩ => .listed hlisted hsingle items same⟩
  cases halike with
  | lists unlisted _ _ => exact absurd unlisted hlisted'
  | single unlisted _ _ => exact absurd unlisted hlisted'
  | values unlisted _ _ => exact absurd unlisted hlisted'
  | listed listed _ items same =>
    cases hlisted.symm.trans listed
    exact ⟨_, items, same⟩

section Lists

variable (harray : (typeOf v).1 = some "array") (hfree : RefFree v)

include harray hfree

/-- A list whose items say nothing. -/
theorem readAlike_bareList_iff (hbare : ∀ members, v.get? "items" ≠ some (.map members)) :
    ReadAlike v ↔ (v.field "enum").isTruthy = false := by
  refine ⟨fun halike => ?_, fun hunlisted => .bareList harray hunlisted hbare⟩
  have hinline := isInline_of_array hfree.other harray
  cases halike with
  | other other => exact absurd (hinline.1.symm.trans other) (by decide)
  | values _ single _ => exact absurd harray single
  | single _ single _ => exact absurd harray single
  | bareList _ unlisted _ => exact unlisted
  | list _ items _ => exact absurd items (hbare _)

theorem sameType_of_bareList (hwritten : WrittenAs v name parent f)
    (hbare : ∀ members, v.get? "items" ≠ some (.map members)) (hbuilt : OfScalar .unknown spec) :
    SameType f spec ↔ ReadAlike v := by
  have hinline := isInline_of_array hfree.other harray
  rw [sameType_scalar_iff hbuilt, readAlike_bareList_iff harray hfree hbare]
  cases hwritten with
  | values _ listed written =>
    rw [written, Schema.isTruthy_of_listed listed]
    exact ⟨nofun, nofun⟩
  | @nested target _ _ found _ _ _ =>
    rw [nestTarget?_of_array hinline harray] at found
    obtain ⟨hitems, hmap⟩ := Option.filter_eq_some_iff.mp found
    obtain ⟨members, rfl⟩ := Schema.exists_members hmap
    exact absurd hitems (hbare members)
  | scalar unlisted _ written =>
    rw [written, scalarType_of_no_items hinline harray hbare]
    exact ⟨fun _ => unlisted, fun _ => rfl⟩

variable {members : Members} (hitems : v.get? "items" = some (.map members))

include hitems

theorem readAlike_list_iff : ReadAlike v ↔ ItemsAlike v (.map members) := by
  refine ⟨fun halike => ?_, .list harray hitems⟩
  have hinline := isInline_of_array hfree.other harray
  cases halike with
  | other other => exact absurd (hinline.1.symm.trans other) (by decide)
  | values _ single _ => exact absurd harray single
  | single _ single _ => exact absurd harray single
  | bareList _ _ bare => exact absurd hitems (bare members)
  | list _ items alike =>
    cases hitems.symm.trans items
    exact alike

theorem nestTarget?_of_list : nestTarget? v = some (.map members) := by
  rw [nestTarget?_of_array (isInline_of_array hfree.other harray) harray, hitems]
  rfl

/-- A list of lists. -/
theorem sameType_of_lists (hlist : (typeOf (.map members)).1 = some "array")
    (hwritten : WrittenAs v name parent f) (hbuilt : OfScalar .json spec) :
    SameType f spec ↔ ReadAlike v := by
  have htarget := nestTarget?_of_list harray hfree hitems
  rw [sameType_scalar_iff hbuilt, readAlike_list_iff harray hfree hitems,
    itemsAlike_lists_iff hlist]
  cases hwritten with
  | values _ listed written =>
    rw [written, Schema.isTruthy_of_listed listed]
    exact ⟨nofun, nofun⟩
  | nested _ found nests _ _ =>
    cases htarget.symm.trans found
    exact absurd ((isArray_iff.mpr hlist).symm.trans nests.not_isArray) (by decide)
  | scalar unlisted _ written =>
    have hscalar := scalarType_of_array (isInline_of_array hfree.other harray) harray hitems
    rw [written, WrittenType.scalar.injEq, hscalar]
    show _ = scalarCode .jsonObject ↔ _
    rw [scalarCode_jsonObject_iff fun s hs => writtenScalar_of_scalarType hs]
    exact ⟨fun hnone => ⟨unlisted, hnone⟩, fun halike => halike.2⟩

/-- A list with values, of nodes that are no lists. -/
theorem sameType_of_listed {values : List Value} (hlisted : enumValues v = .ok (some values))
    (hwritten : writtenType f = .values (values.map Value.text))
    (hsingle : (typeOf (.map members)).1 ≠ some "array") (hbuilt : BuiltAs (.map members) spec) :
    SameType f spec ↔ ReadAlike v := by
  rw [readAlike_list_iff harray hfree hitems, itemsAlike_listed_iff hlisted hsingle]
  constructor
  · intro hsame
    cases hsame with
    | values built written =>
      cases hwritten.symm.trans written
      cases hbuilt with
      | values listed built' _ _ => exact ⟨_, listed, Option.some.inj (built.symm.trans built')⟩
      | nested _ _ _ _ values _ => cases values.symm.trans built
      | scalar _ _ _ values _ => cases values.symm.trans built
    | hoisted _ written _ => cases hwritten.symm.trans written
    | nested _ written _ => cases hwritten.symm.trans written
    | scalar _ written => cases hwritten.symm.trans written
  · rintro ⟨itemValues, hitemValues, hsame⟩
    exact .values (hsame ▸ hbuilt.values_of_listed hitemValues) hwritten

/-- A list of nodes that are no lists. -/
theorem sameType_of_items (hsingle : (typeOf (.map members)).1 ≠ some "array")
    (ih : ModelsAlike (.map members)) (hwritten : WrittenAs v name parent f)
    (hbuilt : BuiltAs (.map members) spec) : SameType f spec ↔ ReadAlike v := by
  have hitemsInline : IsInline (.map members) := ⟨rfl, (hfree.items hitems).other⟩
  have htarget := nestTarget?_of_list harray hfree hitems
  have hunlistedCase : (v.field "enum").isTruthy = false → WrittenFor (.map members) f →
      (SameType f spec ↔ ReadAlike v) := by
    intro hunlisted hitem
    rw [readAlike_list_iff harray hfree hitems, itemsAlike_iff hunlisted hsingle]
    split
    · rename_i hlisted
      exact sameType_iff_of_listed hitemsInline hlisted hitem hbuilt
    · rename_i hlisted
      exact sameType_iff hitemsInline hsingle (by simpa using hlisted) ih hitem hbuilt
  cases hwritten with
  | values _ listed written =>
    exact sameType_of_listed harray hfree hitems listed written hsingle hbuilt
  | nested unlisted found nests built written =>
    cases htarget.symm.trans found
    exact hunlistedCase unlisted (.nested nests built written)
  | scalar unlisted single written =>
    rw [scalarType_of_array (isInline_of_array hfree.other harray) harray hitems] at written
    exact hunlistedCase unlisted (.scalar (single _ htarget) written)

end Lists

/-! ## Fields -/

/-- The declared and the built field of a property agree if the property is read alike. -/
def FieldsAlike (v : Value) : Prop :=
  ∀ name required parent f fuel c parent' spec, DeclaredField v name required parent f →
    fieldWithin fuel c v name required parent' = .ok spec →
      (SameField f (name, spec) ↔ ReadAlike v)

/-- **The fields of a property** agree if it is read alike, as long as its nested models do. -/
theorem fieldsAlike_of (hfree : RefFree v) (ih : ∀ w, nestTarget? v = some w → ModelsAlike w) :
    FieldsAlike v := by
  intro name required parent f fuel c parent' spec hdeclared hfield
  have hwritten := writtenAs (fun _ => hfree.not_itemRefers) hdeclared
  have htype : SameField f (name, spec) ↔ SameType f spec := by
    refine ⟨fun hsame => ?_, .mk (sameOutline hfree.other hdeclared hfield)⟩
    cases hsame with
    | mk _ type => exact type
  rw [htype]
  cases hmap : v.isMap with
  | false =>
    obtain ⟨hbuilt, -, -⟩ := Schema.ofScalar_of_not_map hmap hfield
    rw [sameType_scalar_iff hbuilt]
    refine ⟨fun _ => .other hmap, fun _ => ?_⟩
    cases hwritten with
    | values inline _ _ => exact absurd (inline.1.symm.trans hmap) (by decide)
    | nested _ found _ _ _ =>
      exact absurd ((isInline_of_nestTarget? found).1.symm.trans hmap) (by decide)
    | scalar _ _ written =>
      rw [written, Schema.scalarType, hmap]
      rfl
  | true =>
    have hinline : IsInline v := ⟨hmap, hfree.other⟩
    by_cases hlist : (typeOf v).1 = some "array"
    · by_cases hitems : ∃ members, v.get? "items" = some (.map members)
      · obtain ⟨members, hitems⟩ := hitems
        have hitemsFree := (hfree.items hitems).other
        by_cases hlists : (typeOf (.map members)).1 = some "array"
        · exact sameType_of_lists hlist hfree hitems hlists hwritten
            (Schema.ofScalar_of_lists hmap hfree.other hlist hitems hitemsFree hlists hfield)
        · exact sameType_of_items hlist hfree hitems hlists
            (ih _ (nestTarget?_of_list hlist hfree hitems)) hwritten
            (Schema.builtAs_of_items hmap hfree.other hlist hitems hitemsFree hlists hfield)
      · have hbare : ∀ members, v.get? "items" ≠ some (.map members) :=
          fun members hget => hitems ⟨members, hget⟩
        exact sameType_of_bareList hlist hfree hwritten hbare
          (Schema.ofScalar_of_no_items hmap hfree.other hlist hbare hfield)
    · obtain ⟨hbuilt, -, -⟩ := Schema.builtAs_of_single hmap hfree.other hlist hfield
      exact sameType_of_single hinline hlist (ih v (nestTarget?_of_single hinline hlist)) hwritten
        hbuilt

/-! ## Models -/

/-- Two lists that come from one, item by item, are related as their items are. -/
theorem forall₂_iff_of_forall₂ {α β γ : Type} {P : α → β → Prop} {Q : α → γ → Prop}
    {R : β → γ → Prop} {C : α → Prop} {xs : List α} {ys : List β} {zs : List γ}
    (hys : List.Forall₂ P xs ys) (hzs : List.Forall₂ Q xs zs)
    (h : ∀ x ∈ xs, ∀ y z, P x y → Q x z → (R y z ↔ C x)) :
    List.Forall₂ R ys zs ↔ ∀ x ∈ xs, C x := by
  induction hys generalizing zs with
  | nil =>
    cases hzs
    simp
  | cons hy _ ih =>
    cases hzs with
    | cons hz hrest =>
      rw [List.forall₂_cons, List.forall_mem_cons, h _ List.mem_cons_self _ _ hy hz,
        ih hrest fun x hx => h x (List.mem_cons_of_mem _ hx)]

theorem map_eq_of_forall₂ {α β γ : Type} {R : α → β → Prop} {f : α → γ} {g : β → γ} {xs : List α}
    {ys : List β} (h : List.Forall₂ R xs ys) (heq : ∀ x y, R x y → f x = g y) :
    xs.map f = ys.map g := by
  induction h with
  | nil => rfl
  | cons hhead _ ih => rw [List.map_cons, List.map_cons, heq _ _ hhead, ih]

/-- The fields that are declared and built for the properties of an object. -/
structure FieldsOf (properties : Members) (m : Model) (built : SchemaModel)
    (specs : List (String × FieldSpec)) : Prop where
  code : ∃ description, objectModel m.name description m.fields = .ok m
  entries : built.fields = Named.ofList specs
  each : ∃ required : Scalar → Bool,
    List.Forall₂ (fun p f => ∃ parent, DeclaredField p.2 p.1.text (required p.1) parent f)
      properties m.fields
    ∧ List.Forall₂ (fun p entry => entry.1 = p.1.text
        ∧ ∃ fuel c parent, fieldWithin fuel c p.2 p.1.text (required p.1) parent = .ok entry.2)
      properties specs

section Objects

variable {m : Model} {built : SchemaModel} {specs : List (String × FieldSpec)} {properties : Members}
  (hother : Reference.pointer? w = none) (hunlisted : (w.field "enum").isTruthy = false)
  (hfound : properties? w = some properties) (hmodel : model w name .null = .ok m) {fuel : Nat}
  {c : Schema.Context} {name' : String} (hbuilt : modelWithin fuel c w name' = .ok built)

include hother hunlisted hfound hmodel hbuilt in
theorem exists_fieldsOf : ∃ specs, FieldsOf properties m built specs := by
  obtain ⟨keys, fuel', specs, hkeys, hspecs, hbuiltFields⟩ :=
    Schema.exists_fields_of_modelWithin hfound hbuilt
  refine ⟨specs, objectModel_of_properties hother hunlisted hfound hmodel, hspecs,
    Schema.isRequired keys, ?_, hbuiltFields.imp fun p entry h => ⟨h.1, _, _, _, h.2⟩⟩
  cases declaredModel hmodel with
  | reference found => cases hother.symm.trans found
  | leaf _ leaf _ _ =>
    rcases leaf with hlisted | ⟨habsent, -⟩
    · exact absurd (hunlisted.symm.trans hlisted) (by decide)
    · cases habsent.symm.trans hfound
  | list _ _ absent _ _ _ _ => cases absent.symm.trans hfound
  | object _ _ found required fields _ =>
    cases hfound.symm.trans found
    cases hkeys.symm.trans required
    exact (forall₂_fieldsOf fields).imp fun p f h => ⟨_, declaredField h⟩

variable (h : FieldsOf properties m built specs)

include h

theorem FieldsOf.names : properties.map (·.1.text) = specs.map (·.1) := by
  obtain ⟨required, -, hbuiltFields⟩ := h.each
  exact map_eq_of_forall₂ hbuiltFields fun p entry hentry => hentry.1.symm

/-- Properties with different names are all built. -/
theorem FieldsOf.fields_eq (hnodup : (properties.map (·.1.text)).Nodup) : built.fields = specs := by
  rw [h.names] at hnodup
  rw [h.entries, Named.ofList_of_nodup hnodup]

/-- **All but the types** of properties with different names is said alike, in order. -/
theorem FieldsOf.sameOutlines (hnodup : (properties.map (·.1.text)).Nodup)
    (hfree : ∀ p ∈ properties, Reference.pointer? p.2 = none) :
    List.Forall₂ SameOutline m.fields built.fields := by
  obtain ⟨required, hdeclaredFields, hbuiltFields⟩ := h.each
  rw [h.fields_eq hnodup, forall₂_iff_of_forall₂ hdeclaredFields hbuiltFields]
  · exact fun p hp => hfree p hp
  · intro p hp f entry ⟨parent, hf⟩ ⟨hname, fuel, c, parent', hentry⟩
    have hsame := sameOutline (hfree p hp) hf hentry
    rw [← hname] at hsame
    exact ⟨fun _ => hfree p hp, fun _ => hsame⟩

theorem FieldsOf.sameModel_iff (hnodup : (properties.map (·.1.text)).Nodup)
    (ih : ∀ p ∈ properties, FieldsAlike p.2) :
    SameModel m built ↔ ∀ p ∈ properties, ReadAlike p.2 := by
  obtain ⟨required, hdeclaredFields, hbuiltFields⟩ := h.each
  obtain ⟨description, hcode⟩ := h.code
  have hsame : SameModel m built ↔ List.Forall₂ SameField m.fields built.fields := by
    refine ⟨fun hsame => ?_, .mk hcode⟩
    cases hsame with
    | mk _ hfields => exact hfields
  rw [hsame, h.fields_eq hnodup]
  refine forall₂_iff_of_forall₂ hdeclaredFields hbuiltFields ?_
  intro p hp f entry ⟨parent, hf⟩ ⟨hname, fuel, c, parent', hentry⟩
  rw [← ih p hp _ _ _ _ _ _ _ _ hf hentry, ← hname]

/-- Models that agree have every name once. -/
theorem FieldsOf.nodup_of_sameModel (hsame : SameModel m built) :
    (properties.map (·.1.text)).Nodup := by
  obtain ⟨required, hdeclaredFields, -⟩ := h.each
  cases hsame with
  | mk _ hfields =>
    have hnames : m.fields.map (·.name) = built.fields.map (·.1) := by
      refine map_eq_of_forall₂ hfields fun f entry hf => ?_
      cases hf with
      | mk outline _ => exact outline.name
    have hdeclaredNames : properties.map (·.1.text) = m.fields.map (·.name) :=
      map_eq_of_forall₂ hdeclaredFields fun p f ⟨_, hf⟩ => (name_of_declared hf).symm
    rw [hdeclaredNames, hnames, h.entries]
    exact Named.nodup_ofList specs

end Objects

/-- **The models of an object** agree if its properties have different names and are read alike. -/
theorem modelsAlike_of (hother : Reference.pointer? w = none)
    (ih : ∀ properties, properties? w = some properties → ∀ p ∈ properties, FieldsAlike p.2) :
    ModelsAlike w := by
  intro name m fuel c name' built hunlisted hnests hmodel hbuilt
  obtain ⟨properties, hfound⟩ := Option.isSome_iff_exists.mp hnests.1
  obtain ⟨specs, hfields⟩ := exists_fieldsOf hother hunlisted hfound hmodel hbuilt
  constructor
  · intro hsame
    have hnodup := hfields.nodup_of_sameModel hsame
    exact .object hunlisted hnests hfound hnodup
      ((hfields.sameModel_iff hnodup (ih properties hfound)).mp hsame)
  · intro halike
    cases halike with
    | leaf _ absent _ => cases absent.symm.trans hfound
    | object _ _ found nodup alike =>
      cases hfound.symm.trans found
      exact (hfields.sameModel_iff nodup (ih properties hfound)).mpr alike

/-- **The declaration and the model of an object**, by induction on the schema. -/
theorem modelsAlike (hfree : RefFree v) : ModelsAlike v := by
  induction hsize : v.size using Nat.strongRecOn generalizing v with
  | ind n ih =>
    subst hsize
    refine modelsAlike_of hfree.other fun properties hfound p hp => ?_
    have hlt : p.2.size < v.size := Nat.lt_of_le_of_lt (size_le_membersSize (k := p.1) hp)
      (Schema.membersSize_lt_of_properties? hfound)
    have hnode := hfree.property hfound hp
    refine fieldsAlike_of hnode fun target htarget => ?_
    exact ih _ (Nat.lt_of_le_of_lt (size_nestTarget?_le htarget) hlt) (hnode.target htarget) rfl

end ApiContract.Codegen.Declaration
