import ApiContract.Proofs.Drift.Fields
import ApiContract.Proofs.Drift.Sync

/-!
# Fields of another type

The schemas of a field before and after it is retyped share hardly a keyword: beside the description
only the `type` itself, which is a text and so is modified, and of two lists the items. So a field
that is retyped breaks exactly what it takes away, the keywords that are gone and the names that are
required now (`Loses`). The diff is never unchanged, and it is a conflict if something is lost at
the field or another change breaks.

* **`sharesTexts_toJsonSchema`** — what the schemas of a field that is retyped share.
* **`breaking_iff_loses`** — one field.
* **`loses_of_list_to_single`** / **`loses_of_model_to_other`** — what always loses something.
* **`retyped_field_grouped`** — the headline: the group of the diff.
-/

namespace ApiContract.Drift

open Contract Export Schema
open SchemaModel (modelAt?)

variable {name key : String} {path : List String} {f f' : FieldSpec} {v w : Value}

/-- Two schemas have different types, or their items have. -/
def Retyped (v w : Value) : Prop :=
  v.field "type" ≠ w.field "type" ∨ (v.field "items").field "type" ≠ (w.field "items").field "type"

/-- A schema has a keyword that the other one lacks, or the other one requires names and it does
not. -/
inductive LosesKeyword (v w : Value) : Prop where
  | lost (name : String) (old : v.field name ≠ .null) (new : w.field name = .null)
  | required (old : v.field "required" = .null) (new : w.field "required" ≠ .null)

/-- What changes from one schema to another takes something away, from themselves or their items. -/
def Loses (v w : Value) : Prop :=
  LosesKeyword v w
    ∨ v.field "items" ≠ .null ∧ w.field "items" ≠ .null
      ∧ LosesKeyword (v.field "items") (w.field "items")

/-! ## Losses are reported -/

/-- A mapping that requires names, or nothing. -/
structure Requires (v : Value) : Prop where
  isMap : v.isMap = true
  required : v.field "required" = .null
    ∨ ∃ names, names ≠ [] ∧ v.field "required" = .list (names.map .str)

theorem names?_texts (names : List String) : names? (.list (names.map .str)) = some names :=
  names?_eq_some_iff.mpr (.inr rfl)

theorem not_forall_mem_nil {names : List String} (h : names ≠ []) :
    ¬ ∀ name, name ∈ names ↔ name ∈ ([] : List String) :=
  fun hall => h <| List.eq_nil_iff_forall_not_mem.mpr fun name hname =>
    List.not_mem_nil ((hall name).mp hname)

theorem not_null (h : v ≠ .null) : v.isNull = false ∧ same v .null = false := by
  cases v with
  | scalar leaf => cases leaf <;> first | exact absurd rfl h | exact ⟨rfl, rfl⟩
  | list _ | map _ | set _ => exact ⟨rfl, rfl⟩

theorem reports_lost (hv : Requires v) (hold : v.field name ≠ .null) :
    Reports false ChangeKind.isBreaking name (v.field name) .null := by
  by_cases hname : name = "required"
  · subst hname
    obtain ⟨names, hne, hnames⟩ := hv.required.resolve_left hold
    rw [hnames]
    exact reports_names (.inl rfl) (names?_texts names) rfl (not_forall_mem_nil hne) rfl
  · obtain ⟨hnull, hsame⟩ := not_null hold
    refine reports_values (.inr rfl) hsame (fun h => absurd h hname) ?_
    unfold changeKind
    rw [hnull]
    rfl

/-- **A loss is reported as a breaking change.** -/
theorem LosesKeyword.reports (h : LosesKeyword v w) (hv : Requires v) (hw : Requires w) :
    Reports false ChangeKind.isBreaking key v w := by
  obtain ⟨name, h⟩ :
      ∃ name, Reports false ChangeKind.isBreaking name (v.field name) (w.field name) := by
    cases h with
    | lost name hold hnew =>
      refine ⟨name, ?_⟩
      rw [hnew]
      exact reports_lost hv hold
    | required hold hnew =>
      obtain ⟨names, hne, hnames⟩ := hw.required.resolve_left hnew
      refine ⟨"required", ?_⟩
      rw [hold, hnames]
      refine reports_names (.inl rfl) rfl (names?_texts names) (fun hall => ?_) rfl
      exact not_forall_mem_nil hne fun name => (hall name).symm
  exact reports_of_field hv.isMap hw.isMap (fun hidden => absurd hidden.1 (by decide)) h

/-! ## Breaking changes are losses -/

/-- A mapping with texts as keys, each once. -/
def IsRecord (v : Value) : Prop := ∃ members, v = .map members ∧ TextKeys members

/-- **A change of two records is one of the values under a name.** -/
theorem exists_field_of_mem_compareMembers {scope : Scope} {path : String} {old new : Members}
    {c : Change} (hold : TextKeys old) (hnew : TextKeys new)
    (h : c ∈ compareMembers scope path old new) :
    ∃ name path', c ∈ compareUnder scope path' (.str name) ((Value.map new).field name)
      ((Value.map old).field name) := by
  rcases List.mem_append.mp h with h | h
  · obtain ⟨⟨k, v⟩, hm, -, hc⟩ := mem_keptMembers_iff.mp h
    obtain ⟨name, rfl⟩ := hold.text _ hm
    refine ⟨name, memberPath path (.str name), ?_⟩
    rw [Value.field_map old, hold.get?_of_mem hm]
    exact hc
  · obtain ⟨⟨k, w⟩, hm, hcontains, -, hc⟩ := mem_addedMembers_iff.mp h
    obtain ⟨name, rfl⟩ := hnew.text _ hm
    refine ⟨name, memberPath path (.str name), ?_⟩
    rw [Members.contains_str, Option.isSome_eq_false_iff, Option.isNone_iff_eq_none] at hcontains
    rw [Value.field_map new, Value.field_map old, hnew.get?_of_mem hm, hcontains]
    exact hc

/-- Two schemas share nothing but texts, and items. -/
def SharesTexts (v w : Value) : Prop :=
  ∀ name, name ≠ "items" → v.field name ≠ .null → w.field name ≠ .null →
    name ≠ "required" ∧ (∃ s, v.field name = .str s) ∧ ∃ s, w.field name = .str s

theorem kind_of_mem_compareMember {path : String} {old new : Value} {c : Change}
    (hkey : key ≠ "required") (h : c ∈ compareMember path (.str key) old new) :
    c.kind = changeKind old new := by
  rw [compareMember_of_values fun heq => absurd heq hkey, Option.mem_toList] at h
  unfold compare at h
  split at h <;> cases h
  rfl

/-- **A breaking change of two schemas that share only texts is a loss**, or one of their items. -/
theorem losesKeyword_of_breaking {place : String} {c : Change} (hv : IsRecord v) (hw : IsRecord w)
    (hshared : SharesTexts v w) (hc : c ∈ compareUnder {} place (.str key) w v)
    (hbreaking : c.kind.isBreaking = true) :
    LosesKeyword v w
      ∨ v.field "items" ≠ .null ∧ w.field "items" ≠ .null
        ∧ ∃ place, c ∈ compareUnder {} place (.str "items") (w.field "items") (v.field "items") := by
  obtain ⟨old, rfl, hold⟩ := hv
  obtain ⟨new, rfl, hnew⟩ := hw
  obtain ⟨name, place, hc⟩ := exists_field_of_mem_compareMembers hold hnew hc
  generalize hv : (Value.map old).field name = v at hc
  generalize hw : (Value.map new).field name = w at hc
  by_cases hvnull : v = .null
  · subst hvnull
    by_cases hwnull : w = .null
    · subst hwnull
      rw [compareUnder_scope _ _ .null (unchanged_null _)] at hc
      cases hc
    · by_cases hname : name = "required"
      · subst hname
        exact .inl (.required hv (hw.symm ▸ hwnull))
      · -- what is new is added, and breaks nothing
        have hkind := kind_of_mem_compareMember hname hc
        rw [hkind] at hbreaking
        cases hbreaking
  · by_cases hwnull : w = .null
    · exact .inl (.lost name (hv.symm ▸ hvnull) (hw.trans hwnull))
    · by_cases hitems : name = "items"
      · subst hitems
        exact .inr ⟨hv.symm ▸ hvnull, hw.symm ▸ hwnull, place, by rwa [hv, hw]⟩
      · obtain ⟨hname, ⟨s, hs⟩, s', hs'⟩ :=
          hshared name hitems (hv.symm ▸ hvnull) (hw.symm ▸ hwnull)
        -- a text that is another one is modified, and breaks nothing
        obtain rfl := hv.symm.trans hs
        obtain rfl := hw.symm.trans hs'
        have hkind := kind_of_mem_compareMember hname hc
        rw [hkind] at hbreaking
        cases hbreaking

/-! ## Schemas of fields -/

/-- The type that has a keyword. -/
def typeOfKeyword (name : String) : Value :=
  if name ∈ ["properties", "required", "additionalProperties"] then .str "object"
  else if name ∈ ["enum", "format"] then .str "string"
  else .null

theorem type_of_keyword_schema {s : ScalarType} (hname : name ≠ "type")
    (h : (Value.map s.schema).field name ≠ .null) :
    (Value.map s.schema).field "type" = typeOfKeyword name := by
  by_cases hformat : name = "format"
  · subst hformat
    cases s <;> first | rfl | exact absurd rfl h
  · by_cases hmore : name = "additionalProperties"
    · subst hmore
      cases s <;> first | rfl | exact absurd rfl h
    · -- a scalar has no other keyword
      refine absurd ?_ h
      cases s <;> simp [Value.field_map, ScalarType.schema, ScalarType.typeNode, ScalarType.textNode,
        Ne.symm hname, Ne.symm hformat, Ne.symm hmore]

/-- **A keyword other than type and description tells the type.** -/
theorem type_of_keyword (hname : name ≠ "type") (hdescription : name ≠ "description")
    (h : (typeNode f).field name ≠ .null) : (typeNode f).field "type" = typeOfKeyword name := by
  revert h
  refine typeNode_cases
    (p := fun node => node.field name ≠ .null → node.field "type" = typeOfKeyword name)
    (fun m _ h => ?_) (fun values h => ?_) (fun r h => ?_) (fun _ => type_of_keyword_schema hname)
  · rw [Value.field_map] at h ⊢
    rw [(get?_modelMembers m).1]
    by_cases hobject : name = "properties" ∨ name = "required"
    · rcases hobject with rfl | rfl <;> rfl
    · rw [not_or] at hobject
      rw [get?_modelMembers_other m hname hdescription hobject.1 hobject.2] at h
      exact absurd rfl h
  · by_cases henum : name = "enum"
    · subst henum
      rfl
    · simp [Value.field_map, enumMembers, Ne.symm hname, Ne.symm henum] at h
  · by_cases href : name = "$ref"
    · subst href
      rfl
    · simp [Value.field_map, componentReference, Ne.symm href] at h

/-- A text, or nothing. -/
def IsText (v : Value) : Prop := v = .null ∨ ∃ s, v = .str s

theorem IsText.exists_of_ne_null (h : IsText v) (hne : v ≠ .null) : ∃ s, v = .str s :=
  h.resolve_left hne

theorem isText_type_typeNode (f : FieldSpec) : IsText ((typeNode f).field "type") := by
  refine typeNode_cases (p := fun node => IsText (node.field "type")) (fun m _ => ?_)
    (fun _ => .inr ⟨_, rfl⟩) (fun _ => .inl rfl) (fun s => ?_)
  · rw [Value.field_map, (get?_modelMembers m).1]
    exact .inr ⟨_, rfl⟩
  · cases s <;> first | exact .inl rfl | exact .inr ⟨_, rfl⟩

theorem isText_description_typeNode (f : FieldSpec) : IsText ((typeNode f).field "description") := by
  refine typeNode_cases (p := fun node => IsText (node.field "description")) (fun m _ => ?_)
    (fun _ => .inl rfl) (fun _ => .inl rfl) (fun s => ?_)
  · rw [Value.field_map, get?_modelMembers_description]
    cases m.description.filter (!·.isEmpty) with
    | none => exact .inl rfl
    | some d => exact .inr ⟨d, rfl⟩
  · cases s <;> exact .inl rfl

/-- **The nodes of two types** share only texts. -/
theorem sharesTexts_typeNode (htype : (typeNode f).field "type" ≠ (typeNode f').field "type") :
    SharesTexts (typeNode f) (typeNode f') := by
  intro name _ hold hnew
  by_cases hname : name = "type"
  · subst hname
    exact ⟨by decide, (isText_type_typeNode f).exists_of_ne_null hold,
      (isText_type_typeNode f').exists_of_ne_null hnew⟩
  · by_cases hdescription : name = "description"
    · subst hdescription
      exact ⟨by decide, (isText_description_typeNode f).exists_of_ne_null hold,
        (isText_description_typeNode f').exists_of_ne_null hnew⟩
    · -- any other keyword would tell the same type on both sides
      exact absurd ((type_of_keyword hname hdescription hold).trans
        (type_of_keyword hname hdescription hnew).symm) htype

/-- The description of a field is a text. -/
def HasTextOnly (f : FieldSpec) : Prop := ∀ d ∈ f.description, ∃ s, d = .str s

theorem isText_description (htext : HasTextOnly f) : IsText (f.toJsonSchema.field "description") := by
  have hnode : IsText ((listOf f.isArray (typeNode f)).field "description") := by
    cases f.isArray with
    | true => exact .inl rfl
    | false => exact isText_description_typeNode f
  rw [toJsonSchema_eq_typeNode]
  unfold withDescription
  split
  · rename_i members d hlist hd
    split
    · rw [Value.field_map, Members.get?_insert, if_pos rfl]
      exact .inr (htext d hd)
    · exact hlist ▸ hnode
  · exact hnode

theorem retyped_cases (h : Retyped f.toJsonSchema f'.toJsonSchema) :
    f.isArray ≠ f'.isArray
      ∨ f.isArray = f'.isArray ∧ (typeNode f).field "type" ≠ (typeNode f').field "type" := by
  by_cases harray : f.isArray = f'.isArray
  · refine .inr ⟨harray, fun heq => ?_⟩
    unfold Retyped at h
    simp only [@field_toJsonSchema "type" (by decide), @field_toJsonSchema "items" (by decide),
      ← harray] at h
    cases hlist : f.isArray with
    | true =>
      rw [hlist] at h
      rcases h with h | h
      · exact h rfl
      · exact h heq
    | false =>
      rw [hlist] at h
      rcases h with h | h
      · exact h heq
      · refine h ?_
        show ((typeNode f).field "items").field "type" = ((typeNode f').field "items").field "type"
        rw [field_items_typeNode, field_items_typeNode]
  · exact .inl harray

theorem not_sameOutline_of_retyped (h : Retyped f.toJsonSchema f'.toJsonSchema) :
    ¬ SameOutline f f' := by
  rintro ⟨harray, hnode⟩
  rcases retyped_cases h with hne | ⟨-, hne⟩
  · exact hne harray
  · exact hne (hnode "type" (by decide))

theorem isText_type_list (f : FieldSpec) :
    IsText ((listOf f.isArray (typeNode f)).field "type") := by
  cases f.isArray with
  | true => exact .inr ⟨_, rfl⟩
  | false => exact isText_type_typeNode f

/-- A list has no keywords but its type and its items. -/
theorem field_list_eq_null {node : Value} (htype : name ≠ "type") (hitems : name ≠ "items") :
    (listOf true node).field name = .null := by
  show (Value.map [(.str "type", .str "array"), (.str "items", node)]).field name = .null
  simp [Value.field_map, Ne.symm htype, Ne.symm hitems]

/-- **The schemas of a field that is retyped** share only texts, and items. -/
theorem sharesTexts_toJsonSchema (hretyped : Retyped f.toJsonSchema f'.toJsonSchema)
    (htext : HasTextOnly f) (htext' : HasTextOnly f') :
    SharesTexts f.toJsonSchema f'.toJsonSchema := by
  intro name hitems hold hnew
  by_cases hdescription : name = "description"
  · subst hdescription
    exact ⟨by decide, (isText_description htext).exists_of_ne_null hold,
      (isText_description htext').exists_of_ne_null hnew⟩
  · rw [field_toJsonSchema hdescription] at hold hnew ⊢
    rw [field_toJsonSchema hdescription]
    by_cases hname : name = "type"
    · subst hname
      exact ⟨by decide, (isText_type_list f).exists_of_ne_null hold,
        (isText_type_list f').exists_of_ne_null hnew⟩
    · -- a list has no other keywords, and the nodes of two types share none
      cases hlist : f.isArray with
      | true =>
        rw [hlist, field_list_eq_null hname hitems] at hold
        exact absurd rfl hold
      | false =>
        cases hlist' : f'.isArray with
        | true =>
          rw [hlist', field_list_eq_null hname hitems] at hnew
          exact absurd rfl hnew
        | false =>
          have harray : f.isArray = f'.isArray := hlist.trans hlist'.symm
          have htype := ((retyped_cases hretyped).resolve_left (not_not.mpr harray)).2
          rw [hlist] at hold
          rw [hlist'] at hnew
          exact sharesTexts_typeNode htype name hitems hold hnew

theorem isRecord_typeNode (f : FieldSpec) : IsRecord (typeNode f) := by
  refine typeNode_cases (fun m _ => ⟨_, rfl, textKeys_modelMembers m⟩)
    (fun values => ⟨_, rfl, by simp [enumMembers], by simp [enumMembers]⟩)
    (fun r => ⟨_, rfl, by simp, by simp⟩) (fun s => ⟨_, rfl, (leafNode_scalar s).keys, ?_⟩)
  cases s <;> simp [ScalarType.schema, ScalarType.typeNode, ScalarType.textNode]

theorem IsRecord.listOf (h : IsRecord v) (isArray : Bool) : IsRecord (listOf isArray v) := by
  cases isArray with
  | true => exact ⟨_, rfl, by simp, by simp⟩
  | false => exact h

theorem IsRecord.withDescription (h : IsRecord v) (description : Option Value) :
    IsRecord (withDescription description v) := by
  obtain ⟨members, rfl, hkeys⟩ := h
  unfold Contract.withDescription
  split
  · rename_i members' d heq
    cases heq
    split
    · exact ⟨_, rfl, hkeys.insert _ _⟩
    · exact ⟨_, rfl, hkeys⟩
  · exact ⟨members, rfl, hkeys⟩

theorem isRecord_toJsonSchema (f : FieldSpec) : IsRecord f.toJsonSchema := by
  rw [toJsonSchema_eq_typeNode]
  exact ((isRecord_typeNode f).listOf _).withDescription _

theorem requires_typeNode (f : FieldSpec) : Requires (typeNode f) := by
  refine typeNode_cases (fun m _ => ⟨rfl, ?_⟩) (fun _ => ⟨rfl, .inl rfl⟩) (fun _ => ⟨rfl, .inl rfl⟩)
    (fun s => ⟨rfl, .inl ?_⟩)
  · rw [Value.field_map, get?_modelMembers_required]
    split
    · exact .inl rfl
    · rename_i hne
      exact .inr ⟨_, by simpa using hne, rfl⟩
  · cases s <;> rfl

theorem requires_toJsonSchema (f : FieldSpec) : Requires f.toJsonSchema := by
  refine ⟨isMap_toJsonSchema f, ?_⟩
  rw [field_toJsonSchema (by decide)]
  cases f.isArray with
  | true => exact .inl rfl
  | false => exact (requires_typeNode f).required

theorem typeNode_ne_null (f : FieldSpec) : typeNode f ≠ .null := by
  intro hnull
  have hmap := isMap_typeNode f
  rw [hnull] at hmap
  cases hmap

theorem field_items_of_list (h : f.isArray = true) : f.toJsonSchema.field "items" = typeNode f := by
  rw [field_toJsonSchema (by decide), h]
  rfl

theorem field_items_of_single (h : f.isArray = false) : f.toJsonSchema.field "items" = .null := by
  rw [field_toJsonSchema (by decide), h]
  exact field_items_typeNode f

/-- Only lists have items. -/
theorem items_of_ne_null (h : f.toJsonSchema.field "items" ≠ .null) :
    f.isArray = true ∧ f.toJsonSchema.field "items" = typeNode f := by
  cases hlist : f.isArray with
  | true => exact ⟨rfl, field_items_of_list hlist⟩
  | false => exact absurd (field_items_of_single hlist) h

/-- **A list that becomes a single value** loses its items. -/
theorem loses_of_list_to_single (hlist : f.isArray = true) (hsingle : f'.isArray = false) :
    Loses f.toJsonSchema f'.toJsonSchema := by
  refine .inl (.lost "items" ?_ (field_items_of_single hsingle))
  rw [field_items_of_list hlist]
  exact typeNode_ne_null f

/-- **A model that becomes another type** loses its properties. -/
theorem loses_of_model_to_other {m : SchemaModel} (hm : f.model = some m) (hother : f'.model = none) :
    Loses f.toJsonSchema f'.toJsonSchema := by
  have hproperties : (typeNode f).field "properties" ≠ .null := by
    rw [typeNode_of_model hm, field_properties]
    exact fun hnull => by cases hnull
  have hnone := field_properties_typeNode hother
  cases hlist : f.isArray with
  | true =>
    cases hlist' : f'.isArray with
    | true =>
      refine .inr ?_
      rw [field_items_of_list hlist, field_items_of_list hlist']
      exact ⟨typeNode_ne_null f, typeNode_ne_null f', .lost "properties" hproperties hnone⟩
    | false => exact loses_of_list_to_single hlist hlist'
  | false =>
    refine .inl (.lost "properties" ?_ ?_)
    · rw [field_toJsonSchema (by decide), hlist]
      exact hproperties
    · rw [field_toJsonSchema (by decide)]
      cases f'.isArray with
      | true => rfl
      | false => exact hnone

/-- **A loss at a field is reported as a breaking change.** -/
theorem Loses.reports (h : Loses f.toJsonSchema f'.toJsonSchema) :
    Reports false ChangeKind.isBreaking name f.toJsonSchema f'.toJsonSchema := by
  rcases h with h | ⟨hitems, hitems', h⟩
  · exact h.reports (requires_toJsonSchema f) (requires_toJsonSchema f')
  · obtain ⟨-, hnode⟩ := items_of_ne_null hitems
    obtain ⟨-, hnode'⟩ := items_of_ne_null hitems'
    refine ReportsKeyword.reports ⟨"items", by decide, ?_⟩ (isMap_toJsonSchema f)
      (isMap_toJsonSchema f')
    rw [hnode, hnode'] at h ⊢
    exact h.reports (requires_typeNode f) (requires_typeNode f')

/-- **A field that is retyped breaks exactly what it takes away.** -/
theorem breaking_iff_loses (hretyped : Retyped f.toJsonSchema f'.toJsonSchema)
    (htext : HasTextOnly f) (htext' : HasTextOnly f') (place : String) :
    (∃ c ∈ compareUnder {} place (.str name) f'.toJsonSchema f.toJsonSchema,
        c.kind.isBreaking = true)
      ↔ Loses f.toJsonSchema f'.toJsonSchema := by
  refine ⟨?_, fun h => h.reports place⟩
  rintro ⟨c, hc, hbreaking⟩
  have hshared := sharesTexts_toJsonSchema hretyped htext htext'
  rcases losesKeyword_of_breaking (isRecord_toJsonSchema f) (isRecord_toJsonSchema f') hshared hc
    hbreaking with h | ⟨hitems, hitems', place', hc⟩
  · exact .inl h
  · -- both are lists, and the nodes of their items have different types
    obtain ⟨hlist, hnode⟩ := items_of_ne_null hitems
    obtain ⟨hlist', hnode'⟩ := items_of_ne_null hitems'
    have harray : f.isArray = f'.isArray := hlist.trans hlist'.symm
    have htype := ((retyped_cases hretyped).resolve_left (not_not.mpr harray)).2
    refine .inr ⟨hitems, hitems', ?_⟩
    rw [hnode, hnode'] at hc ⊢
    rcases losesKeyword_of_breaking (isRecord_typeNode f) (isRecord_typeNode f')
      (sharesTexts_typeNode htype) hc hbreaking with h | ⟨hnone, -⟩
    · exact h
    · exact absurd (field_items_typeNode f) hnone

/-! ## Diffs -/

/-- What is reported of a field is reported of the specs around it. -/
theorem exists_change_of_field {kinds : ChangeKind → Bool} (removed : kinds .removed = true)
    {old new : OperationSpec} {part : OperationSpec → Option SchemaModel}
    (hpart : part ∈ [OperationSpec.input, OperationSpec.output])
    (hold : fieldAt? path name (part old) = some f) (hnew : fieldAt? path name (part new) = some f')
    (h : Reports false kinds name f.toJsonSchema f'.toJsonSchema) :
    ∃ c ∈ compareSpecs {} old new, kinds c.kind = true := by
  obtain ⟨n, hn, hf⟩ := Option.bind_eq_some_iff.mp hold
  obtain ⟨n', hn', hf'⟩ := Option.bind_eq_some_iff.mp hnew
  have hvisible : ∀ name, ¬ IsHidden false name := fun name hidden => absurd hidden.1 (by decide)
  refine exists_change_of_reports rfl hpart fun key _ => ?_
  refine reports_optionalSchema removed (fun name _ => hvisible name) hn hn' ?_
  refine reportsKeyword_of_field (hvisible name) ?_
  rw [fieldSchema_of_get? hf, fieldSchema_of_get? hf']
  exact h

/-- **Where an unresolved diff of two specs goes** that is not empty. -/
theorem changed_diff_grouped {options : Options} {old new : OperationSpec} {item : Import.Imported}
    (hitem : item.spec = some new) {id : String} {diffs : List SpecDiff}
    (hd : SpecDiff.ofSides options id (.both old item) ∈ diffs)
    (hne : (SpecDiff.ofSides options id (.both old item)).changes ≠ []) :
    let d := SpecDiff.ofSides options id (.both old item)
    let r := SyncResult.ofDiffs diffs
    d ∉ r.inGroup .unchanged ∧ d ∉ r.inGroup .added
      ∧ (d ∈ r.inGroup .conflict ↔ ∃ c ∈ d.changes, c.kind.isBreaking = true)
      ∧ (d ∈ r.inGroup .updated ↔ ∀ c ∈ d.changes, c.kind.isBreaking = false) := by
  intro d r
  have hgroup : ∀ g, d ∈ r.inGroup g ↔ d.Belongs g :=
    fun g => SyncResult.mem_inGroup_iff.trans (and_iff_right hd)
  rw [hgroup, hgroup, hgroup, hgroup]
  -- there is no decision, and both sides have a spec
  refine ⟨?_, (fun hadded => by cases hadded), ⟨?_, fun hbreaking => ⟨rfl, rfl, hne, .inr hbreaking⟩⟩,
    ⟨?_, fun hsafe => ⟨rfl, .inr (.inr ⟨rfl, hne, ⟨item, rfl, by rw [hitem]; rfl⟩, hsafe⟩)⟩⟩⟩
  · rintro ⟨-, hresolved | hresolved | ⟨-, hnil⟩⟩
    · cases hresolved
    · cases hresolved
    · exact hne hnil
  · rintro ⟨-, -, -, hcode | hbreaking⟩
    · cases hitem.symm.trans (hcode item rfl)
    · exact hbreaking
  · rintro ⟨-, hresolved | hresolved | ⟨-, -, -, hsafe⟩⟩
    · cases hresolved
    · cases hresolved
    · exact hsafe

/-- **Where the diff of a field that is retyped goes.** It is never unchanged. It is a conflict
exactly if one of its changes breaks, and those of the field itself break exactly if the field loses
something; it always does if a list becomes a single value or a model another type. -/
theorem retyped_field_grouped {old new : OperationSpec} {item : Import.Imported}
    (hitem : item.spec = some new) {part : OperationSpec → Option SchemaModel}
    (hpart : part ∈ [OperationSpec.input, OperationSpec.output])
    (hold : fieldAt? path name (part old) = some f) (hnew : fieldAt? path name (part new) = some f')
    (hretyped : Retyped f.toJsonSchema f'.toJsonSchema) {id : String} {diffs : List SpecDiff}
    (hd : SpecDiff.ofSides {} id (.both old item) ∈ diffs) :
    let d := SpecDiff.ofSides {} id (.both old item)
    let r := SyncResult.ofDiffs diffs
    d ∉ r.inGroup .unchanged ∧ d ∉ r.inGroup .added
      ∧ (d ∈ r.inGroup .conflict ↔ ∃ c ∈ d.changes, c.kind.isBreaking = true)
      ∧ (d ∈ r.inGroup .updated ↔ ∀ c ∈ d.changes, c.kind.isBreaking = false)
      ∧ (Loses f.toJsonSchema f'.toJsonSchema →
          d ∈ r.inGroup .conflict ∧ d ∉ r.inGroup .updated)
      ∧ (f.isArray = true ∧ f'.isArray = false ∨ f.model.isSome = true ∧ f'.model = none →
          Loses f.toJsonSchema f'.toJsonSchema)
      ∧ (HasTextOnly f → HasTextOnly f' → ∀ place,
          (∃ c ∈ compareUnder {} place (.str name) f'.toJsonSchema f.toJsonSchema,
              c.kind.isBreaking = true)
            ↔ Loses f.toJsonSchema f'.toJsonSchema) := by
  intro d r
  have hchanges : d.changes = compareSpecs {} old new := by
    show Sides.changes {} (.both old item) = _
    rw [Sides.changes, hitem]
  have hreports : Reports false (fun _ => true) name f.toJsonSchema f'.toJsonSchema :=
    (reportsKeyword_of_outline (not_sameOutline_of_retyped hretyped)).reports
      (isMap_toJsonSchema f) (isMap_toJsonSchema f')
  have hne : d.changes ≠ [] := by
    obtain ⟨c, hc, -⟩ := exists_change_of_field rfl hpart hold hnew hreports
    rw [hchanges]
    exact List.ne_nil_of_mem hc
  obtain ⟨hunchanged, hadded, hconflict, hupdated⟩ := changed_diff_grouped hitem hd hne
  have hlost : Loses f.toJsonSchema f'.toJsonSchema →
      d ∈ r.inGroup .conflict ∧ d ∉ r.inGroup .updated := by
    intro hloses
    obtain ⟨c, hc, hbreaking⟩ := exists_change_of_field rfl hpart hold hnew hloses.reports
    rw [← hchanges] at hc
    have hnotSafe : ¬ ∀ c ∈ d.changes, c.kind.isBreaking = false := by
      intro hsafe
      rw [hsafe c hc] at hbreaking
      cases hbreaking
    exact ⟨hconflict.mpr ⟨c, hc, hbreaking⟩, fun hu => hnotSafe (hupdated.mp hu)⟩
  have hexamples : f.isArray = true ∧ f'.isArray = false ∨ f.model.isSome = true ∧ f'.model = none →
      Loses f.toJsonSchema f'.toJsonSchema := by
    rintro (⟨hlist, hsingle⟩ | ⟨hmodel, hother⟩)
    · exact loses_of_list_to_single hlist hsingle
    · obtain ⟨m, hm⟩ := Option.isSome_iff_exists.mp hmodel
      exact loses_of_model_to_other hm hother
  exact ⟨hunchanged, hadded, hconflict, hupdated, hlost, hexamples,
    fun htext htext' => breaking_iff_loses hretyped htext htext'⟩

/-- A query that is imported again, with another output. -/
def showingImport (output : SchemaModel) : Import.Imported :=
  { plainImport "showPet" "pets.show" 1 with spec := some (showing output) }

/-- A list of names becomes a single name, and loses its items. -/
theorem list_to_single_conflict :
    let names : FieldSpec := { scalar := some .string, isArray := true, isOptional := true }
    let name : FieldSpec := { scalar := some .string, isOptional := true }
    let d := SpecDiff.ofSides {} "showPet"
      (.both (showing (oneField "name" names)) (showingImport (oneField "name" name)))
    Retyped names.toJsonSchema name.toJsonSchema ∧ Loses names.toJsonSchema name.toJsonSchema
      ∧ d ∈ (SyncResult.ofDiffs [d]).inGroup .conflict := by
  intro names name d
  have hretyped : Retyped names.toJsonSchema name.toJsonSchema := .inl (by decide)
  have hloses : Loses names.toJsonSchema name.toJsonSchema := loses_of_list_to_single rfl rfl
  obtain ⟨-, -, -, -, hconflict, -⟩ := @retyped_field_grouped "name" [] names name
    (showing (oneField "name" names)) (showing (oneField "name" name))
    (showingImport (oneField "name" name)) rfl OperationSpec.output
    (List.mem_pair.mpr (.inr rfl)) rfl rfl hretyped "showPet" [d] List.mem_cons_self
  exact ⟨hretyped, hloses, (hconflict hloses).1⟩

/-- A text becomes a number: the type is modified, and nothing breaks. -/
theorem text_to_number_updated :
    let text : FieldSpec := { scalar := some .string, isOptional := true }
    let number : FieldSpec := { scalar := some .int, isOptional := true }
    let d := SpecDiff.ofSides {} "showPet"
      (.both (showing (oneField "name" text)) (showingImport (oneField "name" number)))
    Retyped text.toJsonSchema number.toJsonSchema
      ∧ (SyncResult.ofDiffs [d]).idsIn .updated = ["showPet"]
      ∧ (SyncResult.ofDiffs [d]).idsIn .conflict = [] := by
  refine ⟨.inl (by decide), ?_, ?_⟩
  · decide +kernel
  · decide +kernel

end ApiContract.Drift
