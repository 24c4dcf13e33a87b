import ApiContract.Proofs.Drift.Unchanged
import ApiContract.Proofs.Export.Settle

/-!
# Comparing mappings and schemas of models

Mappings are compared name by name. The schemas of two models are compared field by field: the order
of the fields does not count, and neither does the order of the required names. The schema of a list
is compared by its items and its description.

A comparison goes through the keys of both mappings, each once, those of the old one first. At every
key it compares what the two have there, where an absent member is null.

* **`unchanged_map_iff_get?`** — mappings with texts as keys are compared name by name.
* **`unchanged_model_iff`** / **`unchanged_list_iff`** — the nodes.
* **`mem_memberKeys`** / **`nodup_memberKeys`** — the keys that are gone through.
* **`compareMembers_eq_flatMap`** — the changes, key by key.
* **`pair_induction`** — induction on two values along a comparison.
-/

namespace ApiContract.Drift

open Contract Export Schema

/-! ## Mappings by name -/

/-- Members under texts, each once. -/
structure TextKeys (members : Members) : Prop where
  text : ∀ m ∈ members, ∃ s, m.1 = .str s
  nodup : (members.map (·.1)).Nodup

theorem TextKeys.get?_of_mem {members : Members} (h : TextKeys members) {name : String} {v : Value}
    (hm : (Scalar.str name, v) ∈ members) : Members.get? members name = some v :=
  find?_of_mem h.text h.nodup hm

theorem unchanged_null (key : Scalar) : Unchanged key .null .null :=
  (unchanged_self_of_not_map rfl).mpr rfl

/-- **Mappings are compared name by name**, where an absent member is null. -/
theorem unchanged_map_iff_get? {key : Scalar} {old new : Members} (hold : TextKeys old)
    (hnew : TextKeys new) :
    Unchanged key (.map old) (.map new)
      ↔ ∀ name, Unchanged (.str name) ((Members.get? old name).getD .null)
          ((Members.get? new name).getD .null) := by
  rw [unchanged_map_iff]
  constructor
  · rintro ⟨hkept, hadded⟩ name
    cases hget : Members.get? old name with
    | some v => exact hkept _ (Members.mem_of_get? hget)
    | none =>
      cases hget' : Members.get? new name with
      | none => exact unchanged_null _
      | some w =>
        refine hadded _ (Members.mem_of_get? hget') ?_
        rw [Members.contains_str, hget]
        rfl
  · intro h
    constructor
    · rintro ⟨k, v⟩ hm
      obtain ⟨name, rfl⟩ := hold.text _ hm
      have hname := h name
      rw [hold.get?_of_mem hm] at hname
      exact hname
    · rintro ⟨k, w⟩ hm hcontains
      obtain ⟨name, rfl⟩ := hnew.text _ hm
      have hname := h name
      rw [Members.contains_str, Option.isSome_eq_false_iff, Option.isNone_iff_eq_none] at hcontains
      rw [hcontains, hnew.get?_of_mem hm] at hname
      exact hname

/-- A mapping is unchanged against itself if its members are. -/
theorem unchanged_map_self {key : Scalar} {members : Members} (h : TextKeys members)
    (hmembers : ∀ m ∈ members, Unchanged m.1 m.2 m.2) :
    Unchanged key (.map members) (.map members) := by
  rw [unchanged_map_iff_get? h h]
  intro name
  cases hget : Members.get? members name with
  | none => exact unchanged_null _
  | some v => exact hmembers _ (Members.mem_of_get? hget)

theorem TextKeys.insert {members : Members} (h : TextKeys members) (name : String) (v : Value) :
    TextKeys (Members.insert members (.str name) v) := by
  constructor
  · intro m hm
    obtain hkey | ⟨m', hm', hkey⟩ := Members.key_of_mem_insert hm
    · exact ⟨name, hkey⟩
    · rw [hkey]
      exact h.text m' hm'
  · have hnodup := h.nodup
    clear h
    induction members with
    | nil => exact List.nodup_singleton _
    | cons m rest ih =>
      obtain ⟨k, w⟩ := m
      rw [List.map_cons, List.nodup_cons] at hnodup
      rw [Members.insert]
      split
      · exact List.nodup_cons.mpr hnodup
      · rename_i hkey
        refine List.nodup_cons.mpr ⟨?_, ih hnodup.2⟩
        intro hmem
        obtain ⟨m, hm, rfl⟩ := List.mem_map.mp hmem
        obtain hname | ⟨m', hm', hname⟩ := Members.key_of_mem_insert hm
        · rw [hname, Scalar.sameKey_self] at hkey
          exact hkey rfl
        · exact hnodup.1 (List.mem_map.mpr ⟨m', hm', hname.symm⟩)

/-- Descriptions are compared beside the other members. -/
theorem unchanged_describe {key : Scalar} {members members' : Members} {d d' : Value}
    (hkeys : TextKeys members) (hkeys' : TextKeys members')
    (hmembers : Unchanged key (.map members) (.map members'))
    (hdescription : Unchanged (.str "description") d d') :
    Unchanged key (.map (describe members d)) (.map (describe members' d')) := by
  rw [unchanged_map_iff_get? hkeys hkeys'] at hmembers
  unfold describe
  rw [unchanged_map_iff_get? (hkeys.insert _ _) (hkeys'.insert _ _)]
  intro name
  rw [Members.get?_insert, Members.get?_insert]
  by_cases h : "description" = name
  · rw [if_pos h, if_pos h, ← h]
    exact hdescription
  · rw [if_neg h, if_neg h]
    exact hmembers name

theorem unchanged_str (key : Scalar) (text : String) : Unchanged key (.str text) (.str text) :=
  (unchanged_self_of_not_map rfl).mpr (same_str text)

theorem unchanged_texts (key : Scalar) (items : List String) :
    Unchanged key (.list (items.map .str)) (.list (items.map .str)) := by
  refine (unchanged_self_of_not_map rfl).mpr ?_
  rw [same, sameItems_self_iff]
  intro v hv
  obtain ⟨text, -, rfl⟩ := List.mem_map.mp hv
  exact same_str text

/-! ## Models -/

theorem nodup_str_iff {names : List String} : (names.map Scalar.str).Nodup ↔ names.Nodup :=
  List.nodup_map_iff fun _ _ h => Scalar.str.inj h

theorem textKeys_modelMembers (m : SchemaModel) : TextKeys (modelMembers m) := by
  refine ⟨keys_modelMembers m, ?_⟩
  unfold modelMembers
  cases m.description.filter (!·.isEmpty) <;> cases (requiredNames m.fields).isEmpty <;> simp

theorem get?_modelMembers_other (m : SchemaModel) {name : String} (type : name ≠ "type")
    (description : name ≠ "description") (properties : name ≠ "properties")
    (required : name ≠ "required") : Members.get? (modelMembers m) name = none := by
  unfold modelMembers
  cases m.description.filter (!·.isEmpty) <;> cases (requiredNames m.fields).isEmpty <;>
    simp [type.symm, description.symm, properties.symm, required.symm]

theorem textKeys_fieldSchemas {fields : List (String × FieldSpec)}
    (h : (fields.map (·.1)).Nodup) : TextKeys (fieldSchemas fields) := by
  rw [fieldSchemas_eq_map]
  constructor
  · intro m hm
    obtain ⟨f, -, rfl⟩ := List.mem_map.mp hm
    exact ⟨f.1, rfl⟩
  · rw [List.map_map]
    rw [← nodup_str_iff, List.map_map] at h
    exact h

/-- What a schema lists as required is read as the required names. -/
theorem names?_required (names : List String) :
    names? ((if names.isEmpty then none else some (Value.list (names.map .str))).getD .null)
      = some names := by
  cases names with
  | nil => rfl
  | cons name rest =>
    have hmapM : ∀ names : List String, (names.map Value.str).mapM Value.str? = some names := by
      intro names
      induction names with
      | nil => rfl
      | cons name rest ih =>
        rw [List.map_cons, List.mapM_cons, ih]
        rfl
    exact hmapM (name :: rest)

theorem unchanged_required {old new : List String} (h : ∀ name, name ∈ old ↔ name ∈ new) :
    Unchanged (.str "required")
      ((if old.isEmpty then none else some (Value.list (old.map .str))).getD .null)
      ((if new.isEmpty then none else some (Value.list (new.map .str))).getD .null) := by
  have hmap : Value.isMap ((if old.isEmpty then none else some (Value.list (old.map .str))).getD .null)
      = false := by
    split <;> rfl
  rw [unchanged_iff_of_not_map hmap]
  unfold compareMember
  rw [names?_required, names?_required]
  simp [compareNames, sortedNames_eq h]

/-- **The schemas of two models** that differ in their fields alone are compared field by field. -/
theorem unchanged_model_iff {m m' : SchemaModel} {key : Scalar}
    (hdescription : m'.description.filter (!·.isEmpty) = m.description.filter (!·.isEmpty))
    (hm : (m.fields.map (·.1)).Nodup) (hm' : (m'.fields.map (·.1)).Nodup)
    (hnames : ∀ name, name ∈ m.fields.map (·.1) ↔ name ∈ m'.fields.map (·.1))
    (hrequired : ∀ name, name ∈ requiredNames m.fields ↔ name ∈ requiredNames m'.fields) :
    Unchanged key m.toJsonSchema m'.toJsonSchema
      ↔ ∀ f ∈ m.fields, ∀ f', Named.get? m'.fields f.1 = some f' →
          Unchanged (.str f.1) f.2.toJsonSchema f'.toJsonSchema := by
  rw [toJsonSchema_eq, toJsonSchema_eq,
    unchanged_map_iff_get? (textKeys_modelMembers m) (textKeys_modelMembers m')]
  have hproperties : Unchanged (.str "properties") (.map (fieldSchemas m.fields))
      (.map (fieldSchemas m'.fields)) ↔ ∀ f ∈ m.fields, ∀ f', Named.get? m'.fields f.1 = some f' →
        Unchanged (.str f.1) f.2.toJsonSchema f'.toJsonSchema := by
    rw [unchanged_map_iff_get? (textKeys_fieldSchemas hm) (textKeys_fieldSchemas hm')]
    constructor
    · intro h f hf f' hf'
      have hname := h f.1
      rw [get?_fieldSchemas, get?_fieldSchemas, Named.get?_of_mem hm hf, hf'] at hname
      exact hname
    · intro h name
      rw [get?_fieldSchemas, get?_fieldSchemas]
      cases hget : Named.get? m.fields name with
      | none =>
        have hget' : Named.get? m'.fields name = none := by
          rw [← Option.not_isSome_iff_eq_none, Named.get?_isSome_iff]
          intro hmem
          have hsome := Named.get?_isSome_iff.mpr ((hnames name).mpr hmem)
          rw [hget] at hsome
          cases hsome
        rw [hget']
        exact unchanged_null _
      | some f =>
        have hf := Named.mem_of_get? hget
        obtain ⟨f', hf'⟩ := Option.isSome_iff_exists.mp
          (Named.get?_isSome_iff.mpr ((hnames name).mp (List.mem_map_of_mem hf)))
        rw [hf']
        exact h _ hf f' hf'
  constructor
  · intro h
    have hname := h "properties"
    rw [(get?_modelMembers m).2.1, (get?_modelMembers m').2.1] at hname
    exact hproperties.mp hname
  · intro h name
    by_cases hproperty : name = "properties"
    · rw [hproperty, (get?_modelMembers m).2.1, (get?_modelMembers m').2.1]
      exact hproperties.mpr h
    · by_cases htype : name = "type"
      · rw [htype, (get?_modelMembers m).1, (get?_modelMembers m').1]
        exact unchanged_str _ _
      · by_cases habout : name = "description"
        · rw [habout, get?_modelMembers_description, get?_modelMembers_description, hdescription]
          cases m.description.filter (!·.isEmpty) with
          | none => exact unchanged_null _
          | some text => exact unchanged_str _ _
        · by_cases hrequire : name = "required"
          · rw [hrequire, get?_modelMembers_required, get?_modelMembers_required]
            exact unchanged_required hrequired
          · rw [get?_modelMembers_other m htype habout hproperty hrequire,
              get?_modelMembers_other m' htype habout hproperty hrequire]
            exact unchanged_null _

/-! ## Lists -/

/-- The members of the schema of a list. -/
def listMembers (item : Value) (description : Option Value) : Members :=
  [member "type" (.str "array"), member "items" item] ++
    memberIf "description" id (description.filter Value.isTruthy)

theorem withDescription_list (item : Value) (description : Option Value) :
    withDescription description (listOf true item) = .map (listMembers item description) := by
  cases description with
  | none => rfl
  | some d =>
    have hcontains : Members.contains [(.str "type", .str "array"), (.str "items", item)]
        (.str "$ref") = false := rfl
    show (if d.isTruthy && !Members.contains [(.str "type", .str "array"), (.str "items", item)]
        (.str "$ref") then Value.map (describe [(.str "type", .str "array"), (.str "items", item)] d)
      else .map [(.str "type", .str "array"), (.str "items", item)]) = _
    rw [hcontains]
    unfold listMembers
    rw [Option.filter_some]
    cases d.isTruthy with
    | true => rfl
    | false => rfl

theorem textKeys_listMembers (item : Value) (description : Option Value) :
    TextKeys (listMembers item description) := by
  unfold listMembers
  cases description.filter Value.isTruthy with
  | none => exact ⟨by simp [member, memberIf], by simp [member, memberIf]⟩
  | some d => exact ⟨by simp [member, memberIf], by simp [member, memberIf]⟩

theorem get?_listMembers (item : Value) (description : Option Value) (name : String) :
    Members.get? (listMembers item description) name
      = if name = "type" then some (.str "array") else if name = "items" then some item
        else if name = "description" then description.filter Value.isTruthy else none := by
  unfold listMembers
  simp only [Members.get?_append, Members.get?_member_cons, Members.get?_nil,
    Members.get?_memberIf, Option.map_id_fun, id_eq, eq_comm (a := name)]
  split
  · rfl
  · split <;> rfl

/-- **The schemas of two lists** are compared by items and description. -/
theorem unchanged_list_iff {key : Scalar} {item item' : Value} {description description' : Option Value} :
    Unchanged key (withDescription description (listOf true item))
        (withDescription description' (listOf true item'))
      ↔ Unchanged (.str "items") item item'
        ∧ Unchanged (.str "description") ((description.filter Value.isTruthy).getD .null)
          ((description'.filter Value.isTruthy).getD .null) := by
  rw [withDescription_list, withDescription_list,
    unchanged_map_iff_get? (textKeys_listMembers _ _) (textKeys_listMembers _ _)]
  constructor
  · intro h
    have hitems := h "items"
    have habout := h "description"
    rw [get?_listMembers, get?_listMembers] at hitems habout
    exact ⟨hitems, habout⟩
  · rintro ⟨hitems, habout⟩ name
    rw [get?_listMembers, get?_listMembers]
    by_cases htype : name = "type"
    · rw [if_pos htype, if_pos htype]
      exact unchanged_str _ _
    · rw [if_neg htype, if_neg htype]
      by_cases hitem : name = "items"
      · rw [if_pos hitem, if_pos hitem, hitem]
        exact hitems
      · rw [if_neg hitem, if_neg hitem]
        by_cases hdescription : name = "description"
        · rw [if_pos hdescription, if_pos hdescription, hdescription]
          exact habout
        · rw [if_neg hdescription, if_neg hdescription]
          exact unchanged_null _

/-! ## Member by member -/

variable {scope : Scope} {path : String} {old new : Members}

/-- What a mapping has under a key; what is absent is null. -/
def memberAt (members : Members) (key : Scalar) : Value := (Members.find? members key).getD .null

/-- The keys of two mappings, those of the old one first. -/
def memberKeys (old new : Members) : List Scalar :=
  old.map (·.1) ++ (new.map (·.1)).filter fun key => !Members.contains old key

/-- The changes under one key. -/
def compareAt (scope : Scope) (path : String) (old new : Members) (key : Scalar) : List Change :=
  if scope.excludes (memberPath path key) key then []
  else compareUnder scope (memberPath path key) key (memberAt new key) (memberAt old key)

/-! ## Keys -/

theorem contains_eq_true_iff {key : Scalar} (hkey : ∃ name, key = .str name) :
    Members.contains old key = true ↔ key ∈ old.map (·.1) := by
  constructor
  · intro hcontains
    obtain ⟨m, hm, hsame⟩ := List.any_eq_true.mp hcontains
    obtain ⟨name, rfl⟩ := hkey
    exact List.mem_map.mpr ⟨m, hm, Scalar.sameKey_str_iff.mp hsame⟩
  · intro hmem
    obtain ⟨m, hm, rfl⟩ := List.mem_map.mp hmem
    exact contains_of_mem hm

theorem mem_memberKeys (hnew : TextKeys new) {key : Scalar} :
    key ∈ memberKeys old new ↔ key ∈ old.map (·.1) ∨ key ∈ new.map (·.1) := by
  unfold memberKeys
  rw [List.mem_append, List.mem_filter]
  constructor
  · exact fun h => h.imp_right (·.1)
  · rintro (h | h)
    · exact .inl h
    · by_cases hmem : key ∈ old.map (·.1)
      · exact .inl hmem
      · obtain ⟨m, hm, rfl⟩ := List.mem_map.mp h
        refine .inr ⟨h, ?_⟩
        rw [Bool.not_eq_true', Bool.eq_false_iff]
        exact fun hcontains => hmem ((contains_eq_true_iff (hnew.text m hm)).mp hcontains)

theorem nodup_memberKeys (hold : TextKeys old) (hnew : TextKeys new) :
    (memberKeys old new).Nodup := by
  refine List.nodup_append.mpr ⟨hold.nodup, hnew.nodup.filter _, ?_⟩
  rintro key hmem _ hfilter rfl
  obtain ⟨m, hm, rfl⟩ := List.mem_map.mp hmem
  have hcontains := (List.mem_filter.mp hfilter).2
  rw [contains_of_mem hm] at hcontains
  cases hcontains

/-! ## Changes -/

theorem memberAt_of_mem (h : TextKeys old) {m : Scalar × Value} (hm : m ∈ old) :
    memberAt old m.1 = m.2 := by
  unfold memberAt
  rw [find?_of_mem h.text h.nodup hm]
  rfl

theorem memberAt_of_contains_eq_false {key : Scalar} (h : Members.contains old key = false) :
    memberAt old key = .null := by
  unfold memberAt Members.find?
  rw [List.find?_eq_none.mpr fun m hm hsame => ?_]
  · rfl
  · rw [Members.contains, List.any_eq_true.mpr ⟨m, hm, hsame⟩] at h
    cases h

theorem keptMembers_eq_flatMap : keptMembers scope path new old
    = old.flatMap fun m => if scope.excludes (memberPath path m.1) m.1 then []
        else compareUnder scope (memberPath path m.1) m.1 (memberAt new m.1) m.2 := by
  induction old with
  | nil => rfl
  | cons m rest ih =>
    rw [keptMembers, ih, List.flatMap_cons]
    rfl

/-- **The changes of two mappings, key by key.** -/
theorem compareMembers_eq_flatMap (hold : TextKeys old) (hnew : TextKeys new) :
    compareMembers scope path old new
      = (memberKeys old new).flatMap (compareAt scope path old new) := by
  unfold compareMembers memberKeys
  rw [List.flatMap_append, List.flatMap_map, keptMembers_eq_flatMap, List.filter_map,
    List.flatMap_map]
  congr 1
  · refine List.flatMap_congr fun m hm => ?_
    rw [compareAt, memberAt_of_mem hold hm]
  · unfold addedMembers
    refine List.flatMap_congr fun m hm => ?_
    obtain ⟨hm, hcontains⟩ := List.mem_filter.mp hm
    rw [compareAt, memberAt_of_mem hnew hm,
      memberAt_of_contains_eq_false (by simpa using hcontains), compareUnder_of_not_maps (.inl rfl)]

/-! ## Pairs of values -/

theorem memberAt_cases {p : Value → Prop} {members : Members} (key : Scalar) (null : p .null)
    (values : ∀ m ∈ members, p m.2) : p (memberAt members key) := by
  unfold memberAt Members.find?
  cases hfind : List.find? (fun m => m.1.sameKey key) members with
  | none => exact null
  | some m => exact values m (List.mem_of_find?_eq_some hfind)

/-- **What is compared in pairs:** values of which one is no mapping, and two mappings by what they
have under every key. Induction on the size of the old one. -/
theorem pair_induction {p : Value → Value → Prop}
    (whole : ∀ v w, v.isMap = false ∨ w.isMap = false → p v w)
    (maps : ∀ old new : Members,
      (∀ key, p (memberAt old key) (memberAt new key)) → p (.map old) (.map new))
    (v w : Value) : p v w := by
  induction hsize : v.size using Nat.strongRecOn generalizing v w with
  | ind n ih =>
    subst hsize
    match v, w with
    | .map old, .map new =>
      refine maps old new fun key => memberAt_cases (p := (p · (memberAt new key))) key
        (whole _ _ (.inl rfl)) fun m hm => ?_
      have hlt : m.2.size < (Value.map old).size := Nat.lt_succ_of_le (size_le_membersSize hm)
      exact ih _ hlt _ _ rfl
    | .scalar _, _ | .list _, _ | .set _, _ => exact whole _ _ (.inl rfl)
    | .map _, .scalar _ | .map _, .list _ | .map _, .set _ => exact whole _ _ (.inr rfl)

end ApiContract.Drift
