import ApiContract.Proofs.Drift.Ignored
import ApiContract.Proofs.Drift.Specs
import ApiContract.Proofs.Export.Restored

/-!
# Reported differences

A comparison of two mappings reports what it reports of their members, so a difference far inside is
reported by every comparison around it, as long as no member on the way is left out. With the
descriptions left out these are the members called `description`, whatever they are.

* **`reports_map`** — the step from a member to the mapping.
* **`ReportsKeyword.field`** — the step from the node of a type to the schema of a field.
* **`exists_change_of_reports`** — from input and output to the specs.
-/

namespace ApiContract.Drift

open Contract Export Schema

variable {quiet : Bool} {kinds : ChangeKind → Bool} {key name : String}

/-- Every comparison of the values under a key has a change of one of the kinds. If `quiet`, the
members called `description` are left out. -/
def Reports (quiet : Bool) (kinds : ChangeKind → Bool) (key : String) (old new : Value) : Prop :=
  ∀ path, ∃ c ∈ compareUnder ⟨[], quiet⟩ path (.str key) new old, kinds c.kind = true

/-- A member is left out. -/
def IsHidden (quiet : Bool) (name : String) : Prop := quiet = true ∧ name = "description"

theorem excludes_eq_false (hname : ¬ IsHidden quiet name) (path : String) :
    (⟨[], quiet⟩ : Scope).excludes path (.str name) = false := by
  unfold Scope.excludes isIgnored
  rw [List.any_nil, Bool.false_or, Scalar.sameKey_str, Bool.and_eq_false_iff]
  by_cases h : quiet = true
  · exact .inr (beq_false_of_ne fun heq => hname ⟨h, heq⟩)
  · exact .inl (Bool.eq_false_iff.mpr h)

/-! ## Single values -/

/-- Outside `required`, and where something else stands there than names, values are compared as a
whole. -/
theorem compareMember_of_values {path : String} {old new : Value}
    (h : key = "required" → names? old = none ∨ names? new = none) :
    compareMember path (.str key) old new = (compare path old new s!"Changed {path}").toList := by
  unfold compareMember
  dsimp only
  rw [Scalar.sameKey_str]
  split
  · rename_i hkey hold hnew
    rcases h (beq_iff_eq.mp hkey) with hnone | hnone
    · cases hold.symm.trans hnone
    · cases hnew.symm.trans hnone
  · rfl

/-- Values that are not the same are reported, in the kind of their difference. -/
theorem reports_values {old new : Value} (hmap : old.isMap = false ∨ new.isMap = false)
    (hsame : same old new = false)
    (hnames : key = "required" → names? old = none ∨ names? new = none)
    (hkind : kinds (changeKind old new) = true) : Reports quiet kinds key old new := by
  intro path
  rw [compareUnder_of_not_maps hmap, compareMember_of_values hnames]
  unfold compare
  rw [hsame, if_neg Bool.false_ne_true]
  exact ⟨_, List.mem_singleton_self _, hkind⟩

/-- Only a mapping without members is taken for no names. -/
theorem names?_eq_none {v : Value} (hmap : v.isMap = true) (h : v ≠ .map []) : names? v = none := by
  cases v with
  | map members =>
    cases members with
    | nil => exact absurd rfl h
    | cons m rest => rfl
  | _ => cases hmap

theorem reports_removed {v : Value} (hmap : v.isMap = true)
    (hname : name = "required" → v ≠ .map []) (hkind : kinds .removed = true) : Reports quiet kinds name v .null := by
  have hnames : name = "required" → names? v = none ∨ names? .null = none :=
    fun h => .inl (names?_eq_none hmap (hname h))
  cases v with
  | map members => exact reports_values (.inr rfl) rfl hnames hkind
  | _ => cases hmap

theorem reports_added {v : Value} (hmap : v.isMap = true) (hname : name = "required" → v ≠ .map [])
    (hkind : kinds .added = true) : Reports quiet kinds name .null v := by
  have hnames : name = "required" → names? .null = none ∨ names? v = none :=
    fun h => .inr (names?_eq_none hmap (hname h))
  cases v with
  | map members => exact reports_values (.inl rfl) rfl hnames hkind
  | _ => cases hmap

theorem kind_of_compareNames {path : String} {names names' : List String} {c : Change}
    (h : compareNames path names names' = some c) : c.kind = .requiredChanged := by
  unfold compareNames at h
  dsimp only at h
  split at h <;> cases h
  rfl

/-- Other names are reported. -/
theorem reports_names {old new : Value} {names names' : List String}
    (hmap : old.isMap = false ∨ new.isMap = false) (hold : names? old = some names)
    (hnew : names? new = some names') (hne : ¬ ∀ name, name ∈ names ↔ name ∈ names')
    (hkind : kinds .requiredChanged = true) : Reports quiet kinds "required" old new := by
  intro path
  have hchange : compareNames path names names' ≠ none :=
    fun hnone => hne (compareNames_eq_none_iff.mp hnone)
  obtain ⟨c, hc⟩ := Option.ne_none_iff_exists'.mp hchange
  rw [compareUnder_of_not_maps hmap]
  unfold compareMember
  rw [Scalar.sameKey_self, hold, hnew]
  dsimp only
  rw [hc]
  exact ⟨c, List.mem_singleton_self _, (kind_of_compareNames hc).symm ▸ hkind⟩

/-! ## Mappings -/

/-- The changes for the keys of the old mapping are those of its members. -/
theorem mem_keptMembers_iff {scope : Scope} {path : String} {old new : Members} {c : Change} :
    c ∈ keptMembers scope path new old
      ↔ ∃ m ∈ old, scope.excludes (memberPath path m.1) m.1 = false
        ∧ c ∈ compareUnder scope (memberPath path m.1) m.1 ((Members.find? new m.1).getD .null) m.2 := by
  induction old with
  | nil => exact ⟨nofun, nofun⟩
  | cons m rest ih =>
    obtain ⟨k, v⟩ := m
    rw [keptMembers, List.mem_append, ih, List.exists_mem_cons_iff]
    refine or_congr_left ?_
    dsimp only
    cases scope.excludes (memberPath path k) k with
    | true => simp
    | false => simp

/-- The changes for the keys that only the new mapping has are those of its members. -/
theorem mem_addedMembers_iff {scope : Scope} {path : String} {old new : Members} {c : Change} :
    c ∈ addedMembers scope path old new
      ↔ ∃ m ∈ new, Members.contains old m.1 = false
        ∧ scope.excludes (memberPath path m.1) m.1 = false
        ∧ c ∈ compareMember (memberPath path m.1) m.1 .null m.2 := by
  unfold addedMembers
  rw [List.mem_flatMap]
  refine exists_congr fun m => ?_
  rw [List.mem_filter, and_assoc, Bool.not_eq_true']
  refine and_congr_right fun _ => and_congr_right fun _ => ?_
  dsimp only
  cases scope.excludes (memberPath path m.1) m.1 with
  | true => simp
  | false => simp

/-- **What is reported of a member is reported of the mapping**, unless the member is left out. -/
theorem reports_map {old new : Members} (hname : ¬ IsHidden quiet name)
    (h : Reports quiet kinds name ((Value.map old).field name) ((Value.map new).field name)) :
    Reports quiet kinds key (.map old) (.map new) := by
  intro path
  obtain ⟨c, hc, hkind⟩ := h (memberPath path (.str name))
  rw [Value.field_map, Value.field_map] at hc
  refine ⟨c, ?_, hkind⟩
  show c ∈ keptMembers _ path new old ++ addedMembers _ path old new
  rw [List.mem_append]
  -- a key of the old mapping is compared there, one that is new among the added ones
  cases hold : Members.get? old name with
  | some v =>
    rw [hold] at hc
    exact .inl (mem_keptMembers_iff.mpr
      ⟨_, Members.mem_of_get? hold, excludes_eq_false hname _, hc⟩)
  | none =>
    rw [hold] at hc
    cases hnew : Members.get? new name with
    | none =>
      rw [hnew] at hc
      rw [Option.getD_none, compareUnder_scope _ _ .null (unchanged_null _)] at hc
      cases hc
    | some w =>
      rw [hnew] at hc
      refine .inr (mem_addedMembers_iff.mpr
        ⟨_, Members.mem_of_get? hnew, ?_, excludes_eq_false hname _, hc⟩)
      rw [Members.contains_str, hold]
      rfl

theorem reports_of_field {old new : Value} (hold : old.isMap = true) (hnew : new.isMap = true)
    (hname : ¬ IsHidden quiet name) (h : Reports quiet kinds name (old.field name) (new.field name)) :
    Reports quiet kinds key old new := by
  cases old with
  | map old =>
    cases new with
    | map new => exact reports_map hname h
    | _ => cases hnew
  | _ => cases hold

/-! ## Schemas -/

/-- Something beside the description is reported of two schemas. -/
def ReportsKeyword (quiet : Bool) (kinds : ChangeKind → Bool) (old new : Value) : Prop :=
  ∃ name, name ≠ "description" ∧ Reports quiet kinds name (old.field name) (new.field name)

theorem ReportsKeyword.reports {old new : Value} (h : ReportsKeyword quiet kinds old new)
    (hold : old.isMap = true) (hnew : new.isMap = true) : Reports quiet kinds key old new := by
  obtain ⟨name, hname, h⟩ := h
  exact reports_of_field hold hnew (fun hidden => hname hidden.2) h

theorem get?_withDescription (hname : name ≠ "description") (description : Option Value)
    (node : Value) : (withDescription description node).get? name = node.get? name := by
  unfold withDescription
  split
  · split
    · exact get?_describe_of_ne hname
    · rfl
  · rfl

theorem get?_toJsonSchema (hname : name ≠ "description") (f : FieldSpec) :
    f.toJsonSchema.get? name = (listOf f.isArray (typeNode f)).get? name := by
  rw [toJsonSchema_eq_typeNode, get?_withDescription hname]

theorem field_toJsonSchema (hname : name ≠ "description") (f : FieldSpec) :
    f.toJsonSchema.field name = (listOf f.isArray (typeNode f)).field name := by
  unfold Value.field
  rw [get?_toJsonSchema hname]

/-- What a type is: a model, an enumeration, a reference or a scalar. -/
theorem typeNode_cases {p : Value → Prop} {f : FieldSpec}
    (model : ∀ m, f.model = some m → p (.map (modelMembers m)))
    (enum : ∀ values, p (.map (enumMembers values))) (reference : ∀ r, p (componentReference r))
    (scalar : ∀ s : ScalarType, p (.map s.schema)) : p (typeNode f) := by
  obtain ⟨s, values, m, ref, isOptional, isArray, description⟩ := f
  cases m with
  | some m =>
    rw [typeNode, toJsonSchema_eq]
    exact model m rfl
  | none =>
    cases values with
    | some values => exact enum values
    | none =>
      cases ref with
      | some ref => exact reference ref
      | none => exact scalar _

theorem isMap_typeNode (f : FieldSpec) : (typeNode f).isMap = true :=
  typeNode_cases (p := fun node => node.isMap = true) (fun _ _ => rfl) (fun _ => rfl) (fun _ => rfl)
    (fun _ => rfl)

/-- **What is reported of the nodes of two types is reported of the fields**, if both are lists or
none is. -/
theorem ReportsKeyword.field {f f' : FieldSpec} (harray : f.isArray = f'.isArray)
    (h : ReportsKeyword quiet kinds (typeNode f) (typeNode f')) :
    ReportsKeyword quiet kinds f.toJsonSchema f'.toJsonSchema := by
  cases hlist : f.isArray with
  | true =>
    refine ⟨"items", by decide, ?_⟩
    rw [field_toJsonSchema (by decide), field_toJsonSchema (by decide), ← harray, hlist]
    exact h.reports (isMap_typeNode f) (isMap_typeNode f')
  | false =>
    obtain ⟨name, hname, h⟩ := h
    refine ⟨name, hname, ?_⟩
    rw [field_toJsonSchema hname, field_toJsonSchema hname, ← harray, hlist]
    exact h

/-! ## Specs -/

/-- No path that the options name is one of input or output. -/
theorem isIgnored_ignoredPaths {options : Options} (hpaths : options.ignorePaths = []) {path : String}
    (hpath : IsBelow "io." path) : isIgnored (ignoredPaths options) path = false := by
  have hapart : ∀ p ∈ descriptionPaths ++ ["meta.tags"], ¬ IsBelow p "io." ∧ ¬ IsBelow "io." p := by
    decide
  have hsub : ∀ p ∈ ignoredPaths options, p ∈ descriptionPaths ++ ["meta.tags"] := by
    intro p hp
    unfold ignoredPaths at hp
    rw [hpaths, List.nil_append] at hp
    rcases List.mem_append.mp hp with hp | hp <;> split at hp
    · exact List.mem_append_left _ hp
    · cases hp
    · exact List.mem_append_right _ hp
    · cases hp
  refine List.any_eq_false.mpr fun p hp h => ?_
  -- of two beginnings of one path, one begins the other
  have hp := hapart p (hsub p hp)
  rcases List.prefix_or_prefix_of_prefix (List.isPrefixOf_iff_prefix.mp h) hpath with h | h
  · exact hp.1 h
  · exact hp.2 h

/-- Nothing but descriptions is left out of input and output. -/
theorem compareMembers_io {options : Options} (hpaths : options.ignorePaths = [])
    (old new : Members) :
    compareMembers ⟨ignoredPaths options, options.ignoreDescriptions⟩ "io" old new
      = compareMembers ⟨[], options.ignoreDescriptions⟩ "io" old new := by
  have hscope : (⟨ignoredPaths options, options.ignoreDescriptions⟩ : Scope)
      = (⟨[], options.ignoreDescriptions⟩ : Scope).ignoring (ignoredPaths options) := by
    unfold Scope.ignoring
    rw [List.append_nil]
  rw [hscope, compareMembers_ignoring]
  refine List.filter_eq_self.mpr fun c hc => ?_
  obtain ⟨key, hkey⟩ := isBelow_of_mem_compareMembers hc
  rw [isIgnored_ignoredPaths hpaths (IsBelow.trans ?_ hkey)]
  · rfl
  · unfold memberPath IsBelow
    rw [if_neg (by decide), String.toList_append (s := "io" ++ ".")]
    exact List.prefix_append _ _

/-- **What is reported of input or output is reported of the specs.** -/
theorem exists_change_of_reports {options : Options} (hpaths : options.ignorePaths = [])
    {old new : OperationSpec} {part : OperationSpec → Option SchemaModel}
    (hpart : part ∈ [OperationSpec.input, OperationSpec.output])
    (h : ∀ name, name ≠ "required" → Reports options.ignoreDescriptions kinds name
      (optionalSchema (part old)) (optionalSchema (part new))) :
    ∃ c ∈ compareSpecs options old new, kinds c.kind = true := by
  have hio : Reports options.ignoreDescriptions kinds "io" (.map (schemaTree old))
      (.map (schemaTree new)) := by
    have hvisible : ∀ name, name ≠ "description" → ¬ IsHidden options.ignoreDescriptions name :=
      fun name hname hidden => hname hidden.2
    rcases List.mem_pair.mp hpart with rfl | rfl
    · refine reports_map (hvisible "input" (by decide)) ?_
      rw [Value.field_map, Value.field_map, get?_schemaTree, get?_schemaTree]
      exact h "input" (by decide)
    · refine reports_map (hvisible "output" (by decide)) ?_
      rw [Value.field_map, Value.field_map, get?_schemaTree, get?_schemaTree]
      exact h "output" (by decide)
  obtain ⟨c, hc, hkind⟩ := hio "io"
  refine ⟨c, ?_, hkind⟩
  have hc : c ∈ compareMembers ⟨ignoredPaths options, options.ignoreDescriptions⟩ "io"
      (schemaTree old) (schemaTree new) := (compareMembers_io hpaths _ _).symm ▸ hc
  unfold compareSpecs
  simp only [List.mem_append]
  exact .inl (.inl (.inr hc))

end ApiContract.Drift
