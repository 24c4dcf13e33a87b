import ApiContract.Config.Global
import ApiContract.Proofs.Checked
import ApiContract.Proofs.Json.Legible
import ApiContract.Proofs.Value.Lookup

/-!
# Changing one setting

A configuration is a record of settings, and so are most of its members. A check of a record goes
member by member, and it accepts what was written as what it was. So a new value at one place counts
there alone: what stands apart from it is checked as before, and written as before.

The file of a configuration can always be read again, and gives the configuration that was written:
the numbers of a configuration come from texts, and what is read from a text can be written.

* **`isolates_of_leaf`** / **`IsModel.isolates`** — settings, and records of settings.
* **`valueAt?_set`** — what a change leaves as it is.
* **`storable_of_check`** — what a configuration holds after a check.
* **`ofFile_text`** — reading the file of a configuration.
-/

namespace ApiContract.Config

variable {α β : Type}

/-! ## Places -/

/-- The value at a path of names. -/
def valueAt? (path : List String) (v : Value) : Option Value := path.foldlM Value.get? v

/-- Two paths that part: neither of them leads through the end of the other. -/
def Apart (path place : List String) : Prop := ¬ path <+: place ∧ ¬ place <+: path

theorem valueAt?_cons (name : String) (path : List String) (v : Value) :
    valueAt? (name :: path) v = (v.get? name).bind (valueAt? path) := rfl

theorem Apart.exists_cons {name : String} {path rest : List String}
    (h : Apart path (name :: rest)) :
    ∃ other more, path = other :: more ∧ (other = name → rest ≠ [] ∧ Apart more rest) := by
  cases path with
  | nil => exact absurd (List.nil_prefix) h.1
  | cons other more =>
    refine ⟨other, more, rfl, ?_⟩
    rintro rfl
    obtain ⟨hshort, hlong⟩ := h
    rw [List.prefix_cons_inj] at hshort hlong
    exact ⟨fun hnil => hlong (hnil ▸ List.nil_prefix), hshort, hlong⟩

/-- What is replaced is a member of a mapping, or something in such a member. -/
theorem replaceAt_eq_some {new old v : Value} {place : List String}
    (h : Global.replaceAt new place old = some v) :
    ∃ name rest members part inner, place = name :: rest ∧ old = .map members
      ∧ Members.get? members name = some part
      ∧ (rest = [] ∧ inner = new ∨ rest ≠ [] ∧ Global.replaceAt new rest part = some inner)
      ∧ v = .map (Members.insert members (.str name) inner) := by
  cases place with
  | nil => cases h
  | cons name rest =>
    cases old with
    | scalar leaf => cases h
    | list items => cases h
    | set items => cases h
    | map members =>
      rw [Global.replaceAt] at h
      obtain ⟨part, hpart, h⟩ := Option.bind_eq_some_iff.mp h
      cases rest with
      | nil =>
        obtain rfl := Option.some.inj h
        exact ⟨name, [], members, part, new, rfl, rfl, hpart, .inl ⟨rfl, rfl⟩, rfl⟩
      | cons next rest =>
        obtain ⟨inner, hinner, h⟩ := Option.bind_eq_some_iff.mp h
        obtain rfl := Option.some.inj h
        exact ⟨name, next :: rest, members, part, inner, rfl, rfl, hpart,
          .inr ⟨List.cons_ne_nil _ _, hinner⟩, rfl⟩

/-! ## Records -/

/-- A new value at one place of what is written changes nothing apart from that place. -/
def Isolates (check : Check β) (toValue : β → Value) : Prop :=
  ∀ (b b' : β) (place : List String) (new v : Value),
    Global.replaceAt new place (toValue b) = some v → check v = .ok b' →
    ∀ path, Apart path place → valueAt? path (toValue b') = valueAt? path (toValue b)

/-- What is no mapping has no places. -/
theorem isolates_of_leaf {check : Check β} {toValue : β → Value}
    (h : ∀ b, (toValue b).isMap = false) : Isolates check toValue := by
  intro b b' place new v hreplace _
  obtain ⟨name, rest, members, part, inner, -, hmap, -⟩ := replaceAt_eq_some hreplace
  have hleaf := h b
  rw [hmap] at hleaf
  cases hleaf

/-- A member of a record: how it is checked and written, with what was written accepted again. -/
structure Field (α : Type) where
  {β : Type}
  name : String
  check : Check β
  toValue : β → Value
  get : α → β
  accepts : ∀ b, check (toValue b) = .ok b
  isolates : Isolates check toValue

/-- The member of a record. -/
def Field.value (f : Field α) (a : α) : Value := f.toValue (f.get a)

/-- A record is written member by member, and every member that is there is checked by itself. -/
structure IsModel (check : Check α) (toValue : α → Value) (fields : List (Field α)) : Prop where
  written : ∀ a, toValue a = .map (fields.map fun f => member f.name (f.value a))
  checked : ∀ {v a}, check v = .ok a → ∀ f ∈ fields, ∀ part, v.get? f.name = some part →
    f.check part = .ok (f.get a)

section Records

variable {check : Check α} {toValue : α → Value} {fields : List (Field α)}

/-- The member under a name is that of the first field with the name. -/
theorem IsModel.get? (h : IsModel check toValue fields) (a : α) (name : String) :
    (toValue a).get? name = (fields.find? (·.name == name)).map (·.value a) := by
  rw [h.written]
  exact Members.get?_map fields Field.name (fun f => f.value a) name

/-- **A new value in a record counts at its place alone.** The member that it stands in changes
nothing apart from the place, and every other member is the one that was written. -/
theorem IsModel.isolates (h : IsModel check toValue fields) : Isolates check toValue := by
  intro a a' place new v hreplace hcheck path hapart
  obtain ⟨name, rest, members, part, inner, rfl, hmembers, hpart, hinner, rfl⟩ :=
    replaceAt_eq_some hreplace
  obtain ⟨other, more, rfl, hsame⟩ := hapart.exists_cons
  rw [valueAt?_cons, valueAt?_cons, h.get?, h.get?]
  cases hfind : fields.find? (·.name == other) with
  | none => rfl
  | some f =>
    have hname : f.name = other := by simpa using List.find?_some hfind
    have hwritten : Members.get? members other = some (f.value a) := by
      have hget := h.get? a other
      rw [hmembers, hfind] at hget
      exact hget
    have hchecked : ∀ part, (if name = other then some inner else some (f.value a)) = some part →
        f.check part = .ok (f.get a') := by
      intro part hget
      refine h.checked hcheck f (List.mem_of_find?_eq_some hfind) part ?_
      rw [← hget, hname]
      show Members.get? (Members.insert members (.str name) inner) other = _
      rw [Members.get?_insert, hwritten]
    show valueAt? more (f.value a') = valueAt? more (f.value a)
    by_cases heq : name = other
    · subst heq
      obtain ⟨hne, hmore⟩ := hsame rfl
      rw [hwritten] at hpart
      cases hpart
      have hin := (hinner.resolve_left fun hnil => hne hnil.1).2
      exact f.isolates _ _ _ _ _ hin (hchecked inner (if_pos rfl)) more hmore
    · have hkept : f.get a = f.get a' :=
        Checked.ok.inj ((f.accepts (f.get a)).symm.trans (hchecked _ (if_neg heq)))
      unfold Field.value
      rw [hkept]

/-- A value that has a text, and is read again from it. -/
structure Kept (v : Value) : Prop where
  tree : Json.Tree v
  legible : Json.Legible v
  rereads : Json.Rereads v

theorem kept_leaf {s : Scalar} (h : Json.IsLegibleLeaf s) : Kept (.scalar s) := by
  refine ⟨.leaf ?_, .leaf h, Json.rereads_leaf h⟩
  cases s with
  | null | bool b | float x | str s => exact trivial
  | int n => exact h
  | date d | dateTime t | bytes b => exact h.elim

theorem kept_str (s : String) : Kept (.str s) := kept_leaf trivial

theorem kept_texts (items : List String) : Kept (texts items) := by
  have hitems : ∀ v ∈ items.map Value.str, Kept v := List.forall_mem_map.mpr fun s _ => kept_str s
  exact ⟨.list fun v hv => (hitems v hv).tree, .list fun v hv => (hitems v hv).legible,
    Json.rereads_list fun v hv => (hitems v hv).rereads⟩

/-- A record is kept if its members are, and have names of their own. -/
theorem IsModel.kept (h : IsModel check toValue fields) (hnames : (fields.map Field.name).Nodup)
    {a : α} (hfields : ∀ f ∈ fields, Kept (f.value a)) : Kept (toValue a) := by
  rw [h.written]
  have hkeys : ∀ m ∈ fields.map fun f => member f.name (f.value a), ∃ name, m.1 = .str name :=
    List.forall_mem_map.mpr fun f _ => ⟨f.name, rfl⟩
  refine ⟨.map hkeys ?_, .map ?_, Json.rereads_map hkeys ?_ ?_⟩
  · exact List.forall_mem_map.mpr fun f hf => (hfields f hf).tree
  · exact List.forall_mem_map.mpr fun f hf => (hfields f hf).legible
  · have hstr := hnames.map (f := Scalar.str) fun _ _ heq => Scalar.str.inj heq
    rw [List.map_map] at hstr ⊢
    exact hstr
  · exact List.forall_mem_map.mpr fun f hf => (hfields f hf).rereads

end Records

/-! ## The records of a configuration -/

theorem members_of_model {members : Value → Checked α} {v : Value} {a : α}
    (h : Check.model members v = .ok a) : members v = .ok a := by
  unfold Check.model at h
  split at h
  · exact h
  · cases h

theorem withDefault_of_get? {check : Check β} {default : β} {name : String} {v part : Value}
    (h : v.get? name = some part) : Check.withDefault check default name v = check part := by
  unfold Check.withDefault
  rw [h]
  rfl

/-- What a check of one member gives, said about the member that is there. -/
theorem checked_of_withDefault {check : Check β} {default b : β} {name : String} {v part : Value}
    (h : Check.withDefault check default name v = .ok b) (hpart : v.get? name = some part) :
    check part = .ok b := (withDefault_of_get? hpart).symm.trans h

theorem accepts_texts (items : List String) : Check.list Check.text (texts items) = .ok items := by
  refine Checked.all_eq_ok.mpr ?_
  rw [List.map_map]
  rfl

namespace CacheSettings

def fields : List (Field CacheSettings) := [
  ⟨"enabled", Check.bool, .bool, (·.enabled), fun _ => rfl, isolates_of_leaf fun _ => rfl⟩,
  ⟨"ttl_seconds", Check.int, .int, (·.ttlSeconds), fun _ => rfl, isolates_of_leaf fun _ => rfl⟩]

theorem isModel : IsModel check toValue fields where
  written _ := rfl
  checked := by
    intro v s h
    obtain ⟨_, ttl, h₁, httl, rfl⟩ := Checked.seq_eq_ok.mp (members_of_model h)
    obtain ⟨enabled, henabled, rfl⟩ := Checked.map_eq_ok.mp h₁
    simp only [fields, List.forall_mem_cons]
    exact ⟨fun _ => checked_of_withDefault henabled, fun _ => checked_of_withDefault httl, nofun⟩

theorem accepts (s : CacheSettings) : check s.toValue = .ok s := rfl

end CacheSettings

namespace ImportDefaults

def fields : List (Field ImportDefaults) := [
  ⟨"prefix", Check.optional Check.text, orNull .str, (·.namePrefix),
    fun name => by cases name <;> rfl, isolates_of_leaf fun name => by cases name <;> rfl⟩,
  ⟨"default_owners", Check.list Check.text, texts, (·.owners), accepts_texts,
    isolates_of_leaf fun _ => rfl⟩,
  ⟨"default_stability", Contract.Stability.check, fun s => .str s.name, (·.stability),
    fun s => by cases s <;> rfl, isolates_of_leaf fun _ => rfl⟩,
  ⟨"default_auth", Contract.AuthLevel.check, fun s => .str s.name, (·.auth),
    fun s => by cases s <;> rfl, isolates_of_leaf fun _ => rfl⟩]

theorem isModel : IsModel check toValue fields where
  written _ := rfl
  checked := by
    intro v d h
    obtain ⟨_, auth, h₃, hauth, rfl⟩ := Checked.seq_eq_ok.mp (members_of_model h)
    obtain ⟨_, stability, h₂, hstability, rfl⟩ := Checked.seq_eq_ok.mp h₃
    obtain ⟨_, owners, h₁, howners, rfl⟩ := Checked.seq_eq_ok.mp h₂
    obtain ⟨namePrefix, hnamed, rfl⟩ := Checked.map_eq_ok.mp h₁
    simp only [fields, List.forall_mem_cons]
    exact ⟨fun _ => checked_of_withDefault hnamed, fun _ => checked_of_withDefault howners,
      fun _ => checked_of_withDefault hstability, fun _ => checked_of_withDefault hauth, nofun⟩

theorem accepts (d : ImportDefaults) : check d.toValue = .ok d := by
  have hnamed : Check.perhaps Check.text "prefix" d.toValue = .ok d.namePrefix :=
    (withDefault_of_get? rfl).trans (by cases d.namePrefix <;> rfl)
  have howners : Check.withDefault (Check.list Check.text) [] "default_owners" d.toValue
      = .ok d.owners := (withDefault_of_get? rfl).trans (accepts_texts d.owners)
  have hstability : Check.withDefault Contract.Stability.check .stable "default_stability" d.toValue
      = .ok d.stability := (withDefault_of_get? rfl).trans (by cases d.stability <;> rfl)
  have hauth : Check.withDefault Contract.AuthLevel.check .user "default_auth" d.toValue
      = .ok d.auth := (withDefault_of_get? rfl).trans (by cases d.auth <;> rfl)
  show ImportDefaults.mk <$> Check.perhaps Check.text "prefix" d.toValue <*> _ <*> _ <*> _ = _
  rw [hnamed, howners, hstability, hauth]
  rfl

end ImportDefaults

namespace Global

/-- The value of a group of one setting. -/
def groupValue (name : String) (toValue : β → Value) (b : β) : Value :=
  .map [member name (toValue b)]

theorem isModel_group {check : Check β} {toValue : β → Value} (default : β) (name : String)
    (haccepts : ∀ b, check (toValue b) = .ok b) (hisolates : Isolates check toValue) :
    IsModel (group check default name) (groupValue name toValue)
      [⟨name, check, toValue, id, haccepts, hisolates⟩] where
  written _ := rfl
  checked := by
    intro v b h
    simp only [List.forall_mem_cons]
    exact ⟨fun _ => checked_of_withDefault (members_of_model h), nofun⟩

theorem accepts_group {check : Check β} {toValue : β → Value} (default : β) (name : String)
    (haccepts : ∀ b, check (toValue b) = .ok b) (b : β) :
    group check default name (groupValue name toValue b) = .ok b := by
  have hget : (groupValue name toValue b).get? name = some (toValue b) := by
    show Members.get? [member name (toValue b)] name = _
    rw [Members.get?_member_cons, if_pos rfl]
  show Check.withDefault check default name (groupValue name toValue b) = .ok b
  rw [withDefault_of_get? hget, haccepts]

def fields : List (Field Global) := [
  ⟨"schema_format", Codegen.Dialect.check, fun d => .str d.name, (·.dialect),
    fun d => by cases d <;> rfl, isolates_of_leaf fun _ => rfl⟩,
  ⟨"output", group Check.text "auto" "format", groupValue "format" .str, (·.outputFormat),
    accepts_group "auto" "format" fun _ => rfl,
    (isModel_group "auto" "format" (fun _ => rfl) (isolates_of_leaf fun _ => rfl)).isolates⟩,
  ⟨"cache", CacheSettings.check, CacheSettings.toValue, (·.cache), CacheSettings.accepts,
    CacheSettings.isModel.isolates⟩,
  ⟨"request", group Check.double defaultTimeout "timeout", groupValue "timeout" .float, (·.timeout),
    accepts_group defaultTimeout "timeout" fun _ => rfl,
    (isModel_group defaultTimeout "timeout" (fun _ => rfl)
      (isolates_of_leaf fun _ => rfl)).isolates⟩,
  ⟨"import_defaults", ImportDefaults.check, ImportDefaults.toValue, (·.importDefaults),
    ImportDefaults.accepts, ImportDefaults.isModel.isolates⟩]

/-- The parts of a configuration that is checked. -/
theorem parts_of_check {v : Value} {g : Global} (h : check v = .ok g) :
    (Check.withDefault Codegen.Dialect.check .declaration "schema_format" v = .ok g.dialect
      ∧ Check.withDefault (group Check.text "auto" "format") "auto" "output" v = .ok g.outputFormat)
      ∧ Check.withDefault CacheSettings.check {} "cache" v = .ok g.cache
      ∧ Check.withDefault (group Check.double defaultTimeout "timeout") defaultTimeout "request" v
        = .ok g.timeout
      ∧ Check.withDefault ImportDefaults.check {} "import_defaults" v = .ok g.importDefaults := by
  obtain ⟨_, imports, h₄, himports, rfl⟩ := Checked.seq_eq_ok.mp (members_of_model h)
  obtain ⟨_, timeout, h₃, htimeout, rfl⟩ := Checked.seq_eq_ok.mp h₄
  obtain ⟨_, cache, h₂, hcache, rfl⟩ := Checked.seq_eq_ok.mp h₃
  obtain ⟨_, format, h₁, hformat, rfl⟩ := Checked.seq_eq_ok.mp h₂
  obtain ⟨dialect, hdialect, rfl⟩ := Checked.map_eq_ok.mp h₁
  exact ⟨⟨hdialect, hformat⟩, hcache, htimeout, himports⟩

theorem isModel : IsModel check toValue fields where
  written _ := rfl
  checked := by
    intro v g h
    obtain ⟨⟨hdialect, hformat⟩, hcache, htimeout, himports⟩ := parts_of_check h
    simp only [fields, List.forall_mem_cons]
    exact ⟨fun _ => checked_of_withDefault hdialect, fun _ => checked_of_withDefault hformat,
      fun _ => checked_of_withDefault hcache, fun _ => checked_of_withDefault htimeout,
      fun _ => checked_of_withDefault himports, nofun⟩

theorem accepts (g : Global) : check g.toValue = .ok g := by
  have hdialect : Check.withDefault Codegen.Dialect.check .declaration "schema_format" g.toValue
      = .ok g.dialect := (withDefault_of_get? rfl).trans (by cases g.dialect <;> rfl)
  have hformat : Check.withDefault (group Check.text "auto" "format") "auto" "output" g.toValue
      = .ok g.outputFormat := rfl
  have hcache : Check.withDefault CacheSettings.check {} "cache" g.toValue = .ok g.cache := rfl
  have htimeout : Check.withDefault (group Check.double defaultTimeout "timeout") defaultTimeout
      "request" g.toValue = .ok g.timeout := rfl
  have himports : Check.withDefault ImportDefaults.check {} "import_defaults" g.toValue
      = .ok g.importDefaults := (withDefault_of_get? rfl).trans (ImportDefaults.accepts _)
  show Global.mk <$> Check.withDefault Codegen.Dialect.check .declaration "schema_format" g.toValue
    <*> _ <*> _ <*> _ <*> _ = _
  rw [hdialect, hformat, hcache, htimeout, himports]
  rfl

/-! ## Changing a setting -/

/-- The key leads to a setting. -/
def Known (g : Global) (key : String) : Prop :=
  (replaceAt .null (keyParts key) g.toValue).isSome = true

variable {g changed : Global} {key text : String}

/-- A change that is made puts the value that the text stands for at the place of the key. -/
theorem set_eq_ok (h : g.set key text = .ok changed) :
    ∃ new v, settingOf text = .ok new ∧ replaceAt new (keyParts key) g.toValue = some v
      ∧ check v = .ok changed := by
  unfold set at h
  split at h
  · cases h
  · obtain ⟨new, hnew, h⟩ := bind_eq_ok.mp h
    split at h
    · cases h
    · rename_i v hv
      split at h
      · rename_i found hfound
        cases h
        exact ⟨new, v, hnew, hv, hfound⟩
      · cases h

/-- **What stands apart from a key is left as it is** by a change of the setting. -/
theorem valueAt?_set (h : g.set key text = .ok changed) :
    ∀ path, Apart path (keyParts key) →
      valueAt? path changed.toValue = valueAt? path g.toValue := by
  obtain ⟨new, v, -, hreplace, hcheck⟩ := set_eq_ok h
  exact isModel.isolates _ _ _ _ _ hreplace hcheck

/-- The only texts that stand for no value are those with an integer that is too long. -/
theorem settingOf_eq_error {cause : Failure} (h : settingOf text = .error cause) :
    ∃ count, Json.read text = .error (.tooManyDigits count) := by
  unfold settingOf at h
  split at h
  · cases h
  · cases h
  · rename_i count hread
    exact ⟨count, hread⟩

/-- **A change is refused with the reason**, except where the key is known and the text has an
integer in it that is too long to be read. -/
theorem set_refused {cause : Failure} (h : g.set key text = .error cause) :
    (∃ problem, cause = .config problem)
      ∨ Known g key ∧ ∃ count, Json.read text = .error (.tooManyDigits count) := by
  unfold set at h
  split at h
  · cases h
    exact .inl ⟨_, rfl⟩
  · rename_i hknown
    rcases bind_eq_error.mp h with hnew | ⟨new, -, h⟩
    · refine .inr ⟨?_, settingOf_eq_error hnew⟩
      rw [Known, ← Option.not_isNone, Bool.not_eq_true', ← Bool.not_eq_true]
      exact hknown
    · left
      split at h
      · cases h
        exact ⟨_, rfl⟩
      · split at h
        · cases h
        · cases h
          exact ⟨_, rfl⟩

theorem set_of_long {count : Nat} (hknown : Known g key)
    (hlong : Json.read text = .error (.tooManyDigits count)) :
    g.set key text = .error .unexpected := by
  have hkey : (replaceAt .null (keyParts key) g.toValue).isNone = false := by
    rw [← Option.not_isSome, hknown]
    rfl
  unfold set settingOf
  rw [hkey, hlong]
  rfl

/-! ## What can be stored -/

/-- A configuration that has a text to be read again: its numbers are not too long, and in the form
that rounding gives. -/
structure Storable (g : Global) : Prop where
  ttl : (toString g.cache.ttlSeconds.natAbs).length ≤ Number.maxDigits
  timeout : g.timeout.IsCanonical

theorem storable_default : Storable {} where
  ttl := by decide
  timeout := Double.isCanonical_ofInt 30

end Global

theorem length_of_wholeInt? {x : Double} {n : Int} (h : Check.wholeInt? x = some n) :
    (toString n.natAbs).length ≤ Number.maxDigits := by
  have hsmall : n.natAbs < 10 ^ 19 := by
    have hbound := (Option.filter_eq_some_iff.mp h).2
    rw [decide_eq_true_eq] at hbound
    omega
  have hshort : (Nat.toDigits 10 n.natAbs).length ≤ 19 :=
    (Nat.length_toDigits_le_iff (by decide) (by decide)).mpr hsmall
  rw [Nat.toString_eq_ofList_toDigits, ← String.length_toList, String.toList_ofList]
  exact hshort.trans (by decide)

theorem written_eq_ok {read? : String → Option β} {v : Value} {b : β}
    (h : Check.written read? v = .ok b) : ∃ s, read? s = some b := by
  unfold Check.written at h
  split at h
  · rename_i s _
    cases hread : read? s with
    | none =>
      rw [hread] at h
      cases h
    | some found =>
      rw [hread] at h
      cases h
      exact ⟨s, hread⟩
  · cases h

/-- An integer that is accepted is not too long. -/
theorem length_of_int {v : Value} {n : Int} (hv : Json.Legible v) (h : Check.int v = .ok n) :
    (toString n.natAbs).length ≤ Number.maxDigits := by
  have htext : Check.written Check.intText? v = .ok n →
      (toString n.natAbs).length ≤ Number.maxDigits := by
    intro h
    obtain ⟨s, hs⟩ := written_eq_ok h
    obtain ⟨-, hint⟩ := Option.ite_none_right_eq_some.mp hs
    exact Number.length_of_int? hint
  unfold Check.int at h
  split at h
  · cases h
    cases hv with
    | leaf legible => exact legible
  · rename_i b
    cases h
    cases b <;> decide
  · rename_i x
    cases hwhole : Check.wholeInt? x with
    | none =>
      rw [hwhole] at h
      cases h
    | some found =>
      rw [hwhole] at h
      cases h
      exact length_of_wholeInt? hwhole
  · exact htext h

theorem isCanonical_of_double? {s : String} {x : Double} (h : Number.double? s = some x) :
    x.IsCanonical := by
  unfold Number.double? at h
  dsimp only at h
  split at h
  · cases h
    exact trivial
  split at h
  · cases h
    exact trivial
  obtain ⟨whole, -, h⟩ := Option.bind_eq_some_iff.mp h
  obtain ⟨fraction, -, h⟩ := Option.bind_eq_some_iff.mp h
  split at h
  · cases h
  · split at h
    all_goals
      obtain ⟨exponent, -, h⟩ := Option.bind_eq_some_iff.mp h
      cases h
      exact Double.isCanonical_ofDecimal _ _ _

/-- A number that is accepted is in the form that rounding gives. -/
theorem isCanonical_of_double {v : Value} {x : Double} (hv : Json.Legible v)
    (h : Check.double v = .ok x) : x.IsCanonical := by
  unfold Check.double at h
  split at h
  · cases h
    cases hv with
    | leaf legible => exact legible
  · split at h
    · cases h
    · cases h
      exact Double.isCanonical_ofInt _
  · cases h
    exact Double.isCanonical_ofInt _
  · obtain ⟨s, hs⟩ := written_eq_ok h
    obtain ⟨-, hdouble⟩ := Option.ite_none_right_eq_some.mp hs
    exact isCanonical_of_double? hdouble

namespace Global

theorem legible_replaceAt {new old v : Value} {place : List String} (hnew : Json.Legible new)
    (hold : Json.Legible old) (h : replaceAt new place old = some v) : Json.Legible v := by
  induction place generalizing old v with
  | nil => cases h
  | cons name rest ih =>
    obtain ⟨_, _, members, part, inner, heq, rfl, hpart, hinner, rfl⟩ := replaceAt_eq_some h
    cases heq
    have hlegible : Json.Legible inner := by
      rcases hinner with ⟨-, rfl⟩ | ⟨-, hinner⟩
      · exact hnew
      · exact ih (hold.get? hpart) hinner
    cases hold with
    | map values => exact .map (Json.Legible.insert values _ hlegible)

theorem legible_settingOf {text : String} {new : Value} (h : settingOf text = .ok new) :
    Json.Legible new := by
  unfold settingOf at h
  split at h
  · rename_i v hv
    cases h
    exact Json.legible_read hv
  · cases h
    exact .leaf trivial
  · cases h

/-- What holds of the default of a member and of what a check accepts holds of what is checked. -/
theorem holds_of_withDefault {p : β → Prop} {check : Check β} {default b : β} {name : String}
    {v : Value} (hv : Json.Legible v) (hdefault : p default)
    (hchecked : ∀ {part b}, Json.Legible part → check part = .ok b → p b)
    (h : Check.withDefault check default name v = .ok b) : p b := by
  unfold Check.withDefault at h
  cases hget : v.get? name with
  | none =>
    rw [hget] at h
    exact Checked.ok.inj h ▸ hdefault
  | some part =>
    rw [hget] at h
    exact hchecked (hv.get? hget) h

/-- **What is checked can be stored**, if it comes from a text. -/
theorem storable_of_check {v : Value} {g : Global} (hv : Json.Legible v) (h : check v = .ok g) :
    g.Storable := by
  obtain ⟨-, hcache, htimeout, -⟩ := parts_of_check h
  constructor
  · refine holds_of_withDefault
      (p := fun s : CacheSettings => (toString s.ttlSeconds.natAbs).length ≤ Number.maxDigits)
      hv storable_default.ttl ?_ hcache
    intro part s hpart hs
    have hdefault : (toString (300 : Int).natAbs).length ≤ Number.maxDigits := by decide
    obtain ⟨_, ttl, henabled, httl, rfl⟩ := Checked.seq_eq_ok.mp (members_of_model hs)
    obtain ⟨enabled, -, rfl⟩ := Checked.map_eq_ok.mp henabled
    exact holds_of_withDefault (p := fun n : Int => (toString n.natAbs).length ≤ Number.maxDigits)
      hpart hdefault length_of_int httl
  · refine holds_of_withDefault hv storable_default.timeout ?_ htimeout
    intro part x hpart hx
    exact holds_of_withDefault hpart storable_default.timeout isCanonical_of_double
      (members_of_model hx)

theorem storable_of_ofFile {path : String} {stored : Option String} {g : Global}
    (h : ofFile path stored = .ok g) : g.Storable := by
  cases stored with
  | none =>
    cases h
    exact storable_default
  | some text =>
    unfold ofFile readFile at h
    dsimp only at h
    split at h
    · cases h
    · rename_i v hv
      split at h
      · rename_i found hfound
        cases h
        exact storable_of_check (Json.legible_read hv) hfound
      · cases h

theorem kept_toValue {g : Global} (h : g.Storable) : Kept g.toValue := by
  have hcache : Kept g.cache.toValue := by
    refine CacheSettings.isModel.kept (by decide) ?_
    simp only [CacheSettings.fields, List.forall_mem_cons]
    exact ⟨kept_leaf trivial, kept_leaf h.ttl, nofun⟩
  have himports : Kept g.importDefaults.toValue := by
    have hnamed : Kept (orNull Value.str g.importDefaults.namePrefix) := by
      cases g.importDefaults.namePrefix with
      | none => exact kept_leaf trivial
      | some s => exact kept_str s
    refine ImportDefaults.isModel.kept (by decide) ?_
    simp only [ImportDefaults.fields, List.forall_mem_cons]
    exact ⟨hnamed, kept_texts _, kept_str _, kept_str _, nofun⟩
  have hformat : Kept (groupValue "format" .str g.outputFormat) := by
    have hmodel : IsModel (group Check.text "auto" "format") (groupValue "format" .str) _ :=
      isModel_group "auto" "format" (fun _ => rfl) (isolates_of_leaf fun _ => rfl)
    exact hmodel.kept (List.nodup_singleton _) fun f hf => List.mem_singleton.mp hf ▸ kept_str _
  have htimeout : Kept (groupValue "timeout" .float g.timeout) := by
    have hmodel : IsModel (group Check.double defaultTimeout "timeout")
        (groupValue "timeout" .float) _ :=
      isModel_group defaultTimeout "timeout" (fun _ => rfl) (isolates_of_leaf fun _ => rfl)
    exact hmodel.kept (List.nodup_singleton _) fun f hf =>
      List.mem_singleton.mp hf ▸ kept_leaf h.timeout
  refine isModel.kept (by decide) ?_
  simp only [fields, List.forall_mem_cons]
  exact ⟨kept_str _, hformat, hcache, htimeout, himports, nofun⟩

/-- A change leaves a configuration that can be stored. -/
theorem storable_set {g changed : Global} {key text : String} (h : g.Storable)
    (hset : g.set key text = .ok changed) : changed.Storable := by
  obtain ⟨new, v, hnew, hreplace, hcheck⟩ := set_eq_ok hset
  exact storable_of_check
    (legible_replaceAt (legible_settingOf hnew) (kept_toValue h).legible hreplace) hcheck

/-- **The file of a configuration** gives the configuration. -/
theorem ofFile_text {g : Global} (h : g.Storable) (path : String) :
    ofFile path (some (String.ofList (Text.unifyLineEnds g.text.toList))) = .ok g := by
  obtain ⟨text, htext⟩ := Json.exists_writeValue .document (kept_toValue h).tree 0
  have hfile : g.text.toList = text ++ ['\n'] := by
    rw [Global.text, fileText, Json.write?, htext, String.toList_append]
    exact congrArg (· ++ ['\n']) (String.toList_ofList)
  have hread : Json.read (String.ofList (Text.unifyLineEnds g.text.toList)) = .ok g.toValue := by
    rw [hfile]
    exact Json.read_file (kept_toValue h).rereads htext
  unfold ofFile readFile
  dsimp only
  rw [hread]
  dsimp only
  rw [accepts]

end Global

end ApiContract.Config
