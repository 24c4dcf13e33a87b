import ApiContract.Named
import ApiContract.Value.Record

/-!
# Looking up members

Records are written member by member, some of them only when they are there. A lookup by name goes
through the parts of the record one after the other, so it is settled by comparing names:

* **`Members.get?_append`** / **`Members.get?_member_cons`** / **`Members.get?_memberIf`** — the parts;
* **`Members.get?_members`** — a record with named entries is looked up like the entries.
-/

namespace ApiContract

/-- Only a text is the same key as a text. -/
theorem Scalar.sameKey_str_iff {k : Scalar} {name : String} :
    k.sameKey (.str name) = true ↔ k = .str name := by
  constructor
  · intro h
    have hkey : k.key = .str name := by simpa [sameKey, key] using h
    cases k with
    | str s => simpa [key] using hkey
    | float x =>
      unfold key at hkey
      cases hx : x.toInt? <;> simp [hx] at hkey
    | dateTime t =>
      unfold key at hkey
      cases ht : t.instant? <;> simp [ht] at hkey
    | null => cases hkey
    | bool b => cases hkey
    | int n => cases hkey
    | date d => cases hkey
    | bytes b => cases hkey
  · rintro rfl
    exact Scalar.sameKey_self _

namespace Members

@[simp] theorem get?_nil (name : String) : get? [] name = none := rfl

theorem get?_cons (k : Scalar) (v : Value) (rest : Members) (name : String) :
    get? ((k, v) :: rest) name = if k.sameKey (.str name) then some v else get? rest name := by
  unfold get? find?
  rw [List.find?_cons]
  dsimp only
  cases k.sameKey (.str name) <;> rfl

/-- What is found under a name is a member. -/
theorem mem_of_get? {members : Members} {name : String} {v : Value}
    (h : get? members name = some v) : (Scalar.str name, v) ∈ members := by
  induction members with
  | nil => cases h
  | cons m rest ih =>
    obtain ⟨k, w⟩ := m
    rw [get?_cons] at h
    split at h
    · rename_i hkey
      cases h
      rw [← Scalar.sameKey_str_iff.mp hkey]
      exact List.mem_cons_self
    · exact List.mem_cons_of_mem _ (ih h)

@[simp] theorem get?_str_cons (key : String) (v : Value) (rest : Members) (name : String) :
    get? ((.str key, v) :: rest) name = if key = name then some v else get? rest name := by
  rw [get?_cons, Scalar.sameKey_str]
  simp only [beq_iff_eq]

@[simp] theorem get?_member_cons (key : String) (v : Value) (rest : Members) (name : String) :
    get? (member key v :: rest) name = if key = name then some v else get? rest name :=
  get?_str_cons key v rest name

@[simp] theorem get?_append (a b : Members) (name : String) :
    get? (a ++ b) name = (get? a name).or (get? b name) := by
  unfold get? find?
  rw [List.find?_append]
  cases List.find? _ a <;> rfl

@[simp] theorem get?_memberIf {α : Type} (key : String) (toValue : α → Value) (v : Option α)
    (name : String) : get? (memberIf key toValue v) name = if key = name then v.map toValue else none := by
  cases v with
  | none =>
    show none = _
    split <;> rfl
  | some a => exact get?_member_cons key (toValue a) [] name

/-- Entries under names, as members. -/
theorem get?_members (entries : Named Value) (name : String) :
    get? (entries.map fun (n, v) => member n v) name = entries.get? name := by
  induction entries with
  | nil => rfl
  | cons e rest ih =>
    obtain ⟨n, v⟩ := e
    rw [List.map_cons, get?_member_cons, ih, Named.get?, Named.get?, List.lookup_cons]
    by_cases h : n = name
    · subst h
      simp
    · have : (name == n) = false := by simpa using Ne.symm h
      rw [if_neg h, this]

/-- Members that are made from the items of a list are looked up among the items. -/
theorem get?_map {α : Type _} (items : List α) (key : α → String) (value : α → Value)
    (name : String) :
    get? (items.map fun a => member (key a) (value a)) name
      = (items.find? (key · == name)).map value := by
  induction items with
  | nil => rfl
  | cons a rest ih =>
    rw [List.map_cons, get?_member_cons, ih, List.find?_cons]
    by_cases h : key a = name
    · simp [h]
    · have : (key a == name) = false := by simpa using h
      rw [if_neg h, this]

/-- A name is found exactly where there is a member under it. -/
theorem contains_str (members : Members) (name : String) :
    contains members (.str name) = (get? members name).isSome := by
  induction members with
  | nil => rfl
  | cons m rest ih =>
    obtain ⟨k, v⟩ := m
    rw [get?_cons]
    unfold contains at ih ⊢
    rw [List.any_cons, ih]
    dsimp only
    cases k.sameKey (.str name) <;> rfl

theorem get?_insert (members : Members) (key : String) (value : Value) (name : String) :
    get? (insert members (.str key) value) name
      = if key = name then some value else get? members name := by
  induction members with
  | nil => simp [insert]
  | cons m rest ih =>
    obtain ⟨k, v⟩ := m
    rw [insert]
    by_cases hk : k.sameKey (.str key) = true
    · rw [if_pos hk, get?_cons, get?_cons, Scalar.sameKey_str_iff.mp hk, Scalar.sameKey_str]
      simp only [beq_iff_eq]
      split <;> rfl
    · rw [if_neg hk, get?_cons, get?_cons, ih]
      by_cases h : key = name
      · subst h
        rw [if_neg hk, if_pos rfl, if_pos rfl]
      · rw [if_neg h, if_neg h]

/-- Writing a member adds no key but its own. -/
theorem key_of_mem_insert {members : Members} {key : Scalar} {value : Value} {m : Scalar × Value}
    (h : m ∈ insert members key value) : m.1 = key ∨ ∃ m' ∈ members, m.1 = m'.1 := by
  induction members with
  | nil =>
    rw [insert, List.mem_singleton] at h
    exact .inl (congrArg Prod.fst h)
  | cons m' rest ih =>
    obtain ⟨k, v⟩ := m'
    rw [insert] at h
    split at h
    · rcases List.mem_cons.mp h with rfl | h
      · exact .inr ⟨_, List.mem_cons_self, rfl⟩
      · exact .inr ⟨m, List.mem_cons_of_mem _ h, rfl⟩
    · rcases List.mem_cons.mp h with rfl | h
      · exact .inr ⟨_, List.mem_cons_self, rfl⟩
      · obtain hkey | ⟨m', hm', hkey⟩ := ih h
        · exact .inl hkey
        · exact .inr ⟨m', List.mem_cons_of_mem _ hm', hkey⟩

/-- Writing a member leaves the others as they are. -/
theorem value_of_mem_insert {members : Members} {key : Scalar} {value : Value} {m : Scalar × Value}
    (h : m ∈ insert members key value) : m.2 = value ∨ m ∈ members := by
  induction members with
  | nil =>
    rw [insert, List.mem_singleton] at h
    exact .inl (congrArg Prod.snd h)
  | cons m' rest ih =>
    obtain ⟨k, v⟩ := m'
    rw [insert] at h
    split at h
    · rcases List.mem_cons.mp h with rfl | h
      · exact .inl rfl
      · exact .inr (List.mem_cons_of_mem _ h)
    · rcases List.mem_cons.mp h with rfl | h
      · exact .inr List.mem_cons_self
      · exact (ih h).imp_right (List.mem_cons_of_mem _)

/-- A new name comes last. -/
theorem insert_of_notMem {members : Members} {name : String}
    (h : Scalar.str name ∉ members.map (·.1)) (value : Value) :
    insert members (.str name) value = members ++ [(.str name, value)] := by
  induction members with
  | nil => rfl
  | cons m rest ih =>
    obtain ⟨k, v⟩ := m
    rw [List.map_cons, List.mem_cons, not_or] at h
    have hkey : ¬k.sameKey (.str name) = true :=
      fun hsame => h.1 (Scalar.sameKey_str_iff.mp hsame).symm
    rw [insert, if_neg hkey, ih h.2]
    rfl

/-- Members under different names are written as they are. -/
theorem ofList_of_nodup {members : Members} (text : ∀ m ∈ members, ∃ name, m.1 = .str name)
    (nodup : (members.map (·.1)).Nodup) : ofList members = members := by
  have hfold : ∀ (rest before : Members), (∀ m ∈ rest, ∃ name, m.1 = .str name) →
      ((before ++ rest).map (·.1)).Nodup →
      rest.foldl (fun members m => insert members m.1 m.2) before = before ++ rest := by
    intro rest
    induction rest with
    | nil => intro before _ _; exact (List.append_nil before).symm
    | cons m rest ih =>
      intro before htext hnodup
      obtain ⟨name, hname⟩ := htext m List.mem_cons_self
      have hnew : Scalar.str name ∉ before.map (·.1) := by
        rw [List.map_append, List.map_cons, hname] at hnodup
        exact fun hmem => (List.nodup_append.mp hnodup).2.2 _ hmem _ List.mem_cons_self rfl
      have hinsert : insert before m.1 m.2 = before ++ [m] := by
        rw [hname, insert_of_notMem hnew, ← hname]
      rw [List.foldl_cons, hinsert, ih (before ++ [m]) fun m' hm' =>
        htext m' (List.mem_cons_of_mem _ hm')]
      · rw [List.append_assoc]
        rfl
      · rw [List.append_assoc]
        exact hnodup
  exact hfold members [] text nodup

end Members

namespace Value

theorem field_map (members : Members) (name : String) :
    (Value.map members).field name = (Members.get? members name).getD .null := rfl

theorem get?_of_field_ne {v : Value} {name : String} (h : v.field name ≠ .null) :
    v.get? name = some (v.field name) := by
  unfold field at h ⊢
  cases hget : v.get? name with
  | none =>
    rw [hget] at h
    exact absurd rfl h
  | some w => rfl

end Value

end ApiContract
