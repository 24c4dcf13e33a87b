import ApiContract.Value.Basic

/-!
# The size of a value

`Value.size` counts the nodes of a tree. A member is smaller than its mapping (`size_lt_of_get?`) and
an item smaller than its list, so functions that go down a tree end.
-/

namespace ApiContract

mutual

/-- The number of nodes of a tree. -/
def Value.size : Value → Nat
  | .scalar _ => 1
  | .list items => itemsSize items + 1
  | .map members => membersSize members + 1
  | .set items => items.length + 1

/-- The number of nodes of all items. -/
def itemsSize : List Value → Nat
  | [] => 0
  | v :: rest => v.size + itemsSize rest

/-- The number of nodes of all members. -/
def membersSize : List (Scalar × Value) → Nat
  | [] => 0
  | (_, v) :: rest => v.size + membersSize rest

end

theorem Value.size_pos (v : Value) : 0 < v.size := by
  cases v <;> simp [Value.size]

theorem size_le_membersSize {members : Members} {k : Scalar} {v : Value} (h : (k, v) ∈ members) :
    v.size ≤ membersSize members := by
  induction members with
  | nil => cases h
  | cons m rest ih =>
    rcases List.mem_cons.1 h with rfl | h
    · simp [membersSize]
    · have := ih h
      simp only [membersSize]
      omega

theorem size_le_itemsSize {items : List Value} {v : Value} (h : v ∈ items) :
    v.size ≤ itemsSize items := by
  induction items with
  | nil => cases h
  | cons x rest ih =>
    rcases List.mem_cons.1 h with rfl | h
    · simp [itemsSize]
    · have := ih h
      simp only [itemsSize]
      omega

theorem Members.mem_of_find? {members : Members} {key : Scalar} {v : Value}
    (h : Members.find? members key = some v) : ∃ k, (k, v) ∈ members := by
  obtain ⟨m, hm, rfl⟩ := Option.map_eq_some_iff.1 h
  exact ⟨m.1, List.mem_of_find?_eq_some hm⟩

/-- A member is smaller than its mapping. -/
theorem Value.size_lt_of_get? {v w : Value} {name : String} (h : v.get? name = some w) :
    w.size < v.size := by
  match v with
  | .map members =>
    obtain ⟨k, hk⟩ := Members.mem_of_find? h
    have := size_le_membersSize hk
    simp only [Value.size]
    omega
  | .scalar _ | .list _ | .set _ => simp [Value.get?] at h

/-- The members of a mapping under a name are together smaller than the value that holds it. -/
theorem Value.membersSize_lt_of_get? {v : Value} {ms : Members} {name : String}
    (h : v.get? name = some (.map ms)) : membersSize ms < v.size := by
  have := Value.size_lt_of_get? h
  simp only [Value.size] at this
  omega

end ApiContract
