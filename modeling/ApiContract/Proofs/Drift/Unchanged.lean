import ApiContract.Drift.Compare
import ApiContract.Proofs.Named
import ApiContract.Proofs.Text.Marks
import ApiContract.Proofs.Value.Lookup

/-!
# Comparisons that find nothing

Whether a comparison finds a change does not depend on the path at which it is made, so it is a
relation between values under a key (`Unchanged`), and a comparison that leaves something out finds
no more than one that does not. Of two mappings the relation holds member by member, and a value is
unchanged against itself exactly if it equals itself, which is not so for what is no number.

* **`compareMembers_scope`** — comparisons that leave something out.
* **`unchanged_map_iff`** — mappings.
* **`unchanged_self_iff`** — a value against itself.
* **`sortedNames_eq`** — required names are compared as sets.
-/

namespace ApiContract.Drift

/-- A comparison finds no change of the value under a key. -/
def Unchanged (key : Scalar) (old new : Value) : Prop := compareUnder {} "" key new old = []

/-! ## Paths -/

theorem compareNames_path {path : String} (path' : String) {old new : List String}
    (h : compareNames path old new = none) : compareNames path' old new = none := by
  unfold compareNames at h ⊢
  dsimp only at h ⊢
  split at h
  · rename_i heq
    rw [if_pos heq]
  · cases h

theorem compare_eq_none_iff {path : String} {old new : Value} {description : String} :
    compare path old new description = none ↔ same old new = true := by
  unfold compare
  split <;> simp_all

theorem compareMember_path {path : String} (path' : String) {key : Scalar} {old new : Value}
    (h : compareMember path key old new = []) : compareMember path' key old new = [] := by
  unfold compareMember at h ⊢
  dsimp only at h ⊢
  rw [Option.toList_eq_nil_iff] at h ⊢
  split at h
  · exact compareNames_path path' h
  · exact compare_eq_none_iff.mpr (compare_eq_none_iff.mp h)

theorem addedMembers_scope {path : String} (scope : Scope) (path' : String) {old new : Members}
    (h : addedMembers {} path old new = []) : addedMembers scope path' old new = [] := by
  unfold addedMembers at h ⊢
  rw [List.flatMap_eq_nil_iff] at h ⊢
  intro m hm
  dsimp only
  split
  · rfl
  · exact compareMember_path _ (h m hm)

mutual

/-- Whether there is a change does not depend on the path, and what is left out adds none. -/
theorem compareUnder_scope {path : String} (scope : Scope) (path' : String) {key : Scalar}
    {new : Value} : (old : Value) → compareUnder {} path key new old = [] →
      compareUnder scope path' key new old = []
  | .map old, h => by
    cases new with
    | map new =>
      rw [compareUnder] at h ⊢
      obtain ⟨hkept, hadded⟩ := List.append_eq_nil_iff.mp h
      exact List.append_eq_nil_iff.mpr
        ⟨keptMembers_scope scope path' old hkept, addedMembers_scope scope path' hadded⟩
    | scalar leaf => exact compareMember_path path' h
    | list items => exact compareMember_path path' h
    | set items => exact compareMember_path path' h
  | .scalar leaf, h => compareMember_path path' h
  | .list items, h => compareMember_path path' h
  | .set items, h => compareMember_path path' h

theorem keptMembers_scope {path : String} (scope : Scope) (path' : String) {new : Members} :
    (old : List (Scalar × Value)) → keptMembers {} path new old = [] →
      keptMembers scope path' new old = []
  | [], _ => rfl
  | (k, v) :: rest, h => by
    rw [keptMembers] at h ⊢
    obtain ⟨hmember, hrest⟩ := List.append_eq_nil_iff.mp h
    refine List.append_eq_nil_iff.mpr ⟨?_, keptMembers_scope scope path' rest hrest⟩
    split
    · rfl
    · exact compareUnder_scope scope _ v hmember

end

theorem compareMembers_scope {path : String} (scope : Scope) (path' : String) {old new : Members}
    (h : compareMembers {} path old new = []) : compareMembers scope path' old new = [] := by
  obtain ⟨hkept, hadded⟩ := List.append_eq_nil_iff.mp h
  exact List.append_eq_nil_iff.mpr
    ⟨keptMembers_scope scope path' old hkept, addedMembers_scope scope path' hadded⟩

theorem compareUnder_eq_nil_iff {path : String} {key : Scalar} {old new : Value} :
    compareUnder {} path key new old = [] ↔ Unchanged key old new :=
  ⟨compareUnder_scope {} "" old, compareUnder_scope {} path old⟩

/-! ## Mappings -/

theorem keptMembers_eq_nil_iff {path : String} {old new : Members} :
    keptMembers {} path new old = []
      ↔ ∀ m ∈ old, Unchanged m.1 m.2 ((Members.find? new m.1).getD .null) := by
  induction old with
  | nil => exact ⟨fun _ m hm => absurd hm List.not_mem_nil, fun _ => rfl⟩
  | cons m rest ih =>
    obtain ⟨k, v⟩ := m
    rw [keptMembers, List.append_eq_nil_iff, ih, List.forall_mem_cons]
    exact and_congr_left fun _ => compareUnder_eq_nil_iff

theorem addedMembers_eq_nil_iff {path : String} {old new : Members} :
    addedMembers {} path old new = []
      ↔ ∀ m ∈ new, Members.contains old m.1 = false → Unchanged m.1 .null m.2 := by
  unfold addedMembers
  rw [List.flatMap_eq_nil_iff]
  constructor
  · intro h m hm hcontains
    exact compareMember_path "" (h m (List.mem_filter.mpr ⟨hm, by simp [hcontains]⟩))
  · intro h m hm
    obtain ⟨hm, hcontains⟩ := List.mem_filter.mp hm
    exact compareMember_path _ (h m hm (by simpa using hcontains))

/-- **Two mappings are compared member by member.** -/
theorem compareMembers_eq_nil_iff {path : String} {old new : Members} :
    compareMembers {} path old new = []
      ↔ (∀ m ∈ old, Unchanged m.1 m.2 ((Members.find? new m.1).getD .null))
        ∧ ∀ m ∈ new, Members.contains old m.1 = false → Unchanged m.1 .null m.2 := by
  unfold compareMembers
  rw [List.append_eq_nil_iff, keptMembers_eq_nil_iff, addedMembers_eq_nil_iff]

theorem unchanged_map_iff {key : Scalar} {old new : Members} :
    Unchanged key (.map old) (.map new)
      ↔ (∀ m ∈ old, Unchanged m.1 m.2 ((Members.find? new m.1).getD .null))
        ∧ ∀ m ∈ new, Members.contains old m.1 = false → Unchanged m.1 .null m.2 := by
  show compareMembers {} "" old new = [] ↔ _
  exact compareMembers_eq_nil_iff

/-! ## Values that are no mappings -/

/-- Values of which one is no mapping are compared as members. -/
theorem compareUnder_of_not_maps {scope : Scope} {path : String} {key : Scalar} {old new : Value}
    (h : old.isMap = false ∨ new.isMap = false) :
    compareUnder scope path key new old = compareMember path key old new := by
  cases old with
  | scalar leaf => rfl
  | list items => rfl
  | set items => rfl
  | map members =>
    cases new with
    | scalar leaf => rfl
    | list items => rfl
    | set items => rfl
    | map members' => rcases h with h | h <;> cases h

theorem unchanged_iff_of_not_map {key : Scalar} {old new : Value} (h : old.isMap = false) :
    Unchanged key old new ↔ compareMember "" key old new = [] := by
  cases old with
  | map members => cases h
  | scalar leaf => rfl
  | list items => rfl
  | set items => rfl

theorem sameLeaf_self_iff {leaf : Scalar} : sameLeaf leaf leaf = true ↔ leaf ≠ .float .nan := by
  simp [sameLeaf]

theorem same_str (text : String) : same (.str text) (.str text) = true := by
  simp [same, sameLeaf]

theorem sameItems_self_iff {items : List Value} :
    sameItems items items = true ↔ ∀ v ∈ items, same v v = true := by
  induction items with
  | nil => simp [sameItems]
  | cons v rest ih => rw [sameItems, Bool.and_eq_true, ih, List.forall_mem_cons]

theorem sameSet_self (items : List Scalar) : sameSet items items = true := by
  simp only [sameSet, Bool.and_self, List.all_eq_true]
  exact fun x hx => List.any_eq_true.mpr ⟨x, hx, Scalar.sameKey_self x⟩

theorem mem_of_mapM_eq_some {α β : Type} {f : α → Option β} {xs : List α} {ys : List β}
    (h : xs.mapM f = some ys) {x : α} (hx : x ∈ xs) : ∃ y, f x = some y := by
  induction xs generalizing ys with
  | nil => cases hx
  | cons x' rest ih =>
    rw [List.mapM_cons] at h
    obtain ⟨y, hy, h⟩ := Option.bind_eq_some_iff.mp h
    obtain ⟨ys', hys, -⟩ := Option.bind_eq_some_iff.mp h
    rcases List.mem_cons.mp hx with rfl | hx
    · exact ⟨y, hy⟩
    · exact ih hys hx

/-- What is read as required names equals itself. -/
theorem same_of_names? {v : Value} {names : List String} (h : names? v = some names) :
    same v v = true := by
  unfold names? at h
  split at h
  · rename_i hfalsy
    cases v with
    | scalar leaf =>
      rw [same, sameLeaf_self_iff]
      rintro rfl
      exact absurd hfalsy (by decide)
    | list items =>
      have hnil : items = [] := by simpa [Value.isTruthy] using hfalsy
      rw [hnil]
      rfl
    | map members =>
      have hnil : members = [] := by simpa [Value.isTruthy] using hfalsy
      rw [hnil]
      rfl
    | set items => exact sameSet_self items
  · split at h
    · rename_i items _
      rw [same, sameItems_self_iff]
      intro v hv
      obtain ⟨text, htext⟩ := mem_of_mapM_eq_some h hv
      cases v with
      | scalar leaf =>
        cases leaf with
        | str s => exact same_str s
        | _ => cases htext
      | _ => cases htext
    · cases h

/-- Outside mappings, a value is unchanged against itself if it equals itself. -/
theorem unchanged_self_of_not_map {key : Scalar} {v : Value} (h : v.isMap = false) :
    Unchanged key v v ↔ same v v = true := by
  rw [unchanged_iff_of_not_map h]
  unfold compareMember
  dsimp only
  rw [Option.toList_eq_nil_iff]
  split
  · rename_i old new _ hold hnew
    cases hold.symm.trans hnew
    refine iff_of_true ?_ (same_of_names? hold)
    simp [compareNames]
  · exact compare_eq_none_iff

/-! ## A value against itself -/

/-- Values whose mappings have texts as keys, each once. -/
inductive Textual : Value → Prop where
  | scalar (leaf : Scalar) : Textual (.scalar leaf)
  | set (items : List Scalar) : Textual (.set items)
  | list {items : List Value} (textual : ∀ v ∈ items, Textual v) : Textual (.list items)
  | map {members : Members} (keys : ∀ m ∈ members, ∃ s, m.1 = .str s)
      (nodup : (members.map (·.1)).Nodup) (textual : ∀ m ∈ members, Textual m.2) :
      Textual (.map members)

theorem find?_of_mem {members : Members} (keys : ∀ m ∈ members, ∃ s, m.1 = .str s)
    (nodup : (members.map (·.1)).Nodup) {m : Scalar × Value} (hm : m ∈ members) :
    Members.find? members m.1 = some m.2 := by
  induction members with
  | nil => cases hm
  | cons n rest ih =>
    obtain ⟨s, hs⟩ := keys m hm
    obtain ⟨t, ht⟩ := keys n List.mem_cons_self
    rw [List.map_cons, List.nodup_cons] at nodup
    unfold Members.find?
    rw [List.find?_cons]
    dsimp only
    rcases List.mem_cons.mp hm with rfl | hm
    · rw [Scalar.sameKey_self]
      rfl
    · have hne : t ≠ s := by
        rintro rfl
        exact nodup.1 (List.mem_map.mpr ⟨m, hm, hs.trans ht.symm⟩)
      have hkey : n.1.sameKey m.1 = false := by
        rw [hs, ht, Scalar.sameKey_str]
        simpa using hne
      rw [hkey]
      exact ih (fun n hn => keys n (List.mem_cons_of_mem _ hn)) nodup.2 hm

theorem contains_of_mem {members : Members} {m : Scalar × Value} (hm : m ∈ members) :
    Members.contains members m.1 = true :=
  List.any_eq_true.mpr ⟨m, hm, Scalar.sameKey_self _⟩

theorem sameMembers_iff {old new : Members} :
    sameMembers new old = true ↔ ∀ m ∈ old, ∃ w, Members.find? new m.1 = some w ∧ same m.2 w = true := by
  induction old with
  | nil => simp [sameMembers]
  | cons m rest ih =>
    rw [sameMembers, Bool.and_eq_true, ih, List.forall_mem_cons]
    refine and_congr_left fun _ => ?_
    cases Members.find? new m.1 with
    | none => simp
    | some w => simp

/-- **Required names are compared as sets.** -/
theorem sortedNames_eq {old new : List String} (h : ∀ name, name ∈ old ↔ name ∈ new) :
    sortedNames old = sortedNames new := by
  have hperm : (Distinct.ofList old).Perm (Distinct.ofList new) := by
    rw [List.perm_ext_iff_of_nodup (Distinct.nodup_ofList old) (Distinct.nodup_ofList new)]
    intro name
    rw [Distinct.mem_ofList, Distinct.mem_ofList, h]
  exact Text.mergeSort_eq_of_perm (f := id) (by simpa using Distinct.nodup_ofList old) hperm

theorem compareNames_eq_none_iff {path : String} {names names' : List String} :
    compareNames path names names' = none ↔ ∀ name, name ∈ names ↔ name ∈ names' := by
  unfold compareNames
  dsimp only
  constructor
  · intro h name
    split at h
    · rename_i heq
      have hmem : ∀ names : List String, name ∈ sortedNames names ↔ name ∈ names := by
        intro names
        unfold sortedNames
        rw [List.mem_mergeSort, Distinct.mem_ofList]
      rw [← hmem, heq, hmem]
    · cases h
  · intro h
    rw [if_pos (sortedNames_eq h)]

end ApiContract.Drift
