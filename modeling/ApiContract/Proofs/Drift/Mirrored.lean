import ApiContract.Proofs.Drift.Alike
import ApiContract.Proofs.Drift.Schema
import Mathlib

/-!
# Comparisons the other way round

A comparison from the new tree to the old one finds the changes of the comparison from the old tree
to the new one, seen from the other side: what was added is removed, and the values before and after
are exchanged. The keys are gone through in another order, so the changes may come in another order.

* **`same_comm`** — equality of values does not depend on the side.
* **`compareMember_mirror`** — the step: one member.
* **`perm_compareUnder_mirror`** — values under a key, by induction on both.
* **`changes_mirror_under_swap`** — the headline.
-/

namespace ApiContract.Drift

/-! ## Changes from the other side -/

def ChangeKind.mirror : ChangeKind → ChangeKind
  | .added => .removed
  | .removed => .added
  | kind => kind

/-- The text for a change from the other side. Only what is added or removed as a whole says so. -/
def mirrorText (path text : String) : String :=
  if text = s!"Added {path}" then s!"Removed {path}"
  else if text = s!"Removed {path}" then s!"Added {path}"
  else text

/-- A change from the other side. -/
def Change.mirror (c : Change) : Change where
  path := c.path
  kind := c.kind.mirror
  old := c.new
  new := c.old
  description := mirrorText c.path c.description

theorem mirrorText_added (path : String) : mirrorText path s!"Added {path}" = s!"Removed {path}" :=
  if_pos rfl

/-- Texts with another beginning are the same from both sides. -/
theorem mirrorText_append {head : String} (hadded : head ≠ "Added ") (hremoved : head ≠ "Removed ")
    (path : String) : mirrorText path (head ++ path) = head ++ path := by
  have hne : ∀ {head' : String}, head ≠ head' → head ++ path ≠ head' ++ path :=
    fun h heq => h ((String.append_left_inj path).mp heq)
  exact (if_neg (hne hadded)).trans (if_neg (hne hremoved))

theorem mirrorText_removed (path : String) :
    mirrorText path s!"Removed {path}" = s!"Added {path}" := by
  have hne : s!"Removed {path}" ≠ s!"Added {path}" := fun h =>
    absurd ((String.append_left_inj path).mp h) (by decide)
  exact (if_neg hne).trans (if_pos rfl)

/-- A change of a member keeps its text. -/
theorem mirror_of_text {head : String} (hadded : head ≠ "Added ") (hremoved : head ≠ "Removed ")
    (path : String) (kind : ChangeKind) (old new : Value) :
    Change.mirror ⟨path, kind, old, new, head ++ path⟩ = ⟨path, kind.mirror, new, old, head ++ path⟩ := by
  unfold Change.mirror
  rw [mirrorText_append hadded hremoved]

/-! ## Equality of values -/

theorem eq_nan_of_sameKey {leaf : Scalar} (h : leaf.key = .float .nan) : leaf = .float .nan := by
  cases leaf with
  | float x =>
    rw [key_float] at h
    cases hx : x.toInt? with
    | none =>
      rw [hx] at h
      exact congrArg Scalar.float (Key.float.inj h)
    | some n =>
      rw [hx] at h
      cases h
  | dateTime t =>
    have hkey : (Scalar.dateTime t).key = (t.instant?.map Key.instant).getD (.localTime t) := rfl
    rw [hkey] at h
    cases ht : t.instant? with
    | none =>
      rw [ht] at h
      cases h
    | some n =>
      rw [ht] at h
      cases h
  | null | bool b | int n | str s | date d | bytes b => cases h

theorem sameLeaf_comm (a b : Scalar) : sameLeaf a b = sameLeaf b a := by
  have himp : ∀ a b : Scalar, sameLeaf a b = true → sameLeaf b a = true := by
    intro a b h
    unfold sameLeaf Scalar.sameKey at h ⊢
    simp only [Bool.and_eq_true, beq_iff_eq, bne_iff_ne] at h ⊢
    obtain ⟨⟨hkind, hnan⟩, hkey⟩ := h
    refine ⟨⟨hkind.symm, ?_⟩, hkey.symm⟩
    rintro rfl
    exact hnan (eq_nan_of_sameKey hkey)
  exact Bool.eq_iff_iff.mpr ⟨himp a b, himp b a⟩

theorem sameSet_comm (a b : List Scalar) : sameSet a b = sameSet b a := Bool.and_comm _ _

theorem Textual.textKeys {members : Members} (h : Textual (.map members)) : TextKeys members := by
  cases h with
  | map keys nodup _ => exact ⟨keys, nodup⟩

theorem Textual.of_get? {members : Members} (h : Textual (.map members)) {name : String} {v : Value}
    (hget : Members.get? members name = some v) : Textual v := by
  cases h with
  | map _ _ textual => exact textual _ (Members.mem_of_get? hget)

theorem same_of_same {v : Value} (hv : Textual v) :
    ∀ {w : Value}, Textual w → same v w = true → same w v = true := by
  induction hv with
  | scalar leaf =>
    intro w _ h
    cases w with
    | scalar leaf' => exact (sameLeaf_comm leaf leaf').symm.trans h
    | _ => simp [same] at h
  | set items =>
    intro w _ h
    cases w with
    | set items' => exact (sameSet_comm items items').symm.trans h
    | _ => simp [same] at h
  | @list items _ ih =>
    intro w hw h
    cases hw with
    | @list items' htextual =>
      rw [same_list_iff] at h ⊢
      obtain ⟨hlength, hitems⟩ := h
      refine ⟨hlength.symm, fun p hp => ?_⟩
      have hp' : p.swap ∈ items.zip items' := by
        rw [← List.zip_swap]
        exact List.mem_map_of_mem hp
      exact ih p.2 (List.of_mem_zip hp').1 (htextual p.1 (List.of_mem_zip hp').2) (hitems _ hp')
    | _ => simp [same] at h
  | @map members keys nodup htextual ih =>
    intro w hw h
    cases w with
    | map members' =>
      -- members stand in another order, so they are compared by name
      have hkeys : TextKeys members := ⟨keys, nodup⟩
      rw [same_map_iff hkeys hw.textKeys] at h
      rw [same_map_iff hw.textKeys hkeys]
      refine ⟨fun name => (h.1 name).symm, fun name v' w' hv' hw' => ?_⟩
      exact ih _ (Members.mem_of_get? hw') (hw.of_get? hv') (h.2 name w' v' hw' hv')
    | _ => simp [same] at h

/-- **Values are the same from both sides.** -/
theorem same_comm {v w : Value} (hv : Textual v) (hw : Textual w) : same v w = same w v :=
  Bool.eq_iff_iff.mpr ⟨same_of_same hv hw, same_of_same hw hv⟩

/-! ## Members -/

theorem changeKind_mirror {v w : Value} (h : same v w = false) :
    changeKind w v = (changeKind v w).mirror := by
  unfold changeKind
  by_cases hv : v.isNull = true
  · by_cases hw : w.isNull = true
    · -- two nulls are the same
      have hnull : ∀ v : Value, v.isNull = true → v = .null := by
        intro v hv
        unfold Value.isNull at hv
        split at hv
        · rfl
        · cases hv
      rw [hnull v hv, hnull w hw] at h
      cases h
    · rw [if_pos hv, if_neg hw, if_pos hv]
      rfl
  · rw [if_neg hv, if_neg hv]
    by_cases hw : w.isNull = true
    · rw [if_pos hw, if_pos hw]
      rfl
    · rw [if_neg hw, if_neg hw]
      by_cases hkind : kindOf v = kindOf w
      · rw [if_neg (not_not.mpr hkind), if_neg (not_not.mpr hkind.symm)]
        rfl
      · rw [if_pos hkind, if_pos (Ne.symm hkind)]
        rfl

theorem compare_mirror {path : String} {v w : Value} (hv : Textual v) (hw : Textual w) :
    compare path w v s!"Changed {path}" = (compare path v w s!"Changed {path}").map Change.mirror := by
  unfold compare
  rw [same_comm hw hv]
  cases hsame : same v w with
  | true => rfl
  | false =>
    rw [changeKind_mirror hsame]
    exact congrArg some (mirror_of_text (by decide) (by decide) path _ _ _).symm

theorem compareNames_mirror (path : String) (old new : List String) :
    compareNames path new old = (compareNames path old new).map Change.mirror := by
  unfold compareNames
  dsimp only
  by_cases h : sortedNames old = sortedNames new
  · rw [if_pos h, if_pos h.symm]
    rfl
  · rw [if_neg h, if_neg (Ne.symm h)]
    exact congrArg some (mirror_of_text (by decide) (by decide) path .requiredChanged _ _).symm

/-- **The step:** a member that is no mapping on both sides. -/
theorem compareMember_mirror {path : String} {key : Scalar} {v w : Value} (hv : Textual v)
    (hw : Textual w) :
    compareMember path key w v = (compareMember path key v w).map Change.mirror := by
  unfold compareMember
  dsimp only
  rw [← Option.toList_map]
  congr 1
  cases key.sameKey (.str "required") with
  | false => exact compare_mirror hv hw
  | true =>
    cases names? v with
    | none =>
      cases names? w with
      | none => exact compare_mirror hv hw
      | some _ => exact compare_mirror hv hw
    | some old =>
      cases names? w with
      | none => exact compare_mirror hv hw
      | some new => exact compareNames_mirror path old new

/-! ## Trees -/

variable {scope : Scope}

theorem textual_memberAt {members : Members} (h : Textual (.map members)) (key : Scalar) :
    Textual (memberAt members key) := by
  cases h with
  | map _ _ textual => exact memberAt_cases key (.scalar _) textual

/-- Both comparisons go through the same keys. -/
theorem perm_memberKeys {old new : Members} (hold : TextKeys old) (hnew : TextKeys new) :
    (memberKeys new old).Perm (memberKeys old new) := by
  refine (List.perm_ext_iff_of_nodup (nodup_memberKeys hnew hold) (nodup_memberKeys hold hnew)).mpr ?_
  intro key
  rw [mem_memberKeys hold, mem_memberKeys hnew]
  exact or_comm

/-- **The step to mappings:** if what is found under every key is mirrored, all is. -/
theorem perm_compareMembers_mirror {path : String} {old new : Members} (hold : TextKeys old)
    (hnew : TextKeys new)
    (h : ∀ key, (compareAt scope path new old key).Perm
      ((compareAt scope path old new key).map Change.mirror)) :
    (compareMembers scope path new old).Perm
      ((compareMembers scope path old new).map Change.mirror) := by
  rw [compareMembers_eq_flatMap hnew hold, compareMembers_eq_flatMap hold hnew, List.map_flatMap]
  exact (perm_memberKeys hold hnew).flatMap fun key _ => h key

/-- **Values under a key.** -/
theorem perm_compareUnder_mirror (v w : Value) : Textual v → Textual w →
    ∀ (path : String) (key : Scalar), (compareUnder scope path key v w).Perm
      ((compareUnder scope path key w v).map Change.mirror) := by
  induction v, w using pair_induction with
  | whole v w hmap =>
    intro hv hw path key
    rw [compareUnder_of_not_maps hmap, compareUnder_of_not_maps hmap.symm,
      compareMember_mirror hv hw]
  | maps old new ih =>
    intro hold hnew path key
    refine perm_compareMembers_mirror hold.textKeys hnew.textKeys fun key => ?_
    unfold compareAt
    split
    · exact .nil
    · exact ih key (textual_memberAt hold key) (textual_memberAt hnew key) _ _

/-- **Swapping the trees mirrors the changes:** up to their order, each is found at the same path,
with the values exchanged, and added where it was removed. -/
theorem changes_mirror_under_swap (scope : Scope) (path : String) (old new : Option Members)
    (hold : ∀ members ∈ old, Textual (.map members))
    (hnew : ∀ members ∈ new, Textual (.map members)) :
    (compareTrees scope path new old).Perm
      ((compareTrees scope path old new).map Change.mirror) := by
  cases old with
  | none =>
    cases new with
    | none => exact .nil
    | some new =>
      show List.Perm [_] [Change.mirror _]
      unfold Change.mirror
      rw [mirrorText_added]
      rfl
  | some old =>
    cases new with
    | none =>
      show List.Perm [_] [Change.mirror _]
      unfold Change.mirror
      rw [mirrorText_removed]
      rfl
    | some new => exact perm_compareUnder_mirror _ _ (hold old rfl) (hnew new rfl) path .null

/-- The schema of a number. -/
def limitSchema : Members :=
  [(.str "type", .str "integer"), (.str "limits", .map [(.str "lower", .int 1)]),
    (.str "required", .list [.str "lower"])]

/-- The schema of a number after some changes. -/
def changedLimitSchema : Members :=
  [(.str "limits", .map [(.str "lower", .bool true), (.str "upper", .int 9)]),
    (.str "required", .list [.str "upper", .str "lower"])]

theorem textual_limitSchema : Textual (.map limitSchema) := by
  have hlimits : Textual (.map [(.str "lower", .int 1)]) :=
    .map (by simp) (by simp) (by simpa using .scalar _)
  have hnames : Textual (.list [.str "lower"]) := .list (by simpa using .scalar _)
  refine .map (by simp [limitSchema]) (by simp [limitSchema]) ?_
  simp only [limitSchema, List.forall_mem_cons]
  exact ⟨.scalar _, hlimits, hnames, nofun⟩

theorem textual_changedLimitSchema : Textual (.map changedLimitSchema) := by
  have hlimits : Textual (.map [(.str "lower", .bool true), (.str "upper", .int 9)]) := by
    refine .map (by simp) (by simp) ?_
    simp only [List.forall_mem_cons]
    exact ⟨.scalar _, .scalar _, nofun⟩
  have hnames : Textual (.list [.str "upper", .str "lower"]) := by
    refine .list ?_
    simp only [List.forall_mem_cons]
    exact ⟨.scalar _, .scalar _, nofun⟩
  refine .map (by simp [changedLimitSchema]) (by simp [changedLimitSchema]) ?_
  simp only [changedLimitSchema, List.forall_mem_cons]
  exact ⟨hlimits, hnames, nofun⟩

theorem changes_of_swapped_schemas :
    (∀ members ∈ some limitSchema, Textual (.map members))
      ∧ (∀ members ∈ some changedLimitSchema, Textual (.map members))
      ∧ ((compareTrees {} "io" (some limitSchema) (some changedLimitSchema)).map
          fun c => (c.path, c.kind))
          = [("io.type", .removed), ("io.limits.lower", .typeChanged),
            ("io.limits.upper", .added), ("io.required", .requiredChanged)]
      ∧ ((compareTrees {} "io" (some changedLimitSchema) (some limitSchema)).map
          fun c => (c.path, c.kind))
          = [("io.limits.lower", .typeChanged), ("io.limits.upper", .removed),
            ("io.required", .requiredChanged), ("io.type", .added)]
      ∧ (compareTrees {} "io" (some changedLimitSchema) (some limitSchema)).Perm
          ((compareTrees {} "io" (some limitSchema) (some changedLimitSchema)).map
            Change.mirror) := by
  have hold : ∀ members ∈ some limitSchema, Textual (.map members) := by
    rintro _ ⟨⟩
    exact textual_limitSchema
  have hnew : ∀ members ∈ some changedLimitSchema, Textual (.map members) := by
    rintro _ ⟨⟩
    exact textual_changedLimitSchema
  exact ⟨hold, hnew, by cbv, by cbv, changes_mirror_under_swap {} "io" _ _ hold hnew⟩

end ApiContract.Drift
