import ApiContract.Proofs.Drift.Alike
import ApiContract.Proofs.Drift.Schema
import ApiContract.Proofs.Drift.Reported
import Mathlib

/-!
# Where the changes are

The path of a change is a list of keys joined by points. Where no key is empty or has a point, the
path leads back to one place in both trees, and the change carries what stands there. Of required
names it carries the sets. No place has two changes, and no place above or below a change has one.

* **`segments_memberPath`** — the step down to a member, as a step of the path.
* **`located_compareMembers`** — the step from members to a mapping.
* **`located_compareUnder`** — values under a key, by induction on both.
* **`changes_are_located_once`** — the headline.
-/

namespace ApiContract.Drift

variable {scope : Scope}

/-! ## Paths -/

/-- A key that a path shows as it is. -/
def IsSegment (name : String) : Prop := name ≠ "" ∧ '.' ∉ name.toList

instance (name : String) : Decidable (IsSegment name) := inferInstanceAs (Decidable (_ ∧ _))

/-- The keys of a path. -/
def segments (path : String) : List String :=
  if path.isEmpty then [] else (path.toList.splitOn '.').map String.ofList

theorem segments_of_isSegment {name : String} (h : IsSegment name) : segments name = [name] := by
  have hempty : name.isEmpty = false := by simpa using h.1
  unfold segments
  rw [hempty, if_neg Bool.false_ne_true, List.splitOn_eq_singleton h.2, List.map_singleton,
    String.ofList_toList]

/-- **The path of a member** has one more key. -/
theorem segments_memberPath {name : String} (h : IsSegment name) (path : String) :
    segments (memberPath path (.str name)) = segments path ++ [name] := by
  unfold memberPath
  show segments (if path.isEmpty then name else path ++ "." ++ name) = _
  by_cases hpath : path.isEmpty = true
  · rw [if_pos hpath, segments_of_isSegment h]
    unfold segments
    rw [if_pos hpath, List.nil_append]
  · have hlist : (path ++ "." ++ name).toList = path.toList ++ '.' :: name.toList := by
      simp [String.toList_append]
    have hne : ¬ (path ++ "." ++ name).isEmpty = true := by simp
    rw [if_neg hpath]
    unfold segments
    rw [if_neg hpath, if_neg hne, hlist, List.splitOn_append_cons_self,
      List.splitOn_eq_singleton h.2, List.map_append, List.map_singleton, String.ofList_toList]

/-- The value under some keys, one after the other; what is absent is null. -/
def valueAt (keys : List String) (v : Value) : Value := keys.foldl Value.field v

/-- Two changes are at places of which none is above or at the other. -/
def Apart (c d : Change) : Prop :=
  ¬ segments c.path <+: segments d.path ∧ ¬ segments d.path <+: segments c.path

/-- Changes under different keys are apart. -/
theorem apart_of_keys {c d : Change} {path keys keys' : List String} {name name' : String}
    (hne : name ≠ name') (hc : segments c.path = path ++ name :: keys)
    (hd : segments d.path = path ++ name' :: keys') : Apart c d := by
  unfold Apart
  rw [hc, hd, List.prefix_append_right_inj, List.prefix_append_right_inj, List.cons_prefix_cons,
    List.cons_prefix_cons]
  exact ⟨fun h => hne h.1, fun h => hne h.1.symm⟩

/-! ## Trees -/

/-- Values whose mappings have keys that paths show as they are, each once. What stands in a list is
not gone into. -/
inductive Segmented : Value → Prop where
  | whole {v : Value} (h : v.isMap = false) : Segmented v
  | map {members : Members} (keys : ∀ m ∈ members, ∃ name, m.1 = .str name ∧ IsSegment name)
      (nodup : (members.map (·.1)).Nodup) (values : ∀ m ∈ members, Segmented m.2) :
      Segmented (.map members)

theorem Segmented.keys_of_map {members : Members} (h : Segmented (.map members)) :
    ∀ key ∈ members.map (·.1), ∃ name, key = .str name ∧ IsSegment name := by
  cases h with
  | whole h => cases h
  | map keys _ _ => exact List.forall_mem_map.mpr keys

theorem Segmented.textKeys {members : Members} (h : Segmented (.map members)) :
    TextKeys members := by
  cases h with
  | whole h => cases h
  | map keys nodup _ => exact ⟨fun m hm => (keys m hm).imp fun _ => And.left, nodup⟩

theorem Segmented.nil : Segmented (.map []) := .map nofun .nil nofun

/-- A mapping with one more member. -/
theorem Segmented.cons {members : Members} {name : String} {v : Value} (hname : IsSegment name)
    (hnew : .str name ∉ members.map (·.1)) (hv : Segmented v) (h : Segmented (.map members)) :
    Segmented (.map ((.str name, v) :: members)) := by
  cases h with
  | whole h => cases h
  | map keys nodup values =>
    refine .map ?_ (List.nodup_cons.mpr ⟨hnew, nodup⟩) (List.forall_mem_cons.mpr ⟨hv, values⟩)
    exact List.forall_mem_cons.mpr ⟨⟨name, rfl, hname⟩, keys⟩

theorem segmented_memberAt {members : Members} (h : Segmented (.map members)) (key : Scalar) :
    Segmented (memberAt members key) := by
  cases h with
  | whole h => cases h
  | map _ _ values => exact memberAt_cases key (.whole rfl) values

/-! ## What changes carry -/

/-- The names that a value lists, sorted and each once. -/
def IsNameSet (v sorted : Value) : Prop :=
  ∃ names listed, sorted = texts names ∧ NamesOf IsFalsy v listed ∧ names.Pairwise (· < ·)
    ∧ ∀ name, name ∈ names ↔ name ∈ listed

/-- What a change says of two values: the values themselves or, of required names, the sets. -/
structure Carries (c : Change) (old new : Value) : Prop where
  values : c.kind ≠ .requiredChanged → c.old = old ∧ c.new = new
  names : c.kind = .requiredChanged → IsNameSet old c.old ∧ IsNameSet new c.new

theorem isNameSet_sortedNames {v : Value} {names : List String} (h : names? v = some names) :
    IsNameSet v (.list ((sortedNames names).map .str)) := by
  refine ⟨sortedNames names, names, rfl, names?_eq_some_iff.mp h, ?_, fun name => ?_⟩
  · exact Text.pairwise_mergeSort_lt (f := id) (by simpa using Distinct.nodup_ofList names)
  · unfold sortedNames
    rw [List.mem_mergeSort, Distinct.mem_ofList]

theorem changeKind_ne_requiredChanged (v w : Value) : changeKind v w ≠ .requiredChanged := by
  unfold changeKind
  split
  · nofun
  · split
    · nofun
    · split <;> nofun

theorem carries_of_compare {path text : String} {v w : Value} {c : Change}
    (h : compare path v w text = some c) : Carries c v w := by
  unfold compare at h
  split at h
  · cases h
  · cases h
    exact ⟨fun _ => ⟨rfl, rfl⟩, fun hkind => absurd hkind (changeKind_ne_requiredChanged v w)⟩

theorem carries_of_compareNames {path : String} {v w : Value} {old new : List String} {c : Change}
    (hold : names? v = some old) (hnew : names? w = some new)
    (h : compareNames path old new = some c) : Carries c v w := by
  have hkind := kind_of_compareNames h
  unfold compareNames at h
  dsimp only at h
  split at h
  · cases h
  · cases h
    exact ⟨fun hne => absurd hkind hne,
      fun _ => ⟨isNameSet_sortedNames hold, isNameSet_sortedNames hnew⟩⟩

theorem carries_of_mem_compareMember {path : String} {key : Scalar} {v w : Value} {c : Change}
    (h : c ∈ compareMember path key v w) : Carries c v w := by
  unfold compareMember at h
  dsimp only at h
  rw [Option.mem_toList] at h
  split at h
  · exact carries_of_compareNames ‹_› ‹_› h
  · exact carries_of_compare h

/-- A member that is no mapping on both sides has one change at most. -/
theorem pairwise_compareMember {r : Change → Change → Prop} (path : String) (key : Scalar)
    (v w : Value) : (compareMember path key v w).Pairwise r := by
  have htoList : ∀ change : Option Change, change.toList.Pairwise r := by
    rintro (_ | c)
    · exact .nil
    · exact List.pairwise_singleton r c
  exact htoList _

/-! ## Changes of trees -/

/-- Changes below a path are apart, and each carries what stands at its place in both values. -/
structure Located (path : String) (old new : Value) (changes : List Change) : Prop where
  apart : changes.Pairwise Apart
  carries : ∀ c ∈ changes, ∃ keys, segments c.path = segments path ++ keys
    ∧ Carries c (valueAt keys old) (valueAt keys new)

/-- **The step to mappings:** if the changes under every key are located, all are. -/
theorem located_compareMembers (scope : Scope) (path : String) {old new : Members}
    (hold : Segmented (.map old)) (hnew : Segmented (.map new))
    (h : ∀ name, Located (memberPath path (.str name)) (memberAt old (.str name))
      (memberAt new (.str name)) (compareAt scope path old new (.str name))) :
    (compareMembers scope path old new).Pairwise Apart
      ∧ ∀ c ∈ compareMembers scope path old new, ∃ name keys,
        segments c.path = segments path ++ name :: keys
          ∧ Carries c (valueAt (name :: keys) (.map old)) (valueAt (name :: keys) (.map new)) := by
  have hkeys : ∀ key ∈ memberKeys old new, ∃ name, key = .str name ∧ IsSegment name := by
    intro key hkey
    exact ((mem_memberKeys hnew.textKeys).mp hkey).elim (hold.keys_of_map key) (hnew.keys_of_map key)
  have hbelow : ∀ {name c}, IsSegment name → c ∈ compareAt scope path old new (.str name) →
      ∃ keys, segments c.path = segments path ++ name :: keys
        ∧ Carries c (valueAt (name :: keys) (.map old)) (valueAt (name :: keys) (.map new)) := by
    intro name c hname hc
    obtain ⟨keys, hpath, hcarries⟩ := (h name).carries c hc
    rw [segments_memberPath hname, List.append_assoc, List.singleton_append] at hpath
    exact ⟨keys, hpath, hcarries⟩
  rw [compareMembers_eq_flatMap hold.textKeys hnew.textKeys]
  constructor
  · refine List.pairwise_flatMap.mpr ⟨fun key hkey => ?_, ?_⟩
    · obtain ⟨name, rfl, -⟩ := hkeys key hkey
      exact (h name).apart
    · -- under two keys the paths part behind the common path
      refine (nodup_memberKeys hold.textKeys hnew.textKeys).imp_of_mem ?_
      intro key key' hkey hkey' hne c hc d hd
      obtain ⟨name, rfl, hname⟩ := hkeys key hkey
      obtain ⟨name', rfl, hname'⟩ := hkeys key' hkey'
      obtain ⟨_, hpath, -⟩ := hbelow hname hc
      obtain ⟨_, hpath', -⟩ := hbelow hname' hd
      exact apart_of_keys (fun heq => hne (congrArg Scalar.str heq)) hpath hpath'
  · intro c hc
    obtain ⟨key, hkey, hc⟩ := List.mem_flatMap.mp hc
    obtain ⟨name, rfl, hname⟩ := hkeys key hkey
    exact ⟨name, hbelow hname hc⟩

theorem located_compareAt {path : String} {old new : Members} {key : Scalar}
    (h : ∀ (path : String) (key' : Scalar), Located path (memberAt old key) (memberAt new key)
      (compareUnder scope path key' (memberAt new key) (memberAt old key))) :
    Located (memberPath path key) (memberAt old key) (memberAt new key)
      (compareAt scope path old new key) := by
  unfold compareAt
  split
  · exact ⟨.nil, nofun⟩
  · exact h _ _

/-- **Values under a key.** -/
theorem located_compareUnder (v w : Value) : Segmented v → Segmented w →
    ∀ (path : String) (key : Scalar), Located path v w (compareUnder scope path key w v) := by
  induction v, w using pair_induction with
  | whole v w hmap =>
    intro _ _ path key
    rw [compareUnder_of_not_maps hmap]
    refine ⟨pairwise_compareMember path key v w, fun c hc => ⟨[], ?_, ?_⟩⟩
    · rw [path_of_mem_compareMember hc, List.append_nil]
    · exact carries_of_mem_compareMember hc
  | maps old new ih =>
    intro hold hnew path key
    obtain ⟨hapart, hcarries⟩ := located_compareMembers scope path hold hnew fun name =>
      located_compareAt (ih (.str name) (segmented_memberAt hold _) (segmented_memberAt hnew _))
    exact ⟨hapart, fun c hc => (hcarries c hc).elim fun name ⟨keys, h⟩ => ⟨name :: keys, h⟩⟩

/-- **Every change is at a place of its own and carries what stands there:** no path is reported
twice, none leads to or through the place of another, and the keys behind the root lead to the
values, or the sets of required names, in both mappings. -/
theorem changes_are_located_once (scope : Scope) (root : String) (old new : Members)
    (hold : Segmented (.map old)) (hnew : Segmented (.map new)) :
    ((compareTrees scope root (some old) (some new)).map (·.path)).Nodup
      ∧ (compareTrees scope root (some old) (some new)).Pairwise Apart
      ∧ ∀ c ∈ compareTrees scope root (some old) (some new), ∃ keys, keys ≠ []
          ∧ segments c.path = segments root ++ keys
          ∧ Carries c (valueAt keys (.map old)) (valueAt keys (.map new)) := by
  obtain ⟨hapart, hcarries⟩ := located_compareMembers scope root hold hnew
    fun name => located_compareAt
      (located_compareUnder _ _ (segmented_memberAt hold _) (segmented_memberAt hnew _))
  have hdistinct : ∀ {c d : Change}, Apart c d → c.path ≠ d.path := by
    intro c d h hpath
    exact h.1 (hpath ▸ List.prefix_refl _)
  refine ⟨List.pairwise_map.mpr (hapart.imp hdistinct), hapart, ?_⟩
  intro c hc
  obtain ⟨name, keys, hpath, hcarries⟩ := hcarries c hc
  exact ⟨name :: keys, List.cons_ne_nil _ _, hpath, hcarries⟩

/-- The schema of a pet. -/
def petTree : Members :=
  [(.str "name", .str "Pet"), (.str "size", .map [(.str "low", .int 1), (.str "high", .int 9)]),
    (.str "required", .list [.str "name", .str "age", .str "name"])]

/-- The schema of a pet after some changes. -/
def changedPetTree : Members :=
  [(.str "size", .map [(.str "high", .int 12), (.str "unit", .map [(.str "name", .str "cm")])]),
    (.str "required", .list [.str "name"])]

theorem segmented_petTree : Segmented (.map petTree) := by
  have hsize : Segmented (.map [(.str "low", .int 1), (.str "high", .int 9)]) :=
    .cons (by decide) (by decide) (.whole rfl) (.cons (by decide) (by decide) (.whole rfl) .nil)
  exact .cons (by decide) (by decide) (.whole rfl) (.cons (by decide) (by decide) hsize
    (.cons (by decide) (by decide) (.whole rfl) .nil))

theorem segmented_changedPetTree : Segmented (.map changedPetTree) := by
  have hunit : Segmented (.map [(.str "name", .str "cm")]) :=
    .cons (by decide) (by decide) (.whole rfl) .nil
  have hsize : Segmented
      (.map [(.str "high", .int 12), (.str "unit", .map [(.str "name", .str "cm")])]) :=
    .cons (by decide) (by decide) (.whole rfl) (.cons (by decide) (by decide) hunit .nil)
  exact .cons (by decide) (by decide) hsize (.cons (by decide) (by decide) (.whole rfl) .nil)

theorem changes_of_pet_trees :
    Segmented (.map petTree) ∧ Segmented (.map changedPetTree)
      ∧ compareTrees {} "io.output" (some petTree) (some changedPetTree)
          = [⟨"io.output.name", .removed, .str "Pet", .null, "Changed io.output.name"⟩,
            ⟨"io.output.size.low", .removed, .int 1, .null, "Changed io.output.size.low"⟩,
            ⟨"io.output.size.high", .modified, .int 9, .int 12, "Changed io.output.size.high"⟩,
            ⟨"io.output.size.unit", .added, .null, .map [(.str "name", .str "cm")],
              "Changed io.output.size.unit"⟩,
            ⟨"io.output.required", .requiredChanged, texts ["age", "name"], texts ["name"],
              "Required fields changed at io.output.required"⟩]
      ∧ segments "io.output.size.unit" = segments "io.output" ++ ["size", "unit"]
      ∧ ((compareTrees {} "io.output" (some petTree) (some changedPetTree)).map (·.path)).Nodup
      ∧ (compareTrees {} "io.output" (some petTree) (some changedPetTree)).Pairwise Apart
      ∧ ∀ c ∈ compareTrees {} "io.output" (some petTree) (some changedPetTree), ∃ keys, keys ≠ []
          ∧ segments c.path = segments "io.output" ++ keys
          ∧ Carries c (valueAt keys (.map petTree)) (valueAt keys (.map changedPetTree)) :=
  ⟨segmented_petTree, segmented_changedPetTree, by cbv, by decide +kernel,
    changes_are_located_once {} "io.output" petTree changedPetTree segmented_petTree
      segmented_changedPetTree⟩

end ApiContract.Drift
