import ApiContract.Proofs.Drift.Order
import Mathlib.Data.List.Basic

/-!
# Ignored paths

A comparison skips the members whose path begins like an ignored one, with all that is below them.
Since a path begins like that of every mapping around it, this leaves out exactly the changes whose
own path is ignored (`compareMembers_ignoring`). The root of a tree is no member of it: where one of
two transports is absent, the change at `transport` is reported whatever is ignored.

* **`isBelow_of_mem_compareMembers`** — where the changes of two mappings are.
* **`compareMembers_ignoring`** — skipping members is filtering changes.
* **`ignoring_is_filtering_iff`** — the headline: specs.
-/

namespace ApiContract.Drift

open Contract

variable {ignored : List String} {scope : Scope} {path : String}

/-! ## Paths -/

/-- A path begins like another. -/
def IsBelow (path path' : String) : Prop := path.toList <+: path'.toList

instance (path path' : String) : Decidable (IsBelow path path') :=
  inferInstanceAs (Decidable (path.toList <+: path'.toList))

theorem IsBelow.refl (path : String) : IsBelow path path := List.prefix_refl _

theorem IsBelow.trans {path' path'' : String} (h : IsBelow path path') (h' : IsBelow path' path'') :
    IsBelow path path'' := List.IsPrefix.trans h h'

theorem isBelow_memberPath (path : String) (key : Scalar) : IsBelow path (memberPath path key) := by
  unfold memberPath IsBelow
  split
  · rename_i h
    rw [String.isEmpty_iff.mp h]
    exact List.nil_prefix
  · rw [String.toList_append, String.toList_append, List.append_assoc]
    exact List.prefix_append _ _

/-- What is below an ignored path is ignored. -/
theorem isIgnored_of_isBelow {path' : String} (h : IsBelow path path')
    (hignored : isIgnored ignored path = true) : isIgnored ignored path' = true := by
  unfold isIgnored at hignored ⊢
  obtain ⟨p, hp, hpath⟩ := List.any_eq_true.mp hignored
  exact List.any_eq_true.mpr
    ⟨p, hp, List.isPrefixOf_iff_prefix.mpr ((List.isPrefixOf_iff_prefix.mp hpath).trans h)⟩

theorem isIgnored_append (paths paths' : List String) (path : String) :
    isIgnored (paths ++ paths') path = (isIgnored paths path || isIgnored paths' path) :=
  List.any_append

/-! ## Where changes are -/

theorem path_of_mem_compareMember {key : Scalar} {old new : Value} {c : Change}
    (h : c ∈ compareMember path key old new) : c.path = path := by
  unfold compareMember at h
  dsimp only at h
  rw [Option.mem_toList] at h
  split at h
  · unfold compareNames at h
    dsimp only at h
    split at h <;> cases h
    rfl
  · unfold compare at h
    split at h <;> cases h
    rfl

theorem isBelow_of_mem_addedMembers {old new : Members} {c : Change}
    (h : c ∈ addedMembers scope path old new) : ∃ key, IsBelow (memberPath path key) c.path := by
  unfold addedMembers at h
  obtain ⟨m, -, hm⟩ := List.mem_flatMap.mp h
  dsimp only at hm
  split at hm
  · cases hm
  · exact ⟨m.1, (path_of_mem_compareMember hm).symm ▸ IsBelow.refl _⟩

mutual

theorem isBelow_of_mem_compareUnder {path : String} {key : Scalar} {new : Value} {c : Change} :
    (old : Value) → c ∈ compareUnder scope path key new old → IsBelow path c.path
  | .map old, h => by
    cases new with
    | map new =>
      rw [compareUnder] at h
      have hmember : ∃ key, IsBelow (memberPath path key) c.path :=
        (List.mem_append.mp h).elim (isBelow_of_mem_keptMembers old) isBelow_of_mem_addedMembers
      obtain ⟨key, hkey⟩ := hmember
      exact (isBelow_memberPath path key).trans hkey
    | scalar leaf => exact (path_of_mem_compareMember h).symm ▸ IsBelow.refl _
    | list items => exact (path_of_mem_compareMember h).symm ▸ IsBelow.refl _
    | set items => exact (path_of_mem_compareMember h).symm ▸ IsBelow.refl _
  | .scalar leaf, h => (path_of_mem_compareMember h).symm ▸ IsBelow.refl _
  | .list items, h => (path_of_mem_compareMember h).symm ▸ IsBelow.refl _
  | .set items, h => (path_of_mem_compareMember h).symm ▸ IsBelow.refl _

theorem isBelow_of_mem_keptMembers {path : String} {new : Members} {c : Change} :
    (old : List (Scalar × Value)) → c ∈ keptMembers scope path new old →
      ∃ key, IsBelow (memberPath path key) c.path
  | [], h => absurd h List.not_mem_nil
  | (k, v) :: rest, h => by
    rw [keptMembers] at h
    rcases List.mem_append.mp h with h | h
    · split at h
      · cases h
      · exact ⟨k, isBelow_of_mem_compareUnder v h⟩
    · exact isBelow_of_mem_keptMembers rest h

end

/-- **Every change of two mappings is at a member or below one.** -/
theorem isBelow_of_mem_compareMembers {old new : Members} {c : Change}
    (h : c ∈ compareMembers scope path old new) : ∃ key, IsBelow (memberPath path key) c.path :=
  (List.mem_append.mp h).elim (isBelow_of_mem_keptMembers old) isBelow_of_mem_addedMembers

/-! ## Skipping members -/

/-- A comparison that ignores more paths. -/
def Scope.ignoring (scope : Scope) (ignored : List String) : Scope :=
  { scope with ignoredPaths := ignored ++ scope.ignoredPaths }

/-- The changes at paths that are not ignored. -/
def unignored (ignored : List String) (changes : List Change) : List Change :=
  changes.filter fun c => !isIgnored ignored c.path

theorem unignored_append (ignored : List String) (changes changes' : List Change) :
    unignored ignored (changes ++ changes') = unignored ignored changes ++ unignored ignored changes' :=
  List.filter_append ..

theorem unignored_eq_self {changes : List Change} (hignored : isIgnored ignored path = false)
    (h : ∀ c ∈ changes, c.path = path) : unignored ignored changes = changes :=
  List.filter_eq_self.mpr fun c hc => by rw [h c hc, hignored]; rfl

theorem unignored_eq_nil {changes : List Change} (hignored : isIgnored ignored path = true)
    (h : ∀ c ∈ changes, IsBelow path c.path) : unignored ignored changes = [] :=
  List.filter_eq_nil_iff.mpr fun c hc => by
    rw [isIgnored_of_isBelow (h c hc) hignored]
    exact Bool.false_ne_true

theorem excludes_ignoring (scope : Scope) (ignored : List String) (path : String) (key : Scalar) :
    (scope.ignoring ignored).excludes path key
      = (isIgnored ignored path || scope.excludes path key) := by
  unfold Scope.excludes Scope.ignoring
  dsimp only
  rw [isIgnored_append, Bool.or_assoc]

/-- The step: a member that is skipped has no changes that are left after filtering, and of one that
is not skipped the changes are filtered. -/
theorem unignored_member {key : Scalar} {changes changes' : List Change}
    (hbelow : ∀ c ∈ changes, IsBelow path c.path)
    (h : isIgnored ignored path = false → changes' = unignored ignored changes) :
    (if (scope.ignoring ignored).excludes path key then [] else changes')
      = unignored ignored (if scope.excludes path key then [] else changes) := by
  rw [excludes_ignoring]
  cases hignored : isIgnored ignored path with
  | true =>
    rw [Bool.true_or, if_pos rfl]
    split
    · rfl
    · exact (unignored_eq_nil hignored hbelow).symm
  | false =>
    rw [Bool.false_or]
    split
    · rfl
    · exact h hignored

theorem compareMember_ignoring {key : Scalar} {old new : Value}
    (hignored : isIgnored ignored path = false) :
    compareMember path key old new = unignored ignored (compareMember path key old new) :=
  (unignored_eq_self hignored fun _ hc => path_of_mem_compareMember hc).symm

theorem addedMembers_ignoring (ignored : List String) (scope : Scope) (path : String)
    (old new : Members) :
    addedMembers (scope.ignoring ignored) path old new
      = unignored ignored (addedMembers scope path old new) := by
  unfold addedMembers
  rw [unignored, List.filter_flatMap]
  refine List.flatMap_congr fun m _ => ?_
  exact unignored_member (fun c hc => (path_of_mem_compareMember hc).symm ▸ IsBelow.refl _)
    compareMember_ignoring

mutual

theorem compareUnder_ignoring {path : String} {key : Scalar} {new : Value} :
    (old : Value) → isIgnored ignored path = false →
      compareUnder (scope.ignoring ignored) path key new old
        = unignored ignored (compareUnder scope path key new old)
  | .map old, h => by
    cases new with
    | map new =>
      rw [compareUnder, compareUnder, unignored_append, keptMembers_ignoring old,
        addedMembers_ignoring]
    | scalar leaf => exact compareMember_ignoring h
    | list items => exact compareMember_ignoring h
    | set items => exact compareMember_ignoring h
  | .scalar leaf, h => compareMember_ignoring h
  | .list items, h => compareMember_ignoring h
  | .set items, h => compareMember_ignoring h

theorem keptMembers_ignoring {path : String} {new : Members} : (old : List (Scalar × Value)) →
    keptMembers (scope.ignoring ignored) path new old
      = unignored ignored (keptMembers scope path new old)
  | [] => rfl
  | (k, v) :: rest => by
    rw [keptMembers, keptMembers, unignored_append, keptMembers_ignoring rest,
      unignored_member (fun c hc => isBelow_of_mem_compareUnder v hc) (compareUnder_ignoring v)]

end

/-- **Skipping ignored members is filtering the changes.** -/
theorem compareMembers_ignoring (ignored : List String) (scope : Scope) (path : String)
    (old new : Members) :
    compareMembers (scope.ignoring ignored) path old new
      = unignored ignored (compareMembers scope path old new) := by
  unfold compareMembers
  rw [keptMembers_ignoring, addedMembers_ignoring, unignored_append]

/-! ## Trees -/

/-- No change of two mappings is at their own path. -/
theorem path_ne_of_mem_compareMembers {root name : String} {old new : Members} {c : Change}
    (hroot : root.isEmpty = false) (hname : ¬ IsBelow (root ++ ".") name)
    (h : c ∈ compareMembers scope root old new) : c.path ≠ name := by
  obtain ⟨key, hkey⟩ := isBelow_of_mem_compareMembers h
  rintro rfl
  refine hname (IsBelow.trans ?_ hkey)
  unfold memberPath IsBelow
  rw [hroot, if_neg Bool.false_ne_true, String.toList_append (s := root ++ ".")]
  exact List.prefix_append _ _

/-- The changes at a root, and the others at paths that are not ignored. -/
def unignoredBelow (root : String) (ignored : List String) (changes : List Change) : List Change :=
  changes.filter fun c => c.path == root || !isIgnored ignored c.path

theorem unignoredBelow_append (root : String) (ignored : List String)
    (changes changes' : List Change) :
    unignoredBelow root ignored (changes ++ changes')
      = unignoredBelow root ignored changes ++ unignoredBelow root ignored changes' :=
  List.filter_append ..

/-- The changes at a root make no difference exactly if the root is not ignored or there are none. -/
theorem unignoredBelow_eq_iff {root : String} {changes : List Change} :
    unignoredBelow root ignored changes = unignored ignored changes
      ↔ isIgnored ignored root = false ∨ ¬ ∃ c ∈ changes, c.path = root := by
  constructor
  · intro h
    by_contra hnot
    obtain ⟨hroot, c, hc, rfl⟩ := not_or.mp hnot |>.imp_right not_not.mp
    have hmem : c ∈ unignored ignored changes :=
      h ▸ List.mem_filter.mpr ⟨hc, by rw [beq_self_eq_true, Bool.true_or]⟩
    exact hroot (by simpa using (List.mem_filter.mp hmem).2)
  · intro h
    refine List.filter_congr fun c hc => ?_
    by_cases hpath : c.path = root
    · rw [hpath, h.resolve_right (not_not.mpr ⟨c, hc, hpath⟩), Bool.not_false, Bool.or_true]
    · rw [beq_false_of_ne hpath, Bool.false_or]

theorem compareMembers_ignoring_root {root name : String} (ignored : List String) (scope : Scope)
    (old new : Members) (hroot : root.isEmpty = false) (hname : ¬ IsBelow (root ++ ".") name) :
    compareMembers (scope.ignoring ignored) root old new
      = unignoredBelow name ignored (compareMembers scope root old new) := by
  rw [compareMembers_ignoring, unignoredBelow_eq_iff.mpr (.inr ?_)]
  rintro ⟨c, hc, hpath⟩
  exact path_ne_of_mem_compareMembers hroot hname hc hpath

/-- Of two trees that may be absent, the change at the root is reported whatever is ignored. -/
theorem compareTrees_ignoring {root : String} (ignored : List String) (scope : Scope)
    (old new : Option Members) (hroot : root.isEmpty = false)
    (hname : ¬ IsBelow (root ++ ".") root) :
    compareTrees (scope.ignoring ignored) root old new
      = unignoredBelow root ignored (compareTrees scope root old new) := by
  cases old with
  | none =>
    cases new with
    | none => rfl
    | some new => simp [compareTrees, unignoredBelow]
  | some old =>
    cases new with
    | none => simp [compareTrees, unignoredBelow]
    | some new => exact compareMembers_ignoring_root ignored scope old new hroot hname

/-- There is a change at the root exactly if one tree is absent and the other is not. -/
theorem exists_change_at_root_iff (scope : Scope) (root : String) (old new : Option Members)
    (hroot : root.isEmpty = false) (hname : ¬ IsBelow (root ++ ".") root) :
    (∃ c ∈ compareTrees scope root old new, c.path = root) ↔ old.isSome ≠ new.isSome := by
  cases old with
  | none =>
    cases new with
    | none => simp [compareTrees]
    | some new => simp [compareTrees]
  | some old =>
    cases new with
    | none => simp [compareTrees]
    | some new =>
      refine iff_of_false ?_ (by simp)
      rintro ⟨c, hc, hpath⟩
      exact path_ne_of_mem_compareMembers hroot hname hc hpath

/-! ## Specs -/

/-- The transport of a spec as it is compared. -/
def transportTree (spec : OperationSpec) : Option Members :=
  spec.transport.map fun t => membersOfValue t.toValue

theorem ignoredPaths_eq (options : Options) :
    ignoredPaths options = options.ignorePaths ++ ignoredPaths { options with ignorePaths := [] } := by
  unfold ignoredPaths
  rw [List.nil_append, List.append_assoc]

/-- What is compared under a heading that is no part of the transport. -/
theorem compareMembers_options (root : String) (options : Options) (descriptions : Bool)
    (old new : Members) (hroot : root.isEmpty = false) (hname : ¬ IsBelow (root ++ ".") "transport") :
    compareMembers ⟨ignoredPaths options, descriptions⟩ root old new
      = unignoredBelow "transport" options.ignorePaths
          (compareMembers ⟨ignoredPaths { options with ignorePaths := [] }, descriptions⟩ root old
            new) := by
  rw [ignoredPaths_eq]
  exact compareMembers_ignoring_root options.ignorePaths ⟨_, descriptions⟩ old new hroot hname

theorem compareTrees_options (options : Options) (old new : OperationSpec) :
    compareTrees ⟨ignoredPaths options, false⟩ "transport" (transportTree old) (transportTree new)
      = unignoredBelow "transport" options.ignorePaths
          (compareTrees ⟨ignoredPaths { options with ignorePaths := [] }, false⟩ "transport"
            (transportTree old) (transportTree new)) := by
  rw [ignoredPaths_eq]
  exact compareTrees_ignoring options.ignorePaths ⟨_, false⟩ _ _ rfl (by decide)

/-- **Ignored paths filter the changes**, that at the transport as a whole excepted. -/
theorem compareSpecs_ignoring (options : Options) (old new : OperationSpec) :
    compareSpecs options old new
      = unignoredBelow "transport" options.ignorePaths
          (compareSpecs { options with ignorePaths := [] } old new) := by
  unfold compareSpecs
  dsimp only
  rw [unignoredBelow_append, unignoredBelow_append, unignoredBelow_append,
    compareMembers_options "meta" options _ _ _ rfl (by decide),
    compareMembers_options "io" options _ _ _ rfl (by decide),
    compareMembers_options "policy" options _ _ _ rfl (by decide)]
  congr 2
  split
  · rfl
  · exact compareTrees_options options old new

/-- There is a change at the transport as a whole exactly if it is compared and only one spec has
one. -/
theorem exists_change_at_transport_iff {options : Options} {old new : OperationSpec} :
    (∃ c ∈ compareSpecs options old new, c.path = "transport")
      ↔ options.ignoreTransport = false ∧ old.transport.isSome ≠ new.transport.isSome := by
  have hroot := exists_change_at_root_iff ⟨ignoredPaths options, false⟩ "transport"
    (transportTree old) (transportTree new) rfl (by decide)
  simp only [transportTree, Option.isSome_map] at hroot
  have helse : ∀ (scope : Scope) (root : String) (old new : Members), root.isEmpty = false →
      ¬ IsBelow (root ++ ".") "transport" →
      ¬ ∃ c ∈ compareMembers scope root old new, c.path = "transport" := by
    rintro scope root old new hroot hname ⟨c, hc, hpath⟩
    exact path_ne_of_mem_compareMembers hroot hname hc hpath
  unfold compareSpecs
  dsimp only
  simp only [List.mem_append, or_and_right, exists_or,
    helse _ "meta" _ _ rfl (by decide), helse _ "io" _ _ rfl (by decide),
    helse _ "policy" _ _ rfl (by decide), false_or, or_false]
  cases options.ignoreTransport with
  | true => simp
  | false =>
    rw [if_neg Bool.false_ne_true]
    simpa using hroot

/-- **When ignoring paths is filtering.** The changes that are left are those whose path begins like
no ignored one, and beside them the change at the transport as a whole. -/
theorem ignoring_is_filtering_iff (options : Options) (old new : OperationSpec) :
    compareSpecs options old new
        = (compareSpecs { options with ignorePaths := [] } old new).filter
            (fun c => c.path == "transport" || !isIgnored options.ignorePaths c.path)
      ∧ (compareSpecs options old new
          = (compareSpecs { options with ignorePaths := [] } old new).filter
              (fun c => !isIgnored options.ignorePaths c.path)
        ↔ isIgnored options.ignorePaths "transport" = false ∨ options.ignoreTransport = true
          ∨ old.transport.isSome = new.transport.isSome) := by
  have hall := compareSpecs_ignoring options old new
  refine ⟨hall, ?_⟩
  rw [hall]
  refine unignoredBelow_eq_iff.trans (or_congr_right ?_)
  rw [exists_change_at_transport_iff, not_and_or, Bool.not_eq_false, not_ne_iff]

/-- A transport that is new is reported although its path is ignored. -/
theorem added_transport_not_ignored :
    let old := plainQuery "pets.show" 1
    let new := { plainQuery "pets.show" 1 with
      transport := some ⟨some ⟨some "GET", some "/pets"⟩, none⟩ }
    (compareSpecs { ignorePaths := ["transport"] } old new).map (fun c => (c.path, c.kind))
        = [("transport", .added)]
      ∧ (compareSpecs {} old new).filter (fun c => !isIgnored ["transport"] c.path) = [] := by
  decide +kernel

end ApiContract.Drift
