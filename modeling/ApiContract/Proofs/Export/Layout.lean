import ApiContract.Export.Document
import ApiContract.Proofs.Export.Settle
import ApiContract.Proofs.Named
import ApiContract.Proofs.OpenApi.Accepted
import Mathlib.Data.List.ProdSigma

/-!
# The places of an exported document

An export groups the operations by path and writes every one under its method. Reading goes over the
paths in the same order and asks each for every method, so it meets every operation once, though not
in the order in which they were exported.

* **`layout_placed`** — specs in different places are all exported.
* **`arranged`** / **`arranged_perm`** — the specs in the order of reading.
* **`pathEntries_settled`** — the entries of the exported paths are the arranged specs.
-/

namespace ApiContract.Export

open Contract OpenApi

/-! ## Layout -/

/-- Specs in different places are all exported, in order. -/
theorem layout_placed {placed specs : List OperationSpec} {collisions : List Collision}
    (h : (placed ++ specs).Pairwise fun a b => samePlace b a = false) :
    specs.foldl Layout.add ⟨placed, collisions⟩ = ⟨placed ++ specs, collisions⟩ := by
  induction specs generalizing placed with
  | nil => simp
  | cons spec rest ih =>
    have hnone : placed.find? (samePlace spec) = none := by
      rw [List.find?_eq_none]
      intro other hother
      rw [List.pairwise_append] at h
      simpa using h.2.2 other hother spec List.mem_cons_self
    rw [List.foldl_cons, Layout.add, hnone]
    dsimp only
    rw [ih (by simpa using h), List.append_assoc]
    rfl

/-- A spec whose method can be read back. -/
def HasMethod (spec : OperationSpec) (m : Method) : Prop := spec.verb = m.verb

theorem upper_verb (m : Method) : Text.upper m.verb = m.verb := by
  cases m <;> rfl

theorem lower_verb (m : Method) : Text.lower m.verb = m.name := by
  cases m <;> rfl

/-- A method that is written out is the one of the spec. -/
theorem hasMethod_of_rest {spec : OperationSpec} {rest : RestTransport} {m : Method}
    (h : spec.rest? = some rest) (hmethod : rest.method = some m.verb) : HasMethod spec m := by
  have hverb : OperationSpec.nonEmpty (some m.verb) = some m.verb := by
    cases m <;> rfl
  unfold HasMethod OperationSpec.verb
  rw [h]
  dsimp only [Option.bind_some]
  rw [hmethod, hverb]
  exact upper_verb m

theorem HasMethod.methodKey {spec : OperationSpec} {m : Method} (h : HasMethod spec m) :
    methodKey spec = m.name := by
  unfold Export.methodKey
  rw [h, lower_verb]

/-! ## The order of reading -/

/-- The places of some specs, in the order of reading. -/
def places (placed : List OperationSpec) : List (String × Method) :=
  (Distinct.ofList (placed.map (·.path))).flatMap fun path => Method.all.map fun m => (path, m)

/-- The first spec in a place. -/
def specAt (placed : List OperationSpec) (place : String × Method) : Option OperationSpec :=
  placed.find? fun spec => spec.path == place.1 && methodKey spec == place.2.name

/-- The specs in the order of reading, each with its method. -/
def arranged (placed : List OperationSpec) : List (Method × OperationSpec) :=
  (places placed).filterMap fun place => (specAt placed place).map (place.2, ·)

theorem Method.name_inj {m n : Method} (h : m.name = n.name) : m = n := by
  cases m <;> cases n <;> first | rfl | exact absurd h (by decide)

theorem Method.mem_all (m : Method) : m ∈ Method.all := by
  cases m <;> decide

theorem nodup_places (placed : List OperationSpec) : (places placed).Nodup :=
  (Distinct.nodup_ofList _).product (by decide : Method.all.Nodup)

theorem specAt_eq_some {placed : List OperationSpec} {place : String × Method}
    {spec : OperationSpec} (h : specAt placed place = some spec) :
    spec ∈ placed ∧ spec.path = place.1 ∧ methodKey spec = place.2.name := by
  have hfound := List.find?_some h
  rw [Bool.and_eq_true, beq_iff_eq, beq_iff_eq] at hfound
  exact ⟨List.mem_of_find?_eq_some h, hfound⟩

variable {placed : List OperationSpec}

/-- **Every spec is read once.** -/
theorem arranged_perm (hmethods : ∀ spec ∈ placed, ∃ m, HasMethod spec m)
    (hplaces : (placed.map fun spec => (spec.path, methodKey spec)).Nodup) :
    ((arranged placed).map (·.2)).Perm placed := by
  have hsecond : (arranged placed).map (·.2) = (places placed).filterMap (specAt placed) := by
    unfold arranged
    rw [List.map_filterMap]
    refine List.filterMap_congr fun place _ => ?_
    cases specAt placed place <;> rfl
  have hnodup : ((places placed).filterMap (specAt placed)).Nodup := by
    refine (nodup_places placed).filterMap fun a b spec ha hb => ?_
    obtain ⟨-, hpa, hma⟩ := specAt_eq_some ha
    obtain ⟨-, hpb, hmb⟩ := specAt_eq_some hb
    exact Prod.ext (hpa.symm.trans hpb) (Method.name_inj (hma.symm.trans hmb))
  rw [hsecond, List.perm_ext_iff_of_nodup hnodup (List.Nodup.of_map _ hplaces)]
  intro spec
  rw [List.mem_filterMap]
  constructor
  · rintro ⟨place, -, hspec⟩
    exact (specAt_eq_some hspec).1
  · intro hspec
    obtain ⟨m, hm⟩ := hmethods spec hspec
    refine ⟨(spec.path, m), ?_, ?_⟩
    · rw [places, List.mem_flatMap]
      refine ⟨spec.path, Distinct.mem_ofList.mpr (List.mem_map_of_mem hspec), ?_⟩
      exact List.mem_map_of_mem (Method.mem_all m)
    · -- the first spec in the place is the spec: there is no other
      cases hfound : specAt placed (spec.path, m) with
      | none =>
        have := List.find?_eq_none.mp hfound spec hspec
        simp [hm.methodKey] at this
      | some other =>
        obtain ⟨hother, hpath, hmethod⟩ := specAt_eq_some hfound
        have heq : (other.path, methodKey other) = (spec.path, methodKey spec) := by
          rw [hpath, hmethod, hm.methodKey]
        rw [List.inj_on_of_nodup_map hplaces hother hspec heq]

theorem mem_arranged (hmethods : ∀ spec ∈ placed, ∃ m, HasMethod spec m)
    {p : Method × OperationSpec} (h : p ∈ arranged placed) :
    p.2 ∈ placed ∧ HasMethod p.2 p.1 := by
  obtain ⟨place, -, hp⟩ := List.mem_filterMap.mp h
  obtain ⟨spec, hspec, rfl⟩ := Option.map_eq_some_iff.mp hp
  obtain ⟨hmem, -, hkey⟩ := specAt_eq_some hspec
  obtain ⟨m, hm⟩ := hmethods spec hmem
  have heq : m = place.2 := Method.name_inj (hm.methodKey.symm.trans hkey)
  subst heq
  exact ⟨hmem, hm⟩

/-! ## The entries of the exported paths -/

/-- The operation of a spec as it stands in the document. -/
def exportedOperation (names : List String) (spec : OperationSpec) : Value :=
  settle names (operationObject spec)

theorem isMap_exportedOperation (names : List String) (spec : OperationSpec) :
    (exportedOperation names spec).isMap = true :=
  isMap_settle rfl

/-- The slot of a spec. -/
def slotOf (names : List String) (p : Method × OperationSpec) : Slot :=
  ⟨p.1, p.2.path, exportedOperation names p.2, .null⟩

/-- The item of one path. -/
def pathItem (placed : List OperationSpec) (path : String) : Members :=
  (placed.filter (·.path == path)).map fun spec => member (methodKey spec) (operationObject spec)

theorem get?_pathItem (path name : String) :
    Members.get? (pathItem placed path) name
      = (placed.find? fun spec => spec.path == path && methodKey spec == name).map operationObject := by
  unfold pathItem
  rw [Members.get?_map, List.find?_filter]
  simp only [Bool.decide_and, Bool.decide_eq_true]

/-- A path item has methods only. -/
theorem get?_pathItem_other (hmethods : ∀ spec ∈ placed, ∃ m, HasMethod spec m) (path : String)
    {name : String} (h : ∀ m : Method, m.name ≠ name) :
    Members.get? (pathItem placed path) name = none := by
  rw [get?_pathItem, Option.map_eq_none_iff, List.find?_eq_none]
  intro spec hspec
  obtain ⟨m, hm⟩ := hmethods spec hspec
  simp only [hm.methodKey, Bool.and_eq_true, beq_iff_eq, not_and]
  exact fun _ => h m

/-- The slots of a path are those of its specs, in the order of the methods. -/
theorem slotsOf_pathItem (hmethods : ∀ spec ∈ placed, ∃ m, HasMethod spec m)
    (names : List String) (path : String) :
    slotsOf path (.map (settleMembers names (pathItem placed path)))
      = Method.all.filterMap fun m =>
          (specAt placed (path, m)).map fun spec => slotOf names (m, spec) := by
  unfold slotsOf
  refine List.filterMap_congr fun m _ => ?_
  have hshared : (Value.map (settleMembers names (pathItem placed path))).field "parameters"
      = .null := by
    rw [Value.field_map, get?_settleMembers,
      get?_pathItem_other hmethods path (by intro m; cases m <;> decide)]
    rfl
  have hnode : (Value.map (settleMembers names (pathItem placed path))).field m.name
      = ((specAt placed (path, m)).map (exportedOperation names)).getD .null := by
    rw [Value.field_map, get?_settleMembers, get?_pathItem, Option.map_map]
    rfl
  dsimp only
  rw [hshared, hnode]
  cases hspec : specAt placed (path, m) with
  | none => rfl
  | some spec =>
    have hnull : (exportedOperation names spec).isNull = false := by
      have := isMap_exportedOperation names spec
      cases hv : exportedOperation names spec with
      | map members => rfl
      | scalar leaf => rw [hv] at this; cases this
      | list items => rw [hv] at this; cases this
      | set items => rw [hv] at this; cases this
    obtain ⟨-, hpath, -⟩ := specAt_eq_some hspec
    rw [Option.map_some, Option.getD_some, hnull, Option.map_some, slotOf, hpath]
    rfl

theorem pathItems_eq (placed : List OperationSpec) :
    pathItems placed
      = (Distinct.ofList (placed.map (·.path))).map fun path =>
          member path (.map (pathItem placed path)) := rfl

/-- **The entries of the exported paths** are the specs in the order of reading. -/
theorem pathEntries_settled (hmethods : ∀ spec ∈ placed, ∃ m, HasMethod spec m)
    (names : List String) :
    pathEntries (settleMembers names (pathItems placed))
      = (arranged placed).map fun p => .slot (slotOf names p) := by
  have hitem : ∀ path, settle names (.map (pathItem placed path))
      = .map (settleMembers names (pathItem placed path)) := fun path =>
    settle_map (get?_pathItem_other hmethods path (by intro m; cases m <;> decide))
  unfold pathEntries arranged places
  rw [settleMembers_eq_map, pathItems_eq, List.map_map, List.flatMap_map, List.filterMap_flatMap,
    List.map_flatMap]
  refine List.flatMap_congr fun path _ => ?_
  show (if (settle names (.map (pathItem placed path))).isMap = true then
      (slotsOf path (settle names (.map (pathItem placed path)))).map PathEntry.slot
    else [.skipped path]) = _
  rw [hitem, Value.isMap, if_pos rfl, slotsOf_pathItem hmethods, List.map_filterMap, List.filterMap_map,
    List.map_filterMap]
  refine List.filterMap_congr fun m _ => ?_
  cases hspec : specAt placed (path, m) with
  | none => simp [hspec]
  | some spec => simp [hspec]

end ApiContract.Export
