import ApiContract.Proofs.Reference.Path
import ApiContract.Proofs.Value.Lookup
import ApiContract.Value.Size
import Mathlib.Data.List.Infix
import Mathlib.Data.List.Nodup

/-!
# Chains of references

From a node the references lead on, one pointer after the other, until a node is no reference or its
pointer leads nowhere. A chain that does not repeat a pointer is no longer than the document has nodes,
one more for the node it begins at; so going round is the only way not to come to an end.

* **`length_nodes`** — there are as many nodes as the size of a tree says.
* **`infix_of_mem_nodes`** — the nodes of a node at any depth are nodes of the whole.
* **`mem_nodes_of_resolvePointer`** — what a pointer leads to is a node of the document.
* **`Chain.length_le`** — how long a chain without repetition can be.
* **`follow_outcome`** — the loop, from any state it can be in.
* **`resolve_ends_chain`** — the headline.
-/

namespace ApiContract

mutual

/-- The nodes of a tree, in document order, the tree itself first. -/
def Value.nodes : Value → List Value
  | .scalar leaf => [.scalar leaf]
  | .list items => .list items :: itemNodes items
  | .map members => .map members :: memberNodes members
  | .set items => .set items :: items.map .scalar

/-- The nodes of all items. -/
def itemNodes : List Value → List Value
  | [] => []
  | v :: rest => v.nodes ++ itemNodes rest

/-- The nodes of all members. -/
def memberNodes : List (Scalar × Value) → List Value
  | [] => []
  | (_, v) :: rest => v.nodes ++ memberNodes rest

end

mutual

theorem Value.length_nodes : (v : Value) → v.nodes.length = v.size
  | .scalar _ => by rw [Value.nodes, Value.size, List.length_singleton]
  | .list items => by rw [Value.nodes, Value.size, List.length_cons, length_itemNodes items]
  | .map members => by rw [Value.nodes, Value.size, List.length_cons, length_memberNodes members]
  | .set items => by rw [Value.nodes, Value.size, List.length_cons, List.length_map]

theorem length_itemNodes : (items : List Value) → (itemNodes items).length = itemsSize items
  | [] => rfl
  | v :: rest => by
    rw [itemNodes, itemsSize, List.length_append, Value.length_nodes v, length_itemNodes rest]

theorem length_memberNodes : (members : List (Scalar × Value)) →
    (memberNodes members).length = membersSize members
  | [] => rfl
  | (_, v) :: rest => by
    rw [memberNodes, membersSize, List.length_append, Value.length_nodes v, length_memberNodes rest]

end

theorem mem_itemNodes {items : List Value} {w : Value} :
    w ∈ itemNodes items ↔ ∃ v ∈ items, w ∈ v.nodes := by
  induction items with
  | nil => simp [itemNodes]
  | cons v rest ih => rw [itemNodes, List.mem_append, ih, List.exists_mem_cons_iff]

theorem mem_memberNodes {members : Members} {w : Value} :
    w ∈ memberNodes members ↔ ∃ m ∈ members, w ∈ m.2.nodes := by
  induction members with
  | nil => simp [memberNodes]
  | cons m rest ih =>
    obtain ⟨k, v⟩ := m
    rw [memberNodes, List.mem_append, ih, List.exists_mem_cons_iff]

namespace Value

theorem mem_nodes_self (v : Value) : v ∈ v.nodes := by
  cases v <;> rw [nodes] <;> exact List.mem_cons_self

theorem mem_nodes_of_item {items : List Value} {v w : Value} (hv : v ∈ items) (hw : w ∈ v.nodes) :
    w ∈ (Value.list items).nodes := by
  rw [nodes]
  exact List.mem_cons_of_mem _ (mem_itemNodes.mpr ⟨v, hv, hw⟩)

theorem mem_nodes_of_member {members : Members} {m : Scalar × Value} {w : Value} (hm : m ∈ members)
    (hw : w ∈ m.2.nodes) : w ∈ (Value.map members).nodes := by
  rw [nodes]
  exact List.mem_cons_of_mem _ (mem_memberNodes.mpr ⟨m, hm, hw⟩)

theorem mem_nodes_of_get? {v w : Value} {name : String} (h : v.get? name = some w) : w ∈ v.nodes := by
  cases v with
  | map members => exact mem_nodes_of_member (Members.mem_of_get? h) w.mem_nodes_self
  | scalar leaf => cases h
  | list items => cases h
  | set items => cases h

end Value

mutual

/-- **The nodes of a node** are nodes of the tree, and stand there together. -/
theorem Value.infix_of_mem_nodes : (v : Value) → ∀ {w : Value}, w ∈ v.nodes → w.nodes <:+: v.nodes
  | .scalar leaf, w, h => by
    rw [Value.nodes] at h
    cases List.mem_singleton.mp h
    exact List.infix_rfl
  | .set items, w, h => by
    rw [Value.nodes] at h
    rcases List.mem_cons.mp h with rfl | h
    · exact List.infix_rfl
    · obtain ⟨leaf, -, rfl⟩ := List.mem_map.mp h
      rw [Value.nodes, Value.nodes]
      exact ((List.singleton_infix_iff _ _).mpr h).trans (List.suffix_cons _ _).isInfix
  | .list items, w, h => by
    rw [Value.nodes] at h
    rcases List.mem_cons.mp h with rfl | h
    · exact List.infix_rfl
    · rw [Value.nodes.eq_2]
      exact (infix_of_mem_itemNodes items h).trans (List.suffix_cons _ _).isInfix
  | .map members, w, h => by
    rw [Value.nodes] at h
    rcases List.mem_cons.mp h with rfl | h
    · exact List.infix_rfl
    · rw [Value.nodes.eq_3]
      exact (infix_of_mem_memberNodes members h).trans (List.suffix_cons _ _).isInfix

theorem infix_of_mem_itemNodes : (items : List Value) → ∀ {w : Value}, w ∈ itemNodes items →
    w.nodes <:+: itemNodes items
  | [], w, h => absurd h List.not_mem_nil
  | v :: rest, w, h => by
    rw [itemNodes] at h ⊢
    rcases List.mem_append.mp h with h | h
    · exact (Value.infix_of_mem_nodes v h).trans (List.prefix_append _ _).isInfix
    · exact (infix_of_mem_itemNodes rest h).trans (List.suffix_append _ _).isInfix

theorem infix_of_mem_memberNodes : (members : List (Scalar × Value)) → ∀ {w : Value},
    w ∈ memberNodes members → w.nodes <:+: memberNodes members
  | [], w, h => absurd h List.not_mem_nil
  | (_, v) :: rest, w, h => by
    rw [memberNodes] at h ⊢
    rcases List.mem_append.mp h with h | h
    · exact (Value.infix_of_mem_nodes v h).trans (List.prefix_append _ _).isInfix
    · exact (infix_of_mem_memberNodes rest h).trans (List.suffix_append _ _).isInfix

end

/-- No node is larger than the tree. -/
theorem Value.size_le_of_mem_nodes {v w : Value} (h : w ∈ v.nodes) : w.size ≤ v.size := by
  rw [← w.length_nodes, ← v.length_nodes]
  exact (v.infix_of_mem_nodes h).length_le

end ApiContract

namespace ApiContract.Reference

variable {document node child target last : Value} {pointer : String} {pointers : List String}

/-! ## What pointers lead to -/

theorem nodes_subset_of_step {segment : String} (h : step node segment = some child) :
    child.nodes ⊆ node.nodes := by
  cases node with
  | map members =>
    intro v hv
    exact Value.mem_nodes_of_member (Members.mem_of_get? h) hv
  | list items =>
    obtain ⟨n, -, hitem⟩ := Option.bind_eq_some_iff.mp h
    obtain ⟨index, -, hchild⟩ := itemAt_eq_some_iff.mp hitem
    intro v hv
    exact Value.mem_nodes_of_item (List.mem_of_getElem? hchild) hv
  | scalar leaf => cases h
  | set items => cases h

theorem nodes_subset_of_foldlM {segments : List String} (h : segments.foldlM step node = some target) :
    target.nodes ⊆ node.nodes := by
  induction segments generalizing node with
  | nil =>
    cases h
    exact List.Subset.refl _
  | cons segment rest ih =>
    obtain ⟨child, hchild, hrest⟩ := Option.bind_eq_some_iff.mp h
    exact List.Subset.trans (ih hrest) (nodes_subset_of_step hchild)

/-- What a pointer leads to is a node of the document. -/
theorem mem_nodes_of_resolvePointer (h : resolvePointer document pointer = some target) :
    target ∈ document.nodes := by
  obtain ⟨-, segments, -, hfound⟩ := resolvePointer_eq_some_iff.mp h
  exact nodes_subset_of_foldlM hfound (Value.mem_nodes_self target)

/-- A pointer is local exactly if it begins with `#/`. -/
theorem segments?_eq_none_iff : segments? pointer = none ↔ ¬ ['#', '/'] <+: pointer.toList := by
  unfold segments?
  split
  · next rest heq =>
    rw [heq]
    exact iff_of_false nofun (not_not_intro ⟨rest, rfl⟩)
  · next hother =>
    refine iff_of_true rfl ?_
    rintro ⟨rest, heq⟩
    exact hother rest heq.symm

theorem segments?_ne_nil {segments : List String} (h : segments? pointer = some segments) :
    segments ≠ [] := by
  unfold segments? at h
  split at h
  · rintro rfl
    have hnil := List.map_eq_nil_iff.mp (Option.some.inj h)
    exact List.splitOn_ne_nil _ _ hnil
  · cases h

/-- A falsy value has no parts. -/
theorem step_of_falsy (h : document.isTruthy = false) (segment : String) : step document segment = none := by
  cases document with
  | scalar leaf => rfl
  | set items => rfl
  | list items =>
    cases items with
    | cons item rest => cases h
    | nil =>
      refine Option.bind_eq_none_iff.mpr fun place _ => Option.eq_none_iff_forall_ne_some.mpr fun v hv => ?_
      obtain ⟨index, -, hitem⟩ := itemAt_eq_some_iff.mp hv
      cases hitem
  | map members =>
    cases members with
    | cons member rest => cases h
    | nil => rfl

/-- In a falsy document every pointer leads nowhere. -/
theorem resolvePointer_of_falsy (h : document.isTruthy = false) (pointer : String) :
    resolvePointer document pointer = none := by
  cases hsegments : segments? pointer with
  | none =>
    unfold resolvePointer
    rw [hsegments]
    rfl
  | some segments =>
    rw [resolvePointer_of_segments? hsegments]
    cases segments with
    | nil => exact absurd rfl (segments?_ne_nil hsegments)
    | cons segment rest =>
      rw [List.foldlM_cons, step_of_falsy h]
      rfl

/-- Where no mapping has a member of the empty name, nothing that pointers lead to has it. -/
theorem name_ne_empty (hkeys : ∀ v ∈ document.nodes, v.get? "" = none)
    (h : resolvePointer document pointer = some target) : name pointer ≠ "" := by
  obtain ⟨-, segments, hsegments, hfound⟩ := resolvePointer_eq_some_iff.mp h
  obtain hnil | ⟨init, last, hlast⟩ := segments.eq_nil_or_concat'
  · exact absurd hnil (segments?_ne_nil hsegments)
  · rw [name_of_segments? hsegments (by rw [hlast, List.getLast?_concat])]
    rintro rfl
    rw [hlast, List.foldlM_append] at hfound
    obtain ⟨parent, hparent, hstep⟩ := Option.bind_eq_some_iff.mp hfound
    have hmem := nodes_subset_of_foldlM hparent parent.mem_nodes_self
    rw [List.foldlM_cons] at hstep
    obtain ⟨child, hchild, -⟩ := Option.bind_eq_some_iff.mp hstep
    cases parent with
    | map members => cases (hkeys _ hmem).symm.trans hchild
    | list items => cases hchild
    | scalar leaf => cases hchild
    | set items => cases hchild

/-- A pointer that leads nowhere: it is not local, there is no way down by its segments, or a null
value stands at the end of it. -/
inductive Astray (document : Value) (pointer : String) : Prop where
  | external (h : ¬ ['#', '/'] <+: pointer.toList)
  | missing {segments : List String} (h : segments? pointer = some segments)
      (hmissing : ∀ path v, ¬ Walk document segments path v)
  | null {segments : List String} {path : List Place} {v : Value}
      (h : segments? pointer = some segments) (hwalk : Walk document segments path v)
      (hnull : v.isNull = true)

theorem resolvePointer_eq_none_iff : resolvePointer document pointer = none ↔ Astray document pointer := by
  cases hsegments : segments? pointer with
  | none =>
    refine iff_of_true ?_ (.external (segments?_eq_none_iff.mp hsegments))
    unfold resolvePointer
    rw [hsegments]
    rfl
  | some segments =>
    rw [resolvePointer_of_segments? hsegments]
    constructor
    · intro h
      cases hfound : segments.foldlM step document with
      | none =>
        refine .missing hsegments fun path v hwalk => ?_
        cases hfound.symm.trans (foldlM_step_eq_some_iff.mpr ⟨path, hwalk⟩)
      | some v =>
        obtain ⟨path, hwalk⟩ := foldlM_step_eq_some_iff.mp hfound
        refine .null hsegments hwalk ?_
        rw [hfound, Option.filter_some] at h
        cases hnull : v.isNull
        · rw [hnull] at h
          cases h
        · rfl
    · intro h
      cases h with
      | external h => cases (segments?_eq_none_iff.mpr h).symm.trans hsegments
      | missing h hmissing =>
        cases h.symm.trans hsegments
        rw [Option.eq_none_iff_forall_ne_some.mpr fun v hv =>
          (foldlM_step_eq_some_iff.mp hv).elim fun path => hmissing path v]
        rfl
      | null h hwalk hnull =>
        cases h.symm.trans hsegments
        rw [foldlM_step_eq_some_iff.mpr ⟨_, hwalk⟩, Option.filter_some, hnull]
        rfl

/-! ## Chains -/

/-- The pointers that are followed from a node, in order, and the node that they lead to. -/
inductive Chain (document : Value) : Value → List String → Value → Prop where
  | here (node : Value) : Chain document node [] node
  | next {node target last : Value} {pointer : String} {pointers : List String}
      (hpointer : pointer? node = some pointer)
      (htarget : resolvePointer document pointer = some target)
      (rest : Chain document target pointers last) : Chain document node (pointer :: pointers) last

/-- A node from which no chain goes on: no reference, or one whose pointer leads nowhere. -/
def Ends (document node : Value) : Prop :=
  ∀ pointer, pointer? node = some pointer → Astray document pointer

/-- The chain of a node comes back to a pointer that it has followed. -/
def Returns (document node : Value) : Prop :=
  ∃ pointers last pointer, Chain document node pointers last ∧ pointer? last = some pointer
    ∧ pointer ∈ pointers

theorem Chain.concat (h : Chain document node pointers last) (hpointer : pointer? last = some pointer)
    (htarget : resolvePointer document pointer = some target) :
    Chain document node (pointers ++ [pointer]) target := by
  induction h with
  | here node => exact .next hpointer htarget (.here _)
  | next hpointer' htarget' _ ih => exact .next hpointer' htarget' (ih hpointer)

/-- The pointers of the references of a document. -/
def pointersIn (document : Value) : List String := document.nodes.filterMap pointer?

theorem length_pointersIn_le (document : Value) : (pointersIn document).length ≤ document.size :=
  (List.length_filterMap_le _ _).trans (Nat.le_of_eq document.length_nodes)

/-- A mapping that is a reference holds its pointer. -/
theorem exists_text_of_pointer? {members : Members} (h : pointer? (.map members) = some pointer) :
    ∃ m ∈ members, m.2 = .str pointer := by
  obtain ⟨v, hget, hv⟩ := Option.bind_eq_some_iff.mp h
  refine ⟨_, Members.mem_of_get? hget, ?_⟩
  unfold Value.str? at hv
  split at hv
  · cases hv
    rfl
  · cases hv

mutual

/-- **Every reference has a node for its pointer**, so no more than half of the nodes are references. -/
theorem two_mul_length_pointersIn_le : (v : Value) → 2 * (pointersIn v).length ≤ v.size
  | .scalar leaf => Nat.zero_le _
  | .set items => by
    have hnone : (items.map Value.scalar).filterMap pointer? = [] :=
      List.filterMap_eq_nil_iff.mpr fun v hv => by
        obtain ⟨leaf, -, rfl⟩ := List.mem_map.mp hv
        rfl
    rw [pointersIn, Value.nodes, List.filterMap_cons_none rfl, hnone]
    exact Nat.zero_le _
  | .list items => by
    have := two_mul_length_itemPointers_le items
    rw [pointersIn, Value.nodes, List.filterMap_cons_none rfl, Value.size]
    omega
  | .map members => by
    have hmembers := two_mul_length_memberPointers_le members
    rw [pointersIn, Value.nodes, Value.size]
    cases hpointer : pointer? (.map members) with
    | none =>
      rw [List.filterMap_cons_none hpointer]
      omega
    | some pointer =>
      obtain ⟨m, hm, htext⟩ := exists_text_of_pointer? hpointer
      have hcount : 0 < members.countP fun m => m.2.str?.isSome :=
        List.countP_pos_iff.mpr ⟨m, hm, by rw [htext]; rfl⟩
      rw [List.filterMap_cons_some hpointer, List.length_cons]
      omega

theorem two_mul_length_itemPointers_le :
    (items : List Value) → 2 * ((itemNodes items).filterMap pointer?).length ≤ itemsSize items
  | [] => Nat.le_refl _
  | v :: rest => by
    have hv := two_mul_length_pointersIn_le v
    have hrest := two_mul_length_itemPointers_le rest
    rw [pointersIn] at hv
    rw [itemNodes, itemsSize, List.filterMap_append, List.length_append]
    omega

/-- The texts among the members are no references. -/
theorem two_mul_length_memberPointers_le : (members : List (Scalar × Value)) →
    2 * ((memberNodes members).filterMap pointer?).length
      + members.countP (fun m => m.2.str?.isSome) ≤ membersSize members
  | [] => Nat.le_refl _
  | (k, v) :: rest => by
    have hv : 2 * (pointersIn v).length + (if v.str?.isSome then 1 else 0) ≤ v.size := by
      split
      · next htext =>
        obtain ⟨s, hs⟩ := Option.isSome_iff_exists.mp htext
        unfold Value.str? at hs
        split at hs
        · exact Nat.le_refl _
        · cases hs
      · exact two_mul_length_pointersIn_le v
    have hrest := two_mul_length_memberPointers_le rest
    rw [pointersIn] at hv
    rw [memberNodes, membersSize, List.filterMap_append, List.length_append, List.countP_cons]
    dsimp only
    omega

end

/-- The pointers of a node are pointers of its tree. -/
theorem pointersIn_subset (h : node ∈ document.nodes) : pointersIn node ⊆ pointersIn document := by
  intro p hp
  obtain ⟨v, hv, hpointer⟩ := List.mem_filterMap.mp hp
  exact List.mem_filterMap.mpr ⟨v, (document.infix_of_mem_nodes h).subset hv, hpointer⟩

theorem mem_pointersIn (h : pointer? node = some pointer) : pointer ∈ pointersIn node :=
  List.mem_filterMap.mpr ⟨node, node.mem_nodes_self, h⟩

/-- A chain leads to nodes of the document. -/
theorem Chain.mem_nodes (h : Chain document node pointers last) : last = node ∨ last ∈ document.nodes := by
  induction h with
  | here node => exact .inl rfl
  | next _ htarget _ ih =>
    rcases ih with rfl | hlast
    · exact .inr (mem_nodes_of_resolvePointer htarget)
    · exact .inr hlast

/-- All pointers of a chain but the first are in the document. -/
theorem Chain.subset (h : Chain document node pointers last) :
    pointers ⊆ (pointer? node).toList ++ pointersIn document := by
  induction h with
  | here node => exact List.nil_subset _
  | @next node target last pointer pointers hpointer htarget _ ih =>
    rw [hpointer]
    -- the pointers behind the first begin at its target, which is a node of the document
    refine List.cons_subset_cons pointer
      (List.Subset.trans ih (List.append_subset.mpr ⟨?_, List.Subset.refl _⟩))
    intro p hp
    exact List.mem_filterMap.mpr ⟨target, mem_nodes_of_resolvePointer htarget, Option.mem_toList.mp hp⟩

/-- **A chain that repeats no pointer** has at most one more than the document has nodes. -/
theorem Chain.length_le (h : Chain document node pointers last) (hnodup : pointers.Nodup) :
    pointers.length ≤ document.size + 1 := by
  have hlength := hnodup.length_le_of_subset h.subset
  have hnode : (pointer? node).toList.length ≤ 1 := by
    cases pointer? node <;> simp
  have := length_pointersIn_le document
  rw [List.length_append] at hlength
  omega

/-- Two chains of a node go the same way as far as both go. -/
theorem Chain.comparable {other : Value} {others : List String} (h : Chain document node pointers last)
    (h' : Chain document node others other) :
    (∃ more, others = pointers ++ more ∧ Chain document last more other)
      ∨ ∃ more, pointers = others ++ more ∧ Chain document other more last := by
  induction h generalizing others with
  | here node => exact .inl ⟨others, rfl, h'⟩
  | @next node target last pointer pointers hpointer htarget rest ih =>
    cases h' with
    | here _ => exact .inr ⟨pointer :: pointers, rfl, .next hpointer htarget rest⟩
    | next hpointer' htarget' rest' =>
      cases hpointer.symm.trans hpointer'
      cases htarget.symm.trans htarget'
      rcases ih rest' with ⟨more, rfl, hmore⟩ | ⟨more, rfl, hmore⟩
      · exact .inl ⟨more, rfl, hmore⟩
      · exact .inr ⟨more, rfl, hmore⟩

theorem Chain.resolves (h : Chain document node pointers last) (hpointer : pointer ∈ pointers) :
    ¬ Astray document pointer := by
  rw [← resolvePointer_eq_none_iff]
  induction h with
  | here node => cases hpointer
  | next _ htarget _ ih =>
    rcases List.mem_cons.mp hpointer with rfl | hpointer
    · rw [htarget]
      nofun
    · exact ih hpointer

/-- A chain that comes to an end without a repetition does not come back. -/
theorem Chain.not_returns (h : Chain document node pointers last) (hnodup : pointers.Nodup)
    (hends : Ends document last) : ¬ Returns document node := by
  rintro ⟨others, other, pointer, h', hpointer, hmem⟩
  rcases h.comparable h' with ⟨more, rfl, hmore⟩ | ⟨more, rfl, hmore⟩
  · -- the other chain ends there too, at a pointer that leads nowhere
    cases hmore with
    | here _ => exact h'.resolves hmem (hends pointer hpointer)
    | next hnext htarget _ =>
      have := resolvePointer_eq_none_iff.mpr (hends _ hnext)
      cases this.symm.trans htarget
  · -- the pointer comes twice in the first chain, or leads nowhere
    cases hmore with
    | here _ => exact h'.resolves hmem (hends pointer hpointer)
    | next hnext _ _ =>
      cases hpointer.symm.trans hnext
      exact (List.nodup_append.mp hnodup).2.2 pointer hmem pointer List.mem_cons_self rfl

/-! ## The loop -/

/-- How following the references of a node comes out: at the end of their chain, or with the chain up to
the pointer that comes again. -/
inductive Outcome (document node : Value) : Except Failure Value → Prop where
  | ends {pointers : List String} {last : Value} (chain : Chain document node pointers last)
      (nodup : pointers.Nodup) (hends : Ends document last) : Outcome document node (.ok last)
  | returns {pointers : List String} {last : Value} {pointer : String}
      (chain : Chain document node pointers last) (nodup : pointers.Nodup)
      (hpointer : pointer? last = some pointer) (hmem : pointer ∈ pointers) :
      Outcome document node (.error (.circularReference (pointers ++ [pointer])))

/-- **The loop, from any state it can be in**: the pointers seen are a chain without repetition, so the
steps left are enough. -/
theorem follow_outcome {start : Value} {fuel : Nat} {seen : List String}
    (hchain : Chain document start seen.reverse node) (hnodup : seen.Nodup)
    (hfuel : document.size + 2 ≤ fuel + seen.length) :
    Outcome document start (follow document fuel seen node) := by
  induction fuel generalizing seen node with
  | zero =>
    -- then more pointers have been seen than a chain without repetition can have
    have := hchain.length_le (List.nodup_reverse.mpr hnodup)
    rw [List.length_reverse] at this
    omega
  | succ fuel ih =>
    rw [follow]
    split
    · next hnone =>
      refine .ends hchain (List.nodup_reverse.mpr hnodup) fun pointer hpointer => ?_
      cases hnone.symm.trans hpointer
    · next pointer hpointer =>
      split
      · next hseen =>
        rw [List.reverse_cons]
        exact .returns hchain (List.nodup_reverse.mpr hnodup) hpointer
          (List.mem_reverse.mpr (List.contains_iff_mem.mp hseen))
      · next hnew =>
        split
        · next hnone =>
          refine .ends hchain (List.nodup_reverse.mpr hnodup) fun pointer' hpointer' => ?_
          cases hpointer.symm.trans hpointer'
          exact resolvePointer_eq_none_iff.mp hnone
        · next target htarget =>
          refine ih ?_ (List.nodup_cons.mpr ⟨fun hmem => hnew (List.contains_iff_mem.mpr hmem), hnodup⟩) ?_
          · rw [List.reverse_cons]
            exact hchain.concat hpointer htarget
          · rw [List.length_cons]
            omega

theorem resolve_outcome (document node : Value) : Outcome document node (resolve document node) :=
  follow_outcome (.here node) List.nodup_nil (Nat.le_refl _)

theorem resolve_of_ends (h : Ends document node) : resolve document node = .ok node := by
  unfold resolve follow
  split
  · rfl
  · next pointer hpointer =>
    have hnone := resolvePointer_eq_none_iff.mpr (h pointer hpointer)
    rw [List.contains_nil, hnone]
    rfl

/-- **Resolving ends the chain of a node.** Its pointers are followed, none twice and no more than the
document has nodes and one. It fails exactly if the chain comes back to a pointer, and says the chain
up to there; else it gives the end of the chain, which is no reference or one whose pointer leads
nowhere, and which resolves to itself. -/
theorem resolve_ends_chain (document node : Value) :
    (∃ pointers last, Chain document node pointers last ∧ pointers.Nodup
        ∧ pointers.length ≤ document.size + 1
        ∧ (resolve document node = .ok last ∧ Ends document last
          ∨ ∃ pointer ∈ pointers, pointer? last = some pointer
            ∧ resolve document node = .error (.circularReference (pointers ++ [pointer]))))
      ∧ ((∃ failure, resolve document node = .error failure) ↔ Returns document node)
      ∧ ∀ last, resolve document node = .ok last →
          Ends document last ∧ resolve document last = .ok last := by
  have houtcome := resolve_outcome document node
  generalize resolve document node = result at houtcome ⊢
  cases houtcome with
  | @ends pointers last chain nodup hends =>
    refine ⟨⟨pointers, last, chain, nodup, chain.length_le nodup, .inl ⟨rfl, hends⟩⟩,
      iff_of_false nofun (chain.not_returns nodup hends), fun found hfound => ?_⟩
    cases hfound
    exact ⟨hends, resolve_of_ends hends⟩
  | @returns pointers last pointer chain nodup hpointer hmem =>
    exact ⟨⟨pointers, last, chain, nodup, chain.length_le nodup, .inr ⟨pointer, hmem, hpointer, rfl⟩⟩,
      iff_of_true ⟨_, rfl⟩ ⟨pointers, last, pointer, chain, hpointer, hmem⟩, nofun⟩

/-- Two references that lead to each other have no end. -/
example :
    resolve (record [("a", record [("$ref", .str "#/b")]), ("b", record [("$ref", .str "#/a")])])
        (record [("$ref", .str "#/a")])
      = .error (.circularReference ["#/a", "#/b", "#/a"]) := by rfl

end ApiContract.Reference
