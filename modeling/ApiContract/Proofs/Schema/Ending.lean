import ApiContract.Proofs.Schema.Visits
import ApiContract.Proofs.Schema.Endless
import ApiContract.Proofs.Schema.Making

/-!
# When building comes to an end

References lead on to references, and a cycle of them goes on for ever unless the builder notices. It
does where a component is entered again that it remembers: an object of named properties, under a name
that is not empty. So building always ends exactly if every cycle of references passes such an object.

Then nothing but the schemas decides whether there is a model: the pointers that the builder keeps in
mind never repeat, and its fuel is never used up. What may still be asked for decreases with every step
(`need`): the names that are not remembered yet come first, then the pointers not yet followed since the
last of them, then the node.

* **`Tracked.stands`** — one step: what a node asks for is tracked, and needs less.
* **`acc_of_tracked`** / **`succeeds_fieldWithin_iff`** — from there on, by induction on the need.
* **`ends_iff_cyclesPass`** — building ends exactly if the cycles of references pass the right objects.
* **`modelOf_succeeds_iff_buildable`** — then it succeeds exactly if every node that is met is well-formed.
-/

namespace ApiContract.Schema

open Contract (FieldSpec SchemaModel)
open Reference (pointersIn)
open Relation (ReflTransGen TransGen)

variable {document schema node target : Value} {pointer : String} {pointers : List String} {path : Path}
  {visit : Visit} {c : Context} {e : Expansion} {properties : Members} {fuel : Nat}

/-! ## What is left to be done -/

/-- The pointers that have not been followed since the last name. -/
def unfollowed (pointers : List String) (c : Context) : List String :=
  pointers.filter fun pointer => !c.followed.contains pointer

/-- How many steps are left from a node at most. A name that is expanded frees the pointers that have
been followed. -/
def need (document : Value) (pointers : List String) (c : Context) (node : Value) : Nat :=
  2 * node.size + (unfollowed pointers c).length * (2 * document.size)
    + (untouched (pointers.map Reference.name) c).length * ((pointers.length + 1) * (2 * document.size))

/-- What holds at every visit: the references of its node are known, and every pointer that has been
followed since the last name leads to them around the names. -/
structure Tracked (document : Value) (pointers : List String) (c : Context) (visit : Visit) : Prop where
  fits : c.Fits document visit.path
  known : ∀ p, RefersTo visit.node p → p ∈ pointers
  leads : ∀ q ∈ c.followed, ∀ p, RefersTo visit.node p →
    TransGen (LeadsAround document (Guards document)) q p

theorem Tracked.item (h : Tracked document pointers c ⟨path, node⟩)
    (plain : Reference.pointer? node = none) (array : (typeOf node).1 = some "array") :
    Tracked document pointers c ⟨path, node.field "items"⟩ :=
  ⟨h.fits, fun p hp => h.known p (.item plain array hp),
    fun q hq p hp => h.leads q hq p (.item plain array hp)⟩

theorem Tracked.property (h : Tracked document pointers c ⟨path, node⟩)
    (plain : Reference.pointer? node = none) (object : IsObject node properties)
    {property : Scalar × Value} (member : property ∈ properties) :
    Tracked document pointers c ⟨path, property.2⟩ :=
  ⟨h.fits, fun p hp => h.known p (.property plain object member hp),
    fun q hq p hp => h.leads q hq p (.property plain object member hp)⟩

/-- A model of the node itself changes neither names nor pointers. -/
theorem Tracked.inline (h : Tracked document pointers c ⟨path, node⟩) (hname : e.name? = none) :
    Tracked document pointers (c.inside e.component) ⟨path.enter e, node⟩ := by
  have hinside : c.inside e.component = c := by
    rw [c.inside_eq, hname]
    rfl
  have hfits := h.fits.inside e
  rw [hinside] at hfits ⊢
  exact ⟨hfits, h.known, h.leads⟩

/-- **A pointer is not followed again** before a name is expanded, or it would be in a cycle around the
names. -/
theorem Tracked.not_mem_followed (h : Tracked document pointers c visit)
    (cycles : CyclesPass document (Guards document)) (found : Reference.pointer? visit.node = some pointer) :
    pointer ∉ c.followed :=
  fun hmem => cycles pointer (h.leads pointer hmem pointer (.here found))

/-- A step to the target of a reference that is not remembered. -/
theorem Tracked.follow (h : Tracked document pointers c visit)
    (found : Reference.pointer? visit.node = some pointer) (targets : Targets document pointer target)
    (all : pointersIn document ⊆ pointers) (unguarded : ¬Guards document pointer) :
    Tracked document pointers { c with followed := pointer :: c.followed } ⟨visit.path, target⟩ := by
  refine ⟨h.fits.follow _, fun p hp => ?_, fun q hq p hp => ?_⟩
  · exact all (Reference.pointersIn_subset targets.mem_nodes hp.mem_pointersIn)
  · have hstep : LeadsAround document (Guards document) pointer p := ⟨⟨target, targets, hp⟩, unguarded⟩
    rcases List.mem_cons.mp hq with rfl | hq
    · exact .single hstep
    · exact (h.leads q hq pointer (.here found)).tail hstep

/-- A step into a component with a name. -/
theorem Tracked.enter (h : Tracked document pointers c visit)
    (targets : Targets document pointer target) (all : pointersIn document ⊆ pointers)
    (hname : Reference.name pointer ≠ "") (followed : List String) :
    Tracked document pointers ({ c with followed }.inside (some (Reference.name pointer)))
      ⟨visit.path.enter ⟨target, some (Reference.name pointer)⟩, target⟩ := by
  refine ⟨(h.fits.follow followed).inside ⟨target, some (Reference.name pointer)⟩, fun p hp => ?_, ?_⟩
  · exact all (Reference.pointersIn_subset targets.mem_nodes hp.mem_pointersIn)
  · rw [Context.inside_of_ne _ hname]
    exact fun q hq => absurd hq List.not_mem_nil

/-! ### Every step needs less -/

theorem need_item (document : Value) (pointers : List String) (c : Context)
    (items : node.field "items" ≠ .null) :
    need document pointers c (node.field "items") + 2 ≤ need document pointers c node := by
  have := size_field_lt items
  unfold need
  omega

theorem need_property (document : Value) (pointers : List String) (c : Context)
    (found : properties? node = some properties) {property : Scalar × Value}
    (member : property ∈ properties) :
    need document pointers c property.2 + 4 ≤ need document pointers c node := by
  have := size_property_lt found member
  unfold need
  omega

theorem length_unfollowed_lt (hpointer : pointer ∈ pointers) (hnew : pointer ∉ c.followed) :
    (unfollowed pointers { c with followed := pointer :: c.followed }).length + 1
      ≤ (unfollowed pointers c).length := by
  have hfilter : unfollowed pointers { c with followed := pointer :: c.followed }
      = (unfollowed pointers c).filter (· != pointer) := by
    unfold unfollowed
    rw [List.filter_filter]
    refine List.filter_congr fun other _ => ?_
    simp only [List.contains_cons, Bool.not_or, bne]
  rw [hfilter]
  refine Nat.succ_le_of_lt (List.length_filter_lt_length_iff_exists.mpr ⟨pointer, ?_, by simp⟩)
  exact List.mem_filter.mpr ⟨hpointer, by simpa using hnew⟩

theorem need_follow (node : Value) (hpointer : pointer ∈ pointers) (hnew : pointer ∉ c.followed)
    (hsize : target.size ≤ document.size) :
    need document pointers { c with followed := pointer :: c.followed } target + 2
      ≤ need document pointers c node := by
  -- one pointer less is left, which pays for any node of the document
  have hlength := Nat.mul_le_mul_right (2 * document.size) (length_unfollowed_lt hpointer hnew)
  rw [Nat.add_mul, Nat.one_mul] at hlength
  have huntouched : untouched (pointers.map Reference.name) { c with followed := pointer :: c.followed }
      = untouched (pointers.map Reference.name) c := rfl
  have := node.size_pos
  unfold need
  rw [huntouched]
  omega

theorem need_enter (node : Value) (hpointer : pointer ∈ pointers) (hnew : Reference.name pointer ∉ c.expanding)
    (hsize : target.size ≤ document.size) :
    need document pointers (c.expand (Reference.name pointer)) target + 2
      ≤ need document pointers c node := by
  -- one name less is left, which pays for any node and for all pointers, as none is followed any more
  have hlength := Nat.mul_le_mul_right ((pointers.length + 1) * (2 * document.size))
    (length_untouched_expand (List.mem_map_of_mem hpointer) hnew)
  have hfollowed : (unfollowed pointers (c.expand (Reference.name pointer))).length * (2 * document.size)
      ≤ pointers.length * (2 * document.size) :=
    Nat.mul_le_mul_right _ (List.length_filter_le _ _)
  rw [Nat.add_mul, Nat.one_mul, Nat.add_mul pointers.length, Nat.one_mul] at hlength
  have := node.size_pos
  unfold need
  rw [Nat.add_mul pointers.length, Nat.one_mul]
  omega

/-- What the builder goes on with, at the node that the field of a visit is built of. -/
structure Onward (document : Value) (pointers : List String) (c c' : Context) (visit : Visit)
    (e : Expansion) : Prop where
  built : ∀ fuel property required parent, fieldWithin (fuel + 1) c visit.node property required parent
    = nodeField fuel c' e.schema e.component property required parent
  list : (typeOf e.schema).1 = some "array" → Tracked document pointers c' ⟨visit.path, e.schema⟩
    ∧ need document pointers c' e.schema ≤ need document pointers c visit.node
  object : ∀ properties, IsObject e.schema properties →
    Tracked document pointers (c'.inside e.component) ⟨visit.path.enter e, e.schema⟩
      ∧ need document pointers (c'.inside e.component) e.schema ≤ need document pointers c visit.node

/-- **One step**: from a visit that is tracked the builder goes on, and what it goes on with is tracked
and needs no more. -/
theorem Tracked.stands (h : Tracked document pointers c visit)
    (cycles : CyclesPass document (Guards document)) (all : pointersIn document ⊆ pointers)
    (stands : Stands document visit e) : ∃ c', Onward document pointers c c' visit e := by
  cases stands with
  | self plain =>
    refine ⟨c, fun fuel property required parent => ?_, fun _ => ⟨h, Nat.le_refl _⟩, fun _ _ => ?_⟩
    · rw [fieldWithin, plain]
    · exact ⟨h.inline rfl, Nat.le_refl _⟩
  | @component pointer target found targets fresh =>
    have hpointer := h.known pointer (.here found)
    have hnew := h.not_mem_followed cycles found
    have hsize := Value.size_le_of_mem_nodes targets.mem_nodes
    have hfollow := need_follow visit.node hpointer hnew hsize
    refine ⟨{ c with followed := pointer :: c.followed }, fun fuel property required parent => ?_,
      fun array => ?_, fun properties object => ?_⟩
    · rw [fieldWithin_pointer h.fits found targets, if_neg fresh, if_neg hnew]
    · -- a list is not remembered, so its pointer must not come again
      have unguarded : ¬Guards document pointer := by
        rintro ⟨⟨target', properties, targets', object⟩, -⟩
        cases targets.unique targets'
        exact object.single array
      exact ⟨h.follow found targets all unguarded, Nat.le_of_add_right_le hfollow⟩
    · by_cases hname : Reference.name pointer = ""
      · -- nor is an object without a name
        have unguarded : ¬Guards document pointer := fun hguards => hguards.2 hname
        have hinside : ({ c with followed := pointer :: c.followed } : Context).inside
            (some (Reference.name pointer)) = { c with followed := pointer :: c.followed } := by
          rw [hname, Context.inside_empty]
        refine ⟨(h.follow found targets all unguarded).inline ?_, ?_⟩
        · show (some (Reference.name pointer)).filter _ = none
          rw [hname]
          rfl
        · show need document pointers (Context.inside _ (some (Reference.name pointer))) target ≤ _
          rw [hinside]
          exact Nat.le_of_add_right_le hfollow
      · -- one with a name is, and from there on the pointers may come again
        refine ⟨h.enter targets all hname _, ?_⟩
        show need document pointers (Context.inside _ (some (Reference.name pointer))) target ≤ _
        rw [Context.inside_of_ne _ hname]
        rw [← h.fits.expanding] at fresh
        exact Nat.le_of_add_right_le (need_enter visit.node hpointer fresh hsize)

/-- **A visit that is tracked comes to an end**, by induction on what it needs. -/
theorem acc_of_tracked (cycles : CyclesPass document (Guards document))
    (all : pointersIn document ⊆ pointers) (h : Tracked document pointers c visit) :
    Acc (fun next visit => Asks document visit next) visit := by
  generalize hneed : need document pointers c visit.node = n
  induction n using Nat.strongRecOn generalizing c visit with
  | ind n ih =>
    refine ⟨visit, fun next asks => ?_⟩
    cases asks with
    | @item e stands array items =>
      obtain ⟨c', onward⟩ := h.stands cycles all stands
      obtain ⟨htracked, hle⟩ := onward.list array
      have hlt : need document pointers c' (e.schema.field "items") < n := by
        have := need_item document pointers c' items
        omega
      refine ih _ ?_ (htracked.item stands.plain array) rfl
      exact hlt
    | @property e properties property stands object member =>
      obtain ⟨c', onward⟩ := h.stands cycles all stands
      obtain ⟨htracked, hle⟩ := onward.object _ object
      have hlt : need document pointers (c'.inside e.component) property.2 < n := by
        have := need_property document pointers (c'.inside e.component) object.found member
        omega
      refine ih _ ?_ (htracked.property stands.plain object member) rfl
      exact hlt

/-! ## Well-formed nodes -/

/-- The part of a node is read where a field is built of it. A list reads none of its own. -/
inductive Wants (node : Value) : Part → Prop where
  | enumeration (single : (typeOf node).1 ≠ some "array") : Wants node .enumeration
  | description (single : (typeOf node).1 ≠ some "array") : Wants node .description
  | required {properties : Members} (object : IsObject node properties) : Wants node .required

/-- A visit whose reference does not come back to a pointer, and whose node can be read. -/
structure WellFormed (document : Value) (visit : Visit) : Prop where
  resolves : Succeeds (Reference.resolve document visit.node)
  readable : ∀ e, Stands document visit e → ∀ part, Wants e.schema part →
    part.isReadable e.schema = true

/-- A visit from which only well-formed ones are met. -/
def Clean (document : Value) (visit : Visit) : Prop :=
  ∀ met, ReflTransGen (Asks document) visit met → WellFormed document met

/-- A schema whose model can be read: its root, and every node that is met. -/
structure Buildable (document schema : Value) : Prop where
  resolves : Succeeds (Reference.resolve document schema)
  description : ∀ e, Root document schema e → Part.description.isReadable e.schema = true
  required : ∀ e properties, Root document schema e → properties? e.schema = some properties →
    Part.required.isReadable e.schema = true
  visits : ∀ visit, Met document schema visit → WellFormed document visit

theorem clean_iff : Clean document visit
    ↔ WellFormed document visit ∧ ∀ asked, Asks document visit asked → Clean document asked := by
  constructor
  · exact fun h => ⟨h visit .refl, fun asked asks met hreach => h met (.head asks hreach)⟩
  · rintro ⟨hvisit, hasked⟩ met hreach
    rcases hreach.cases_head with rfl | ⟨asked, asks, hreach⟩
    · exact hvisit
    · exact hasked asked asks met hreach

theorem Stands.resolves (stands : Stands document visit e) :
    Succeeds (Reference.resolve document visit.node) := by
  cases stands with
  | self plain => exact ⟨_, resolve_of_plain plain⟩
  | component found targets _ => exact ⟨_, targets.resolve found⟩

/-- A reference that is kept asks for nothing. -/
theorem clean_iff_of_kept (stays : ∀ e, ¬Stands document visit e) :
    Clean document visit ↔ Succeeds (Reference.resolve document visit.node) := by
  rw [clean_iff]
  constructor
  · exact fun h => h.1.resolves
  · refine fun resolves => ⟨⟨resolves, fun e stands => absurd stands (stays e)⟩, fun asked asks => ?_⟩
    cases asks with
    | item stands _ _ => exact absurd stands (stays _)
    | property stands _ _ => exact absurd stands (stays _)

theorem clean_iff_of_array (stands : Stands document visit e)
    (array : (typeOf e.schema).1 = some "array") :
    Clean document visit
      ↔ (e.schema.field "items" ≠ .null → Clean document ⟨visit.path, e.schema.field "items"⟩) := by
  rw [clean_iff]
  constructor
  · exact fun h items => h.2 _ (.item stands array items)
  · refine fun h => ⟨⟨stands.resolves, fun e' stands' part wants => ?_⟩, fun asked asks => ?_⟩
    · cases stands.unique stands'
      cases wants with
      | enumeration single => exact absurd array single
      | description single => exact absurd array single
      | required object => exact absurd array object.single
    · cases asks with
      | item stands' _ items =>
        cases stands.unique stands'
        exact h items
      | property stands' object _ =>
        cases stands.unique stands'
        exact absurd array object.single

theorem clean_iff_of_single (stands : Stands document visit e)
    (single : (typeOf e.schema).1 ≠ some "array") :
    Clean document visit ↔ Part.enumeration.isReadable e.schema = true
      ∧ Part.description.isReadable e.schema = true
      ∧ ∀ properties, IsObject e.schema properties → Part.required.isReadable e.schema = true
        ∧ ∀ p ∈ properties, Clean document ⟨visit.path.enter e, p.2⟩ := by
  rw [clean_iff]
  constructor
  · rintro ⟨hvisit, hasked⟩
    have hreadable := hvisit.readable e stands
    exact ⟨hreadable _ (.enumeration single), hreadable _ (.description single),
      fun properties object => ⟨hreadable _ (.required object),
        fun p hp => hasked _ (.property stands object hp)⟩⟩
  · rintro ⟨henum, hdescription, hobject⟩
    refine ⟨⟨stands.resolves, fun e' stands' part wants => ?_⟩, fun asked asks => ?_⟩
    · cases stands.unique stands'
      cases wants with
      | enumeration _ => exact henum
      | description _ => exact hdescription
      | required object => exact (hobject _ object).1
    · cases asks with
      | item stands' array _ =>
        cases stands.unique stands'
        exact absurd array single
      | property stands' object member =>
        cases stands.unique stands'
        exact (hobject _ object).2 _ member

/-- A reference that is kept, or leads nowhere, gives a field exactly if its chain comes to an end. -/
theorem succeeds_fieldWithin_of_kept (fits : c.Fits document path)
    (stays : ∀ e, ¬Stands document ⟨path, node⟩ e) (property parent : String) (required : Bool) :
    Succeeds (fieldWithin (fuel + 1) c node property required parent) ↔ Clean document ⟨path, node⟩ := by
  rw [clean_iff_of_kept stays]
  cases found : Reference.pointer? node with
  | none => exact absurd (.self found) (stays _)
  | some pointer =>
    cases hresolve : Reference.resolve document node with
    | error cause =>
      rw [fieldWithin_circular fits found hresolve]
      exact iff_of_false (not_succeeds_error _) (not_succeeds_error _)
    | ok target =>
      refine iff_of_true ?_ (succeeds_ok target)
      cases hreference : Reference.pointer? target with
      | some other =>
        rw [fieldWithin_dangling fits found hresolve (isReference_eq_true_iff.mpr ⟨_, hreference⟩)]
        exact succeeds_ok _
      | none =>
        have targets : Targets document pointer target := ⟨found, hresolve, hreference⟩
        have hexpanding : Reference.name pointer ∈ path.expanding :=
          by_contra fun fresh => stays _ (.component found targets fresh)
        rw [fieldWithin_pointer fits found targets, if_pos hexpanding]
        exact succeeds_ok _

/-- **Enough fuel for what is needed**: a visit that is tracked gives a field exactly if only
well-formed visits are met from there. By induction on the fuel, two steps down a list and three down an
object. -/
theorem succeeds_fieldWithin_iff (cycles : CyclesPass document (Guards document))
    (all : pointersIn document ⊆ pointers) (h : Tracked document pointers c visit)
    (hfuel : need document pointers c visit.node ≤ fuel) (property parent : String) (required : Bool) :
    Succeeds (fieldWithin fuel c visit.node property required parent) ↔ Clean document visit := by
  induction fuel using Nat.strongRecOn generalizing c visit property parent required with
  | ind fuel ih =>
    have hpos := visit.node.size_pos
    have htwo : 2 ≤ need document pointers c visit.node := by
      unfold need
      omega
    obtain ⟨fuel, rfl⟩ : ∃ k, fuel = k + 2 := ⟨fuel - 2, by omega⟩
    by_cases hstands : ∃ e, Stands document visit e
    · obtain ⟨e, stands⟩ := hstands
      obtain ⟨c', onward⟩ := h.stands cycles all stands
      rw [onward.built]
      by_cases array : (typeOf e.schema).1 = some "array"
      · -- a list asks for its items, on the same path
        obtain ⟨htracked, hle⟩ := onward.list array
        rw [succeeds_nodeField_of_array array, clean_iff_of_array stands array]
        refine imp_congr_right fun items => ?_
        have hlt : need document pointers c' (e.schema.field "items") ≤ fuel := by
          have := need_item document pointers c' items
          omega
        have hitem := ih fuel (by omega) (htracked.item stands.plain array)
        exact hitem hlt _ _ _
      · -- and anything else only for the properties of an object, one model further down
        rw [clean_iff_of_single stands array]
        refine (succeeds_nodeField_of_single (q := ∀ properties, IsObject e.schema properties →
          Part.required.isReadable e.schema = true ∧ (∀ p ∈ properties,
            Clean document ⟨visit.path.enter e, p.2⟩) ∧ Part.description.isReadable e.schema = true)
          array fun unlisted hsome name => ?_).trans ?_
        · obtain ⟨properties, found⟩ := Option.isSome_iff_exists.mp hsome
          have object : IsObject e.schema properties := ⟨array, unlisted, found⟩
          obtain ⟨htracked, hle⟩ := onward.object properties object
          have hfour : 4 ≤ need document pointers (c'.inside e.component) e.schema := by
            have := one_lt_size found
            unfold need
            omega
          obtain ⟨fuel, rfl⟩ : ∃ k, fuel = k + 1 := ⟨fuel - 1, by omega⟩
          rw [succeeds_modelWithin_of_properties
            (q := fun p => Clean document ⟨visit.path.enter e, p.2⟩) found fun p hp required => ?_]
          · exact ⟨fun hall properties' object' => object.unique object' ▸ hall,
              fun hall => hall properties object⟩
          · have hlt : need document pointers (c'.inside e.component) p.2 ≤ fuel := by
              have := need_property document pointers (c'.inside e.component) found hp
              omega
            have hproperty := ih fuel (by omega) (htracked.property stands.plain object hp)
            exact hproperty hlt _ _ _
        · refine and_congr_right fun _ => and_congr_right fun hdescription => ?_
          constructor
          · intro hall properties object
            obtain ⟨hrequired, hclean, -⟩ := hall object.unlisted (by rw [object.found]; rfl) properties
              object
            exact ⟨hrequired, hclean⟩
          · intro hall _ _ properties object
            obtain ⟨hrequired, hclean⟩ := hall properties object
            exact ⟨hrequired, hclean, hdescription⟩
    · exact succeeds_fieldWithin_of_kept h.fits (not_exists.mp hstands) _ _ _

/-! ## The whole model -/

/-- The root of a schema stands in the schema or in the document. -/
theorem Root.mem_nodes (root : Root document schema e) :
    e.schema ∈ schema.nodes ∨ e.schema ∈ document.nodes := by
  cases root with
  | self _ => exact .inl schema.mem_nodes_self
  | component _ targets => exact .inr targets.mem_nodes
  | @dangling target resolved _ =>
    have houtcome := Reference.resolve_outcome document schema
    rw [resolved] at houtcome
    cases houtcome with
    | ends chain _ _ =>
      rcases chain.mem_nodes with heq | hmem
      · exact .inl (heq ▸ schema.mem_nodes_self)
      · exact .inr hmem

/-- Building begins in a tracked way. -/
theorem tracked_of_root (root : Root document schema e)
    (hknown : ∀ p, RefersTo node p → p ∈ pointersIn e.schema) :
    Tracked document (pointersIn schema ++ pointersIn document) (outset document e.component)
      ⟨{ root := e }, node⟩ := by
  refine ⟨outset_fits document e, fun p hp => List.mem_append.mpr ?_, fun q hq => absurd hq ?_⟩
  · exact root.mem_nodes.imp (fun hmem => Reference.pointersIn_subset hmem (hknown p hp))
      (fun hmem => Reference.pointersIn_subset hmem (hknown p hp))
  · unfold outset
    cases e.component <;> exact List.not_mem_nil

/-- **The bound on the steps is enough** for what is needed in the beginning. -/
theorem need_lt_depthBound (root : Root document schema e) :
    need document (pointersIn schema ++ pointersIn document) c e.schema < depthBound schema document := by
  have hsize : e.schema.size ≤ schema.size + document.size := by
    rcases root.mem_nodes with hmem | hmem
    · exact Nat.le_add_right_of_le (Value.size_le_of_mem_nodes hmem)
    · exact Nat.le_add_left_of_le (Value.size_le_of_mem_nodes hmem)
  have hpointers : 2 * (pointersIn schema ++ pointersIn document).length ≤ schema.size + document.size := by
    have hschema := Reference.two_mul_length_pointersIn_le schema
    have hdocument := Reference.two_mul_length_pointersIn_le document
    rw [List.length_append]
    omega
  have hdocument : document.size ≤ schema.size + document.size := Nat.le_add_left _ _
  unfold need depthBound
  have hunfollowed : (unfollowed (pointersIn schema ++ pointersIn document) c).length
      ≤ (pointersIn schema ++ pointersIn document).length := List.length_filter_le _ _
  have huntouched : (untouched ((pointersIn schema ++ pointersIn document).map Reference.name) c).length
      ≤ (pointersIn schema ++ pointersIn document).length :=
    (List.length_filter_le _ _).trans (Nat.le_of_eq (List.length_map _))
  -- the rest is about numbers: lengths of at most half the size, and sizes
  generalize (pointersIn schema ++ pointersIn document).length = l at *
  generalize (unfollowed _ c).length = u at *
  generalize (untouched _ c).length = t at *
  generalize schema.size + document.size = n at *
  generalize document.size = d at *
  generalize e.schema.size = s at *
  have hu : u * (2 * d) ≤ n * n := by
    calc u * (2 * d) ≤ l * (2 * n) := Nat.mul_le_mul hunfollowed (by omega)
      _ = 2 * l * n := by ring
      _ ≤ n * n := Nat.mul_le_mul_right n hpointers
  have ht : t * ((l + 1) * (2 * d)) ≤ n * n * (n + 1) := by
    calc t * ((l + 1) * (2 * d)) ≤ l * ((n + 1) * (2 * n)) :=
          Nat.mul_le_mul huntouched (Nat.mul_le_mul (by omega) (by omega))
      _ = 2 * l * (n * (n + 1)) := by ring
      _ ≤ n * (n * (n + 1)) := Nat.mul_le_mul_right _ hpointers
      _ = n * n * (n + 1) := by ring
  show _ < (n + 2) ^ 3
  have hcube : (n + 2) ^ 3 = n * n * (n + 1) + n * n + 2 * n + (4 * (n * n) + 10 * n + 8) := by ring
  omega

/-- **Building always ends** where the cycles of references pass the right objects. -/
theorem ends_of_cyclesPass (cycles : CyclesPass document (Guards document)) (schema : Value) :
    Ends document schema := by
  intro start begins
  have all : pointersIn document ⊆ pointersIn schema ++ pointersIn document :=
    List.subset_append_right _ _
  cases begins with
  | @property e properties property root found member =>
    refine acc_of_tracked cycles all (tracked_of_root root fun p hp => ?_)
    exact Reference.pointersIn_subset (mem_nodes_of_property found member) hp.mem_pointersIn
  | whole root _ _ =>
    exact acc_of_tracked cycles all (tracked_of_root root fun p hp => hp.mem_pointersIn)

/-- What is met from the visits that building begins with. -/
theorem forall_met_iff : (∀ visit, Met document schema visit → WellFormed document visit)
    ↔ ∀ start, Begins document schema start → Clean document start :=
  ⟨fun h start begins visit hreach => h visit ⟨start, begins, hreach⟩,
    fun h visit ⟨start, begins, hreach⟩ => h start begins visit hreach⟩

/-- The model of a root, by what it begins with. -/
theorem succeeds_modelWithin_iff (cycles : CyclesPass document (Guards document))
    (root : Root document schema e) (name : String) :
    Succeeds (modelWithin (depthBound schema document) (outset document e.component) e.schema name)
      ↔ Part.description.isReadable e.schema = true
        ∧ (∀ properties, properties? e.schema = some properties →
          Part.required.isReadable e.schema = true
            ∧ ∀ p ∈ properties, Clean document ⟨{ root := e }, p.2⟩)
        ∧ (properties? e.schema = none → ¬IsBare e.schema →
          Clean document ⟨{ root := e }, e.schema⟩) := by
  have all : pointersIn document ⊆ pointersIn schema ++ pointersIn document :=
    List.subset_append_right _ _
  have hneed := need_lt_depthBound (c := outset document e.component) root
  obtain ⟨fuel, hfuel⟩ : ∃ k, depthBound schema document = k + 1 :=
    ⟨depthBound schema document - 1, by omega⟩
  rw [hfuel] at hneed ⊢
  cases found : properties? e.schema with
  | some properties =>
    rw [succeeds_modelWithin_of_properties (q := fun p => Clean document ⟨{ root := e }, p.2⟩)
      found fun p hp required => ?_]
    · constructor
      · rintro ⟨hrequired, hclean, hdescription⟩
        refine ⟨hdescription, fun properties' found' => ?_, nofun⟩
        cases found'
        exact ⟨hrequired, hclean⟩
      · rintro ⟨hdescription, hall, -⟩
        obtain ⟨hrequired, hclean⟩ := hall properties rfl
        exact ⟨hrequired, hclean, hdescription⟩
    · have hlt : need document (pointersIn schema ++ pointersIn document) (outset document e.component) p.2
          ≤ fuel := by
        have := need_property document (pointersIn schema ++ pointersIn document)
          (outset document e.component) found hp
        omega
      have htracked := tracked_of_root root fun q (hq : RefersTo p.2 q) =>
        Reference.pointersIn_subset (mem_nodes_of_property found hp) hq.mem_pointersIn
      exact succeeds_fieldWithin_iff cycles all htracked hlt _ _ _
  | none =>
    rw [succeeds_modelWithin_of_absent (q := Clean document ⟨{ root := e }, e.schema⟩) found
      fun other property required => ?_]
    · constructor
      · rintro ⟨hclean, hdescription⟩
        exact ⟨hdescription, nofun, fun _ => hclean⟩
      · rintro ⟨hdescription, -, hclean⟩
        exact ⟨hclean rfl, hdescription⟩
    · have htracked := tracked_of_root root fun p hp => hp.mem_pointersIn
      exact succeeds_fieldWithin_iff cycles all htracked (Nat.le_of_lt_succ hneed) _ _ _

/-- **Then there is a model** exactly if every node that is met is well-formed: neither the pointers that
the builder keeps in mind nor its fuel decide. -/
theorem modelOf_succeeds_iff_buildable (cycles : CyclesPass document (Guards document)) (schema : Value)
    (name : String) : Succeeds (modelOf schema name document) ↔ Buildable document schema := by
  constructor
  · rintro ⟨m, hm⟩
    cases hresolve : Reference.resolve document schema with
    | error cause => cases (modelOf_of_circular hresolve name).symm.trans hm
    | ok target =>
      have hroot (e : Expansion) (root : Root document schema e) := by
        have hmodel : Succeeds (modelOf schema name document) := ⟨m, hm⟩
        rw [modelOf_of_root root] at hmodel
        exact (succeeds_modelWithin_iff cycles root _).mp hmodel
      refine ⟨⟨target, hresolve⟩, fun e root => (hroot e root).1,
        fun e properties root found => ((hroot e root).2.1 properties found).1,
        forall_met_iff.mpr fun start begins => ?_⟩
      cases begins with
      | property root found member => exact ((hroot _ root).2.1 _ found).2 _ member
      | whole root absent other => exact (hroot _ root).2.2 absent other
  · intro h
    obtain ⟨target, hresolve⟩ := h.resolves
    obtain ⟨e, root⟩ := exists_root_of_resolve hresolve
    have hclean := forall_met_iff.mp h.visits
    rw [modelOf_of_root root, succeeds_modelWithin_iff cycles root]
    exact ⟨h.description e root,
      fun properties found => ⟨h.required e properties root found,
        fun p hp => hclean _ (.property root found hp)⟩,
      fun absent other => hclean _ (.whole root absent other)⟩

/-- **Building always ends exactly if every cycle of references passes the right objects.** A cycle that
does not is entered from a property. -/
theorem ends_iff_cyclesPass :
    (∀ schema, Ends document schema) ↔ CyclesPass document (Guards document) := by
  refine ⟨fun hends pointer hcycle => ?_, ends_of_cyclesPass⟩
  obtain ⟨next, ⟨⟨target, ⟨found, -, -⟩, -⟩, -⟩, -⟩ := TransGen.head'_iff.mp hcycle
  have root : Root document (record [("properties", record [("entry", ‹Value›)])])
      ⟨record [("properties", record [("entry", ‹Value›)])], none⟩ := .self rfl
  exact not_acc_of_cycle hcycle found rfl (hends _ _ (.property root rfl List.mem_cons_self))

/-- Building that gives a model has come to an end. -/
theorem ends_of_modelOf {name : String} {m : SchemaModel} (h : modelOf schema name document = .ok m) :
    Ends document schema := by
  intro start begins
  obtain ⟨f, fuel, hf⟩ := exists_gives_of_begins h begins
  exact hf.acc

/-- **The builder on recursive schemas.** Building a model of any schema comes to an end exactly if every
cycle of the document's references passes an object of named properties whose name is not empty. Then
there is a model exactly if every node that is met is well-formed; and whatever the cycles, where there is
a model building has come to an end. Every chain of nested models is made along a path on which no
component is remembered twice, and every field is of one type. -/
theorem modelOf_on_recursive_schemas (document : Value) :
    ((∀ schema, Ends document schema) ↔ CyclesPass document (Guards document))
      ∧ ∀ schema name,
        (CyclesPass document (Guards document) →
          (Succeeds (modelOf schema name document) ↔ Buildable document schema))
        ∧ ∀ m, modelOf schema name document = .ok m → Ends document schema
          ∧ ∀ models, ChainOf m models →
            (∃ path, Expanded document schema path ∧ MadeAlong document models path
              ∧ path.expanding.Nodup)
            ∧ ∀ outer ∈ models, ∀ f ∈ outer.fields, OneType f.2 := by
  refine ⟨ends_iff_cyclesPass, fun schema name =>
    ⟨fun cycles => modelOf_succeeds_iff_buildable cycles schema name, fun m h =>
      ⟨ends_of_modelOf h, fun models chain => ⟨?_, oneType_of_chain h chain⟩⟩⟩⟩
  obtain ⟨path, expanded, along⟩ := exists_path_of_chain h chain
  exact ⟨path, expanded, along, expanded.nodup⟩

/-- An object with one property. -/
def having (property : String) (v : Value) : Value :=
  record [("type", .str "object"), ("properties", record [(property, v)])]

theorem isObject_having (property : String) (v : Value) :
    IsObject (having property v) [(.str property, v)] :=
  ⟨by show some "object" ≠ some "array"; decide, rfl, rfl⟩

/-- A component that refers to itself. -/
def selfReference : Value :=
  record [("components", record [("schemas", record [
    ("Node", having "next" (Contract.componentReference "Node"))])])]

theorem recursive_schemas_of_selfReference :
    CyclesPass selfReference (Guards selfReference)
      ∧ Ends selfReference (Contract.componentReference "Node")
      ∧ Buildable selfReference (Contract.componentReference "Node") := by
  have cycles : CyclesPass selfReference (Guards selfReference) :=
    cyclesPass_guards (by decide) (cyclesPass_toObject (by decide))
  obtain ⟨hends, hmodel⟩ := modelOf_on_recursive_schemas selfReference
  obtain ⟨hbuildable, -⟩ := hmodel (Contract.componentReference "Node") "Node"
  exact ⟨cycles, hends.mpr cycles _, (hbuildable cycles).mp ⟨_, rfl⟩⟩

/-- A component without a name that refers to itself. -/
def namelessSelfReference : Value :=
  record [("components", record [("schemas", record [
    ("", having "a" (Contract.componentReference ""))])])]

/-- Two components that refer to each other, one of them without a name. -/
def namelessPair : Value :=
  record [("components", record [("schemas", record [
    ("", having "a" (Contract.componentReference "A")),
    ("A", having "b" (Contract.componentReference ""))])])]

/-- The component without a name is not remembered, though every cycle passes an object of named
properties: where it refers to itself building goes on for ever, and inside another component it is
entered again. -/
theorem entered_again_of_nameless :
    let schema := having "x" (Contract.componentReference "")
    let innermost : SchemaModel := ⟨"AB", none, [("a", { ref := some "A", isOptional := true })]⟩
    let middle : SchemaModel := ⟨"A", none, [("b", { model := some innermost, isOptional := true })]⟩
    let outer : SchemaModel := ⟨"RootX", none, [("a", { model := some middle, isOptional := true })]⟩
    let whole : SchemaModel := ⟨"Root", none, [("x", { model := some outer, isOptional := true })]⟩
    (CyclesPass namelessSelfReference (ToObject namelessSelfReference) ∧ ¬Ends namelessSelfReference schema)
      ∧ CyclesPass namelessPair (ToObject namelessPair)
      ∧ modelOf schema "Root" namelessPair = .ok whole
      ∧ ChainOf whole [innermost, middle, outer, whole]
      ∧ ∃ path, Expanded namelessPair schema path
        ∧ MadeAlong namelessPair [innermost, middle, outer, whole] path
        ∧ path.expansions.filterMap Expansion.component = ["", "A", ""] := by
  intro schema innermost middle outer whole
  have member (key : String) (v : Value) : (Scalar.str key, v) ∈ [(Scalar.str key, v)] :=
    List.mem_cons_self
  have found (name : String) : Reference.pointer? (Contract.componentReference name)
      = some (Contract.componentPath ++ name) := Reference.pointer?_component name
  let start : Path := { root := ⟨schema, none⟩ }
  have begins (document : Value) : Begins document schema ⟨start, Contract.componentReference ""⟩ :=
    .property (.self rfl) rfl (member "x" _)
  refine ⟨⟨cyclesPass_toObject (by decide), fun hends => ?_⟩, cyclesPass_toObject (by decide), rfl, ?_, ?_⟩
  · have around : LeadsAround namelessSelfReference (Guards namelessSelfReference) (Contract.componentPath ++ "")
        (Contract.componentPath ++ "") :=
      ⟨⟨_, ⟨found "", rfl, rfl⟩, .property rfl (isObject_having "a" _) (member "a" _) (.here (found ""))⟩,
        fun guards => guards.2 (by decide)⟩
    exact not_acc_of_cycle (.single around) (found "") rfl (hends _ (begins _))
  · exact .nested (.nested (.nested .whole List.mem_cons_self rfl) List.mem_cons_self rfl)
      List.mem_cons_self rfl
  · let nameless : Expansion := ⟨having "a" (Contract.componentReference "A"), some ""⟩
    let named : Expansion := ⟨having "b" (Contract.componentReference ""), some "A"⟩
    have fits := outset_fits namelessPair ⟨schema, none⟩
    have first : Stands namelessPair ⟨start, Contract.componentReference ""⟩ nameless :=
      .component (found "") ⟨found "", rfl, rfl⟩ (by decide)
    have second : Stands namelessPair ⟨start.enter nameless, Contract.componentReference "A"⟩ named :=
      .component (found "A") ⟨found "A", rfl, rfl⟩ (by decide)
    have third : Stands namelessPair
        ⟨(start.enter nameless).enter named, Contract.componentReference ""⟩ nameless :=
      .component (found "") ⟨found "", rfl, rfl⟩ (by decide)
    have met : Met namelessPair schema
        ⟨(start.enter nameless).enter named, Contract.componentReference ""⟩ :=
      ⟨_, begins _, .tail (.single (.property first (isObject_having "a" _) (member "a" _)))
        (.property second (isObject_having "b" _) (member "b" _))⟩
    refine ⟨((start.enter nameless).enter named).enter nameless,
      .inside met third (isObject_having "a" _),
      .nested (.nested (.nested (.root ?_) ?_ ?_) ?_ ?_) ?_ ?_, rfl⟩
    · exact ⟨12, _, "Root", fits, rfl⟩
    · exact nofun
    · exact ⟨12, _, "RootX", fits.inside nameless, rfl⟩
    · rintro name ⟨⟩
      rfl
    · exact ⟨12, _, "A", (fits.inside nameless).inside named, rfl⟩
    · exact nofun
    · exact ⟨12, _, "AB", ((fits.inside nameless).inside named).inside nameless, rfl⟩

end ApiContract.Schema
