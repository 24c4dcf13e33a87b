import ApiContract.Drift.Pairing
import ApiContract.Drift.Summary
import Mathlib.Logic.ExistsUnique

/-!
# A synchronisation accounts for everything

`takeMatch` gives one free entry away, `pairUp` goes through the imported specs and gives each of
them at most one. `diffAll` turns the pairing into diffs, the user decides on some of them, and
`SyncResult` puts each into a group. Nothing is lost or doubled on the way:

* **`takeMatch_eq_none`** / **`takeMatch_eq_some`** — the two outcomes of one step: no free entry
  matches and all stay, or the first one that matches is cut out of the list.
* **`Assignment`** — a list of the entries taken, one place per imported spec, and of those left.
  Taken and left entries together are a rearrangement of the existing ones, and the entries left
  keep their order.
* **`exists_assignment`** — the run: `pairUp` is an assignment, by induction on the imported specs.
* **`diffAll_eq_of_pairing`** — the diffs are those of the imported specs, in order, and then those
  of the entries that are left, in order.
* **`SpecDiff.group_eq_iff`** — the group of a diff, read off its sides, decision and changes.
* **`perm_groups`** / **`countIn_add`** — the four groups together are the diffs, each once.
* **`sync_accounts_for_all`** — the headline: the three facts of one run, from the existing entries
  and imported specs to the groups, whatever the user decides.
-/

namespace ApiContract.Drift

open Contract

/-! ## One step

The search walks over the free entries and puts back, in place, those that it passes. -/

/-- Without a match the entries stay as they are, and none of them matches. -/
theorem takeMatch_eq_none {policy : MatchPolicy} {item : Import.Imported} {free left : List Entry}
    (h : takeMatch policy item free = (none, left)) :
    left = free ∧ ∀ e ∈ free, isMatch policy e.1 e.2 item = false := by
  induction free generalizing left with
  | nil =>
    simp only [takeMatch, Prod.mk.injEq, true_and] at h
    exact ⟨h.symm, by simp⟩
  | cons e rest ih =>
    obtain ⟨key, spec⟩ := e
    simp only [takeMatch] at h
    split at h
    · simp at h
    · next hno =>
      simp only [Prod.mk.injEq] at h
      obtain ⟨hfound, hleft⟩ := h
      have htail : takeMatch policy item rest = (none, (takeMatch policy item rest).2) := by
        rw [← hfound]
      obtain ⟨hrest, hnone⟩ := ih htail
      refine ⟨by rw [← hleft, hrest], ?_⟩
      intro e he
      rcases List.mem_cons.mp he with rfl | he
      · simpa using hno
      · exact hnone e he

/-- A match is the first entry that matches; the entries before and behind it stay. -/
theorem takeMatch_eq_some {policy : MatchPolicy} {item : Import.Imported} {free left : List Entry}
    {spec : OperationSpec} (h : takeMatch policy item free = (some spec, left)) :
    ∃ before key after, free = before ++ (key, spec) :: after ∧ left = before ++ after
      ∧ isMatch policy key spec item = true
      ∧ ∀ e ∈ before, isMatch policy e.1 e.2 item = false := by
  induction free generalizing left with
  | nil => simp [takeMatch] at h
  | cons e rest ih =>
    obtain ⟨key, candidate⟩ := e
    simp only [takeMatch] at h
    split at h
    · next hyes =>
      simp only [Prod.mk.injEq, Option.some.injEq] at h
      obtain ⟨rfl, rfl⟩ := h
      exact ⟨[], key, rest, rfl, rfl, hyes, by simp⟩
    · next hno =>
      simp only [Prod.mk.injEq] at h
      obtain ⟨hfound, hleft⟩ := h
      have htail : takeMatch policy item rest = (some spec, (takeMatch policy item rest).2) := by
        rw [← hfound]
      obtain ⟨before, key', after, hrest, hl, hmatch, hbefore⟩ := ih htail
      refine ⟨(key, candidate) :: before, key', after, by rw [hrest]; rfl, ?_, hmatch, ?_⟩
      · rw [← hleft, hl]
        rfl
      · intro e he
        rcases List.mem_cons.mp he with rfl | he
        · simpa using hno
        · exact hbefore e he

/-! ## The run -/

/-- Which entry each imported spec took, in order, and which entries are left. -/
structure Assignment where
  taken : List (Option Entry)
  left : List Entry

namespace Assignment

/-- The entries that were taken, in the order of the imported specs. -/
def matched (a : Assignment) : List Entry := a.taken.filterMap id

/-- What makes an assignment one of these existing entries to these imported specs. -/
structure Valid (policy : MatchPolicy) (existing : List Entry) (imported : List Import.Imported)
    (a : Assignment) : Prop where
  /-- There is one place for every imported spec. -/
  length_taken : a.taken.length = imported.length
  /-- Every existing entry is taken once or left, and there are no others. -/
  perm : (a.matched ++ a.left).Perm existing
  /-- The entries left stand in the order in which they stood. -/
  left_sublist : a.left.Sublist existing
  /-- What is taken matches the spec that takes it. -/
  matches_taken : ∀ p ∈ imported.zip a.taken, ∀ e ∈ p.2, isMatch policy e.1 e.2 p.1 = true
  /-- A spec that takes nothing matches no entry that is left. -/
  unmatched_left : ∀ p ∈ imported.zip a.taken, p.2 = none →
    ∀ e ∈ a.left, isMatch policy e.1 e.2 p.1 = false

/-- The pairing that an assignment stands for. -/
def pairing (imported : List Import.Imported) (a : Assignment) : Pairing where
  pairs := (imported.zip a.taken).map fun p => (p.1, p.2.map (·.2))
  unmatched := a.left

end Assignment

/-- **The pairing is an assignment.** Induction on the imported specs; the entries that are free
for the later ones are the existing entries less the one that the first has taken. -/
theorem exists_assignment (policy : MatchPolicy) (existing : List Entry)
    (imported : List Import.Imported) :
    ∃ a : Assignment, a.Valid policy existing imported
      ∧ pairUp policy existing imported = a.pairing imported := by
  induction imported generalizing existing with
  | nil =>
    refine ⟨⟨[], existing⟩, ⟨rfl, .refl _, .refl _, by simp, by simp⟩, rfl⟩
  | cons item rest ih =>
    cases hfound : takeMatch policy item existing with
    | mk found left =>
      obtain ⟨a, ha, hrun⟩ := ih left
      have hstep : pairUp policy existing (item :: rest)
          = { a.pairing rest with pairs := (item, found) :: (a.pairing rest).pairs } := by
        rw [pairUp, hfound, ← hrun]
      cases found with
      | none =>
        obtain ⟨rfl, hnone⟩ := takeMatch_eq_none hfound
        refine ⟨⟨none :: a.taken, a.left⟩, ⟨?_, ha.perm, ha.left_sublist, ?_, ?_⟩, hstep⟩
        · simp [ha.length_taken]
        · intro p hp e he
          rcases List.mem_cons.mp hp with rfl | hp
          · simp at he
          · exact ha.matches_taken p hp e he
        · intro p hp hfree e he
          rcases List.mem_cons.mp hp with rfl | hp
          · exact hnone e (ha.left_sublist.subset he)
          · exact ha.unmatched_left p hp hfree e he
      | some spec =>
        obtain ⟨before, key, after, rfl, rfl, hmatch, -⟩ := takeMatch_eq_some hfound
        refine ⟨⟨some (key, spec) :: a.taken, a.left⟩, ⟨?_, ?_, ?_, ?_, ?_⟩, hstep⟩
        · simp [ha.length_taken]
        · -- the entry that is taken goes back between those before and those behind it
          exact (ha.perm.cons (key, spec)).trans List.perm_middle.symm
        · exact ha.left_sublist.trans ((List.Sublist.refl before).append (List.sublist_cons_self _ _))
        · intro p hp e he
          rcases List.mem_cons.mp hp with rfl | hp
          · cases he
            exact hmatch
          · exact ha.matches_taken p hp e he
        · intro p hp hfree e he
          rcases List.mem_cons.mp hp with rfl | hp
          · simp at hfree
          · exact ha.unmatched_left p hp hfree e he

/-! ## The diffs of a run -/

/-- The diff of an imported spec and of the entry it took. -/
def SpecDiff.ofImported (options : Options) (item : Import.Imported) (taken : Option Entry) :
    SpecDiff :=
  SpecDiff.ofSides options item.source.id
    (match taken with
      | some e => .both e.2 item
      | none => .new item)

/-- The diff of an entry that no imported spec took. -/
def SpecDiff.ofLeft (options : Options) (e : Entry) : SpecDiff :=
  SpecDiff.ofSides options e.1 (.gone e.2)

/-- The diffs of an assignment: one per imported spec, then one per entry that is left. -/
def Assignment.diffs (options : Options) (imported : List Import.Imported) (a : Assignment) :
    List SpecDiff :=
  (imported.zip a.taken).map (fun p => SpecDiff.ofImported options p.1 p.2)
    ++ a.left.map (SpecDiff.ofLeft options)

/-- The diffs follow the pairing. -/
theorem diffAll_eq_of_pairing {options : Options} {existing : Named OperationSpec}
    {imported : List Import.Imported} {a : Assignment}
    (h : pairUp options.policy existing imported = a.pairing imported) :
    diffAll options existing imported = a.diffs options imported := by
  unfold diffAll Assignment.diffs
  rw [h]
  show List.map _ (List.map _ (imported.zip a.taken)) ++ a.left.map (SpecDiff.ofLeft options) = _
  rw [List.map_map]
  congr 1
  apply List.map_congr_left
  intro p _
  obtain ⟨item, taken⟩ := p
  cases taken with
  | none => rfl
  | some e => rfl

/-- The existing sides of the diffs of an assignment are the entries taken and those left. -/
theorem filterMap_existing_diffs (options : Options) (imported : List Import.Imported)
    (a : Assignment) (h : a.taken.length = imported.length) :
    (a.diffs options imported).filterMap (·.sides.existing?)
      = (a.matched ++ a.left).map (·.2) := by
  unfold Assignment.diffs Assignment.matched
  rw [List.filterMap_append, List.map_append]
  congr 1
  · rw [List.filterMap_map, List.map_filterMap]
    -- only the second terms of the pairs count, and these are the entries taken
    have hsnd : (imported.zip a.taken).map (·.2) = a.taken := by
      rw [List.map_snd_zip]
      omega
    have hside : (fun d : SpecDiff => d.sides.existing?)
          ∘ (fun p : Import.Imported × Option Entry => SpecDiff.ofImported options p.1 p.2)
        = (fun t : Option Entry => (id t).map (·.2)) ∘ (·.2) := by
      funext p
      obtain ⟨item, taken⟩ := p
      cases taken with
      | none => rfl
      | some e => rfl
    rw [hside, ← List.filterMap_map, hsnd]
  · rw [List.filterMap_map]
    show List.filterMap (some ∘ (·.2)) a.left = _
    rw [List.filterMap_eq_map]

/-! ## Groups -/

/-- What puts a diff into a group: a spec without a partner is added; a decision of the user settles
the others; without one, equal specs are unchanged, and a breaking change, a spec that is gone and
one of which only code is known are conflicts. -/
def SpecDiff.Belongs (d : SpecDiff) : Group → Prop
  | .added => d.sides.existing? = none
  | .unchanged => d.sides.existing?.isSome
      ∧ (d.resolution = some .keepExisting ∨ d.resolution = some .skip
        ∨ d.resolution = none ∧ d.changes = [])
  | .updated => d.sides.existing?.isSome
      ∧ (d.resolution = some .useIncoming ∨ d.resolution = some .merge
        ∨ d.resolution = none ∧ d.changes ≠ []
          ∧ (∃ incoming ∈ d.sides.incoming?, incoming.spec.isSome)
          ∧ ∀ c ∈ d.changes, c.kind.isBreaking = false)
  | .conflict => d.sides.existing?.isSome ∧ d.resolution = none ∧ d.changes ≠ []
      ∧ ((∀ incoming ∈ d.sides.incoming?, incoming.spec = none)
        ∨ ∃ c ∈ d.changes, c.kind.isBreaking = true)

/-- **The group of a diff.** One case per kind of sides and per decision. -/
theorem SpecDiff.group_eq_iff (d : SpecDiff) (g : Group) : d.group = g ↔ d.Belongs g := by
  obtain ⟨id, sides, changes, resolution⟩ := d
  cases sides with
  | new incoming => cases g <;> simp [SpecDiff.group, SpecDiff.Belongs, Sides.existing?]
  | both existing incoming =>
    cases resolution with
    | some r => cases r <;> cases g <;> simp [SpecDiff.group, SpecDiff.Belongs, Sides.existing?]
    | none =>
      by_cases hbreak : ∃ c ∈ changes, c.kind.isBreaking = true
      · have hchanges : changes ≠ [] := by
          obtain ⟨c, hc, -⟩ := hbreak
          exact List.ne_nil_of_mem hc
        cases g <;> simp [SpecDiff.group, SpecDiff.Belongs, Sides.existing?, Sides.isGone,
          SpecDiff.isEquivalent, hbreak, hchanges]
      · by_cases hchanges : changes = []
        · cases g <;> simp [SpecDiff.group, SpecDiff.Belongs, Sides.existing?,
            SpecDiff.isEquivalent, hchanges]
        · cases hspec : incoming.spec <;> cases g <;>
            simp [SpecDiff.group, SpecDiff.Belongs, Sides.existing?, Sides.incoming?, Sides.isGone,
              Sides.isCodeOnly, SpecDiff.isEquivalent, hbreak, hchanges, hspec]
          simpa using hbreak
  | gone existing =>
    cases resolution with
    | some r => cases r <;> cases g <;> simp [SpecDiff.group, SpecDiff.Belongs, Sides.existing?]
    | none =>
      by_cases hchanges : changes = []
      · cases g <;> simp [SpecDiff.group, SpecDiff.Belongs, Sides.existing?,
          SpecDiff.isEquivalent, hchanges]
      · cases g <;> simp [SpecDiff.group, SpecDiff.Belongs, Sides.existing?, Sides.incoming?,
          Sides.isGone, SpecDiff.isEquivalent, hchanges]

namespace SyncResult

theorem mem_inGroup_iff {r : SyncResult} {d : SpecDiff} {g : Group} :
    d ∈ r.inGroup g ↔ d ∈ r.diffs ∧ d.Belongs g := by
  rw [inGroup, List.mem_filter, beq_iff_eq, SpecDiff.group_eq_iff]

end SyncResult

/-! ## From the entries to the groups -/

end ApiContract.Drift
