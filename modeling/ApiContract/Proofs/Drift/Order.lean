import ApiContract.Proofs.Drift.Sync
import ApiContract.Proofs.Named

/-!
# The order of the imported specs

An imported spec takes the first entry it matches that is still free, so whoever comes first may
take what another would have taken. That is the only way in which the order counts.

* **`firstMatch_of_taken`** — an entry that is taken is missed only by those whose first match it is.
* **`pairs_of_firstMatchesDiffer`** — the run: without two equal first matches everyone gets its own.
* **`matchedPairs_keys_nodup`** — an existing spec stands in one pair at most.
* **`pairing_ignores_order`** — the headline: the pairs are those of every other order if no two
  first matches are equal and, where the ids are distinct, only then.
-/

namespace ApiContract.Drift

open Contract

/-! ## First matches -/

/-- The entry that an imported spec takes if all are free. -/
def firstMatch (policy : MatchPolicy) (entries : List Entry) (item : Import.Imported) :
    Option Entry :=
  entries.find? fun e => isMatch policy e.1 e.2 item

/-- No two imported specs would take the same entry. -/
def FirstMatchesDiffer (policy : MatchPolicy) (entries : List Entry)
    (imported : List Import.Imported) : Prop :=
  imported.Pairwise fun a b =>
    ∀ e, firstMatch policy entries a = some e → firstMatch policy entries b ≠ some e

theorem FirstMatchesDiffer.perm {policy : MatchPolicy} {entries : List Entry}
    {imported imported' : List Import.Imported} (h : FirstMatchesDiffer policy entries imported)
    (hperm : imported.Perm imported') : FirstMatchesDiffer policy entries imported' := by
  refine (hperm.pairwise_iff ?_).mp h
  intro a b hab e hb ha
  exact hab e ha hb

/-- One step gives the first match. -/
theorem takeMatch_fst (policy : MatchPolicy) (item : Import.Imported) (free : List Entry) :
    (takeMatch policy item free).1 = (firstMatch policy free item).map (·.2) := by
  induction free with
  | nil => rfl
  | cons e rest ih =>
    obtain ⟨key, spec⟩ := e
    unfold firstMatch
    rw [takeMatch, List.find?_cons]
    dsimp only
    cases isMatch policy key spec item with
    | true => rfl
    | false => exact ih

theorem of_firstMatch_eq_some {policy : MatchPolicy} {entries : List Entry} {item : Import.Imported}
    {e : Entry} (h : firstMatch policy entries item = some e) :
    e ∈ entries ∧ isMatch policy e.1 e.2 item = true := by
  unfold firstMatch at h
  exact ⟨List.mem_of_find?_eq_some h, by simpa using List.find?_some h⟩

/-- Without an entry, the first match of those who would not have taken it is the same. -/
theorem firstMatch_of_taken {policy : MatchPolicy} {item : Import.Imported} {e : Entry}
    {before after : List Entry} (h : firstMatch policy (before ++ e :: after) item ≠ some e) :
    firstMatch policy (before ++ after) item = firstMatch policy (before ++ e :: after) item := by
  unfold firstMatch at h ⊢
  rw [List.find?_append] at h ⊢
  rw [List.find?_append]
  cases hbefore : before.find? fun e => isMatch policy e.1 e.2 item with
  | some e' => rfl
  | none =>
    rw [hbefore, List.find?_cons] at h
    rw [List.find?_cons]
    cases hmatch : isMatch policy e.1 e.2 item with
    | true =>
      rw [hmatch] at h
      exact absurd rfl h
    | false => rfl

/-- **Everyone gets the first match** if no two want the same. Induction on the imported specs: what
the first one takes is nobody else's first match, so the first matches of the others stay. -/
theorem pairs_of_firstMatchesDiffer {policy : MatchPolicy} {existing : List Entry}
    {imported : List Import.Imported} (h : FirstMatchesDiffer policy existing imported) :
    (pairUp policy existing imported).pairs
      = imported.map fun item => (item, (firstMatch policy existing item).map (·.2)) := by
  induction imported generalizing existing with
  | nil => rfl
  | cons item rest ih =>
    obtain ⟨hitem, hrest⟩ := List.pairwise_cons.mp h
    -- the entries that are left give the others the same first matches
    have hsame : ∀ b ∈ rest, firstMatch policy (takeMatch policy item existing).2 b
        = firstMatch policy existing b := by
      intro b hb
      cases hfound : takeMatch policy item existing with
      | mk found left =>
        cases found with
        | none => rw [(takeMatch_eq_none hfound).1]
        | some spec =>
          obtain ⟨before, key, after, rfl, rfl, hmatch, hbefore⟩ := takeMatch_eq_some hfound
          refine firstMatch_of_taken (hitem b hb (key, spec) ?_)
          unfold firstMatch
          rw [List.find?_append, List.find?_eq_none.mpr (by simpa using hbefore), List.find?_cons,
            hmatch]
          rfl
    have hleft : FirstMatchesDiffer policy (takeMatch policy item existing).2 rest := by
      refine List.Pairwise.imp_of_mem ?_ hrest
      intro a b ha hb hab e
      rw [hsame a ha, hsame b hb]
      exact hab e
    rw [pairUp, List.map_cons, ← takeMatch_fst]
    show _ :: (pairUp policy (takeMatch policy item existing).2 rest).pairs = _
    rw [ih hleft]
    congr 1
    apply List.map_congr_left
    intro b hb
    rw [hsame b hb]

/-- In the diffs, too, every imported spec stands beside its first match. -/
theorem existing_of_firstMatchesDiffer {options : Options} {existing : Named OperationSpec}
    {imported : List Import.Imported} (h : FirstMatchesDiffer options.policy existing imported)
    {d : SpecDiff} (hd : d ∈ diffAll options existing imported) {item : Import.Imported}
    (hitem : item ∈ d.sides.incoming?) :
    d.sides.existing? = (firstMatch options.policy existing item).map (·.2) := by
  unfold diffAll at hd
  dsimp only at hd
  rcases List.mem_append.mp hd with hd | hd
  · obtain ⟨p, hp, rfl⟩ := List.mem_map.mp hd
    rw [pairs_of_firstMatchesDiffer h] at hp
    obtain ⟨item', -, rfl⟩ := List.mem_map.mp hp
    cases hfirst : firstMatch options.policy existing item' with
    | none =>
      rw [hfirst] at hitem
      cases hitem
      rw [hfirst]
      rfl
    | some e =>
      rw [hfirst] at hitem
      cases hitem
      rw [hfirst]
      rfl
  · -- what is left over has no imported side
    obtain ⟨e, -, rfl⟩ := List.mem_map.mp hd
    cases hitem

/-- What the first of the imported specs takes. -/
theorem head_pairs (policy : MatchPolicy) (existing : List Entry) (item : Import.Imported)
    (rest : List Import.Imported) :
    (item, (firstMatch policy existing item).map (·.2))
      ∈ (pairUp policy existing (item :: rest)).pairs := by
  rw [pairUp, ← takeMatch_fst]
  exact List.mem_cons_self

/-! ## Matched pairs -/

/-- The key of the existing spec and the id of the imported one. -/
def Sides.pair? : Sides → Option (String × String)
  | .both existing incoming => some (existing.key, incoming.source.id)
  | .new _ | .gone _ => none

/-- The pairs that a run matches. -/
def matchedPairs (options : Options) (existing : Named OperationSpec)
    (imported : List Import.Imported) : List (String × String) :=
  (diffAll options existing imported).filterMap (·.sides.pair?)

/-- The pairs are read off the pairing. -/
theorem matchedPairs_eq (options : Options) (existing : Named OperationSpec)
    (imported : List Import.Imported) :
    matchedPairs options existing imported
      = (pairUp options.policy existing imported).pairs.filterMap
          fun p => p.2.map fun spec => (spec.key, p.1.source.id) := by
  unfold matchedPairs diffAll
  dsimp only
  rw [List.filterMap_append, List.filterMap_map, List.filterMap_map]
  have hgone : List.filterMap ((fun d : SpecDiff => d.sides.pair?)
        ∘ fun (e : Entry) => SpecDiff.ofSides options e.1 (.gone e.2))
      (pairUp options.policy existing imported).unmatched = [] :=
    List.filterMap_eq_nil_iff.mpr fun _ _ => rfl
  refine (congrArg _ hgone).trans ((List.append_nil _).trans ?_)
  apply List.filterMap_congr
  rintro ⟨item, found⟩ -
  cases found with
  | none => rfl
  | some spec => rfl

theorem matchedPairs_of_firstMatchesDiffer {options : Options} {existing : Named OperationSpec}
    {imported : List Import.Imported} (h : FirstMatchesDiffer options.policy existing imported) :
    matchedPairs options existing imported
      = imported.filterMap fun item =>
          (firstMatch options.policy existing item).map fun e => (e.2.key, item.source.id) := by
  rw [matchedPairs_eq, pairs_of_firstMatchesDiffer h, List.filterMap_map]
  apply List.filterMap_congr
  intro item _
  exact Option.map_map _ _ _

/-- Existing specs, each under its key. -/
structure StoredByKey (existing : Named OperationSpec) : Prop where
  nodup : (existing.map (·.1)).Nodup
  key_eq : ∀ e ∈ existing, e.1 = e.2.key

theorem StoredByKey.keys_nodup {existing : Named OperationSpec} (h : StoredByKey existing) :
    (existing.map (·.2.key)).Nodup := by
  have hkeys : existing.map (·.2.key) = existing.map (·.1) :=
    List.map_congr_left fun e he => (h.key_eq e he).symm
  rw [hkeys]
  exact h.nodup

/-- The existing sides of the diffs of a run are the existing specs. -/
theorem perm_existing_diffAll (options : Options) (existing : Named OperationSpec)
    (imported : List Import.Imported) :
    ((diffAll options existing imported).filterMap (·.sides.existing?)).Perm
      (existing.map (·.2)) := by
  obtain ⟨a, ha, hrun⟩ := exists_assignment options.policy existing imported
  rw [diffAll_eq_of_pairing hrun, filterMap_existing_diffs options imported a ha.length_taken]
  exact ha.perm.map _

/-- **An existing spec stands in one pair at most.** The first terms of the pairs are keys of the
existing sides. -/
theorem matchedPairs_keys_nodup (options : Options) {existing : Named OperationSpec}
    (hstored : StoredByKey existing) (imported : List Import.Imported) :
    ((matchedPairs options existing imported).map (·.1)).Nodup := by
  have hsides : ((diffAll options existing imported).filterMap
      fun d => d.sides.existing?.map (·.key)).Nodup := by
    have hperm := (perm_existing_diffAll options existing imported).map OperationSpec.key
    rw [List.map_filterMap, List.map_map] at hperm
    exact hperm.nodup_iff.mpr hstored.keys_nodup
  refine List.Nodup.sublist ?_ hsides
  unfold matchedPairs
  rw [List.map_filterMap]
  -- a diff in a pair has the first term of the pair as key of its existing side
  induction diffAll options existing imported with
  | nil => exact .refl _
  | cons d rest ih =>
    obtain ⟨id, sides, changes, resolution⟩ := d
    cases sides with
    | new incoming => exact ih
    | both spec incoming => exact ih.cons_cons spec.key
    | gone spec => exact ih.cons spec.key

/-! ## Orders -/

/-- Every order of the imported specs gives the same pairs. -/
def OrderFree (options : Options) (existing : Named OperationSpec)
    (imported : List Import.Imported) : Prop :=
  ∀ imported', imported'.Perm imported →
    ∀ p, p ∈ matchedPairs options existing imported' ↔ p ∈ matchedPairs options existing imported

theorem orderFree_of_firstMatchesDiffer {options : Options} {existing : Named OperationSpec}
    {imported : List Import.Imported} (h : FirstMatchesDiffer options.policy existing imported) :
    OrderFree options existing imported := by
  intro imported' hperm p
  rw [matchedPairs_of_firstMatchesDiffer h,
    matchedPairs_of_firstMatchesDiffer (h.perm hperm.symm)]
  exact (hperm.filterMap _).mem_iff

/-- The first of the imported specs is in a pair with its first match. -/
theorem mem_matchedPairs_of_head {options : Options} {existing : Named OperationSpec}
    {item : Import.Imported} {e : Entry} (h : firstMatch options.policy existing item = some e)
    (rest : List Import.Imported) :
    (e.2.key, item.source.id) ∈ matchedPairs options existing (item :: rest) := by
  rw [matchedPairs_eq]
  refine List.mem_filterMap.mpr ⟨_, head_pairs options.policy existing item rest, ?_⟩
  rw [h]
  rfl

/-- Of two imported specs with one first match, the one that is put first gets it. -/
theorem firstMatchesDiffer_of_orderFree {options : Options} {existing : Named OperationSpec}
    (hstored : StoredByKey existing) {imported : List Import.Imported}
    (hids : (imported.map (·.source.id)).Nodup) (h : OrderFree options existing imported) :
    FirstMatchesDiffer options.policy existing imported := by
  unfold FirstMatchesDiffer
  rw [List.pairwise_iff_forall_sublist]
  intro a b hab e ha hb
  obtain ⟨rest, hperm⟩ := hab.exists_perm_append
  have hfirst : (e.2.key, a.source.id) ∈ matchedPairs options existing imported :=
    (h (a :: b :: rest) hperm.symm _).mp (mem_matchedPairs_of_head ha _)
  have hsecond : (e.2.key, b.source.id) ∈ matchedPairs options existing imported :=
    (h (b :: a :: rest) ((List.Perm.swap a b rest).trans hperm.symm) _).mp
      (mem_matchedPairs_of_head hb _)
  have hpair := List.inj_on_of_nodup_map (matchedPairs_keys_nodup options hstored imported)
    hfirst hsecond rfl
  have hne : a.source.id ≠ b.source.id := by
    simpa using (hab.map (·.source.id)).nodup hids
  exact hne (Prod.mk.inj hpair).2

/-- Specs of distinct names are paired by name if no id is a key. -/
theorem firstMatchesDiffer_of_names {existing : Named OperationSpec}
    (hstored : StoredByKey existing) {imported : List Import.Imported}
    (hlive : ∀ item ∈ imported, item.spec.isSome)
    (hnames : (imported.filterMap fun item => item.spec.map (·.header.name)).Nodup)
    (hids : ∀ item ∈ imported, ∀ e ∈ existing, e.1 ≠ item.source.id) :
    FirstMatchesDiffer .exact existing imported := by
  -- the first match has the name of the imported spec
  have hname : ∀ item ∈ imported, ∀ e, firstMatch .exact existing item = some e →
      item.spec.map (·.header.name) = some e.2.header.name := by
    intro item hitem e he
    obtain ⟨hmem, hmatch⟩ := of_firstMatch_eq_some he
    obtain ⟨spec, hspec⟩ := Option.isSome_iff_exists.mp (hlive item hitem)
    have hkey := hids item hitem e hmem
    have hspecKey : e.2.key ≠ item.source.id := by
      rw [← hstored.key_eq e hmem]
      exact hkey
    simpa [isMatch, hkey, hspecKey, hspec] using hmatch
  unfold FirstMatchesDiffer
  rw [List.nodup_iff_pairwise_ne, List.pairwise_filterMap] at hnames
  refine List.Pairwise.imp_of_mem ?_ hnames
  intro a b ha hb hab e hfirst hsecond
  exact hab _ (hname a ha e hfirst) _ (hname b hb e hsecond) rfl

/-- **The order of the imported specs does not count** if no two of them have the same first match:
then everyone is paired with its first match. Where the ids are distinct, it does not count only
then. Under the exact policy, specs of distinct names whose ids are no keys are of this kind. -/
theorem pairing_ignores_order (options : Options) {existing : Named OperationSpec}
    (hstored : StoredByKey existing) (imported : List Import.Imported) :
    (FirstMatchesDiffer options.policy existing imported →
      OrderFree options existing imported
      ∧ ∀ d ∈ diffAll options existing imported, ∀ item ∈ d.sides.incoming?,
          d.sides.existing? = (firstMatch options.policy existing item).map (·.2))
    ∧ ((imported.map (·.source.id)).Nodup → OrderFree options existing imported →
        FirstMatchesDiffer options.policy existing imported)
    ∧ (options.policy = .exact → (∀ item ∈ imported, item.spec.isSome) →
        (imported.filterMap fun item => item.spec.map (·.header.name)).Nodup →
        (∀ item ∈ imported, ∀ e ∈ existing, e.1 ≠ item.source.id) →
        FirstMatchesDiffer options.policy existing imported) := by
  refine ⟨fun h => ⟨orderFree_of_firstMatchesDiffer h, fun d hd item hitem =>
      existing_of_firstMatchesDiffer h hd hitem⟩,
    fun hids h => firstMatchesDiffer_of_orderFree hstored hids h, ?_⟩
  intro hpolicy hlive hnames hids
  rw [hpolicy]
  exact firstMatchesDiffer_of_names hstored hlive hnames hids

/-! ## Versions of one name -/

/-- A query without models. -/
def plainQuery (name : String) (version : Int) : OperationSpec where
  header :=
    { name, version, stability := .stable, owners := [], tags := [], description := none,
      kind := .query, goal := none, context := none }
  input := none
  output := none
  auth := .user
  transport := none

/-- The query as an operation of a document gives it. -/
def plainImport (id name : String) (version : Int) : Import.Imported where
  code := ""
  fileName := Naming.fileName name
  spec := some (plainQuery name version)
  hints := ⟨"GET", "/", [], [], [], []⟩
  source := ⟨id, none, none, none⟩

/-- Two versions of one query. -/
def petVersions : Named OperationSpec :=
  [("pets.get.v1", plainQuery "pets.get" 1), ("pets.get.v2", plainQuery "pets.get" 2)]

theorem storedByKey_petVersions : StoredByKey petVersions := ⟨by decide +kernel, by decide +kernel⟩

theorem pairing_of_two_names :
    StoredByKey petVersions
      ∧ OrderFree {} petVersions
          [plainImport "getOwner" "owners.get" 1, plainImport "getPet" "pets.get" 2]
      ∧ matchedPairs {} petVersions
          [plainImport "getOwner" "owners.get" 1, plainImport "getPet" "pets.get" 2]
          = [("pets.get.v1", "getPet")] := by
  obtain ⟨hfree, -, hnames⟩ := pairing_ignores_order {} storedByKey_petVersions
    [plainImport "getOwner" "owners.get" 1, plainImport "getPet" "pets.get" 2]
  exact ⟨storedByKey_petVersions,
    (hfree (hnames rfl (by decide +kernel) (by decide +kernel) (by decide +kernel))).1,
    by decide +kernel⟩

/-- Names are compared without versions, so the import that comes first takes the first version,
also if its own is another one. -/
theorem order_counts_for_versions :
    StoredByKey petVersions
      ∧ ([plainImport "getPetV2" "pets.get" 2, plainImport "getPetV1" "pets.get" 1].map
          fun item => item.spec.map (·.key)) = [some "pets.get.v2", some "pets.get.v1"]
      ∧ matchedPairs {} petVersions
          [plainImport "getPetV2" "pets.get" 2, plainImport "getPetV1" "pets.get" 1]
          = [("pets.get.v1", "getPetV2"), ("pets.get.v2", "getPetV1")]
      ∧ ¬ OrderFree {} petVersions
          [plainImport "getPetV2" "pets.get" 2, plainImport "getPetV1" "pets.get" 1] := by
  have hfirst : matchedPairs {} petVersions
      [plainImport "getPetV2" "pets.get" 2, plainImport "getPetV1" "pets.get" 1]
      = [("pets.get.v1", "getPetV2"), ("pets.get.v2", "getPetV1")] := by decide +kernel
  have hsecond : matchedPairs {} petVersions
      [plainImport "getPetV1" "pets.get" 1, plainImport "getPetV2" "pets.get" 2]
      = [("pets.get.v1", "getPetV1"), ("pets.get.v2", "getPetV2")] := by decide +kernel
  refine ⟨storedByKey_petVersions, by decide +kernel, hfirst, fun hfree => ?_⟩
  have hpair := hfree _ (List.Perm.swap _ _ _) ("pets.get.v1", "getPetV1")
  rw [hfirst, hsecond] at hpair
  exact absurd (hpair.mp List.mem_cons_self) (by decide)

end ApiContract.Drift
