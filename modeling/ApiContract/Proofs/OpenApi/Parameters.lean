import ApiContract.OpenApi.Extraction
import ApiContract.Proofs.Checked
import ApiContract.Proofs.Named
import ApiContract.Value.Record
import Mathlib

/-!
# What becomes of parameters

The entries that count are all of the operation, and those of the path that the operation does not
override. Each of them has one outcome, a parameter at its location or a warning, and the outcomes
stand in the order of the entries, those of the path first. An entry that is overridden has none.

* **`mergeParameters_eq`** — which entries count.
* **`outcome_of_readParameter`** / **`outcomes_of_readParameters`** — one entry, and all of them.
* **`keys_of_outcomes`** — parameters are told apart by what their entries are told apart by.
* **`parameters_are_accounted_for`** — the headline.
-/

namespace ApiContract.OpenApi

/-! ## The entries that count -/

/-- The operation has an entry with the name and the location of this one. References neither
override nor are overridden. -/
def Overrides (own : List Value) (entry : Value) : Prop :=
  Reference.isReference entry = false
    ∧ ∃ e ∈ own, Reference.isReference e = false ∧ parameterKey e = parameterKey entry

instance (own : List Value) (entry : Value) : Decidable (Overrides own entry) :=
  inferInstanceAs (Decidable (_ ∧ _))

/-- The entries of the path that the operation does not override. -/
def standing (shared own : List Value) : List Value := shared.filter fun e => ¬Overrides own e

/-- **Of the path, only what is overridden is left out**, and nothing of the operation. -/
theorem mergeParameters_eq (shared own : List Value) :
    mergeParameters shared own = standing shared own ++ own := by
  unfold mergeParameters standing
  dsimp only
  congr 1
  refine List.filter_congr fun entry _ => ?_
  rw [Bool.eq_iff_iff, decide_eq_true_iff]
  unfold Overrides
  cases hentry : Reference.isReference entry with
  | true => simp
  | false => simp [and_assoc]

/-- The keys of entries that may override, or be overridden. -/
def ownKeys (entries : List Value) : List (String × String) :=
  (entries.filter (!Reference.isReference ·)).map parameterKey

theorem ownKeys_append (xs ys : List Value) : ownKeys (xs ++ ys) = ownKeys xs ++ ownKeys ys := by
  unfold ownKeys
  rw [List.filter_append, List.map_append]

/-- **No key stands twice among the entries that count**, unless it does on one side. -/
theorem nodup_ownKeys_merged {shared own : List Value} (hshared : (ownKeys shared).Nodup)
    (hown : (ownKeys own).Nodup) : (ownKeys (standing shared own ++ own)).Nodup := by
  have hsub : (ownKeys (standing shared own)).Sublist (ownKeys shared) :=
    (List.filter_sublist.filter _).map _
  rw [ownKeys_append]
  refine List.nodup_append'.mpr ⟨hshared.sublist hsub, hown, fun key houter hinner => ?_⟩
  obtain ⟨entry, hentry, rfl⟩ := List.mem_map.mp houter
  obtain ⟨e, he, hkey⟩ := List.mem_map.mp hinner
  obtain ⟨hstands, hother⟩ := List.mem_filter.mp hentry
  obtain ⟨hmem, hothers⟩ := List.mem_filter.mp he
  -- the entry of the operation with this key would have overridden it
  have hnot : ¬Overrides own entry := by simpa using (List.mem_filter.mp hstands).2
  exact hnot ⟨by simpa using hother, e, hmem, by simpa using hothers, hkey⟩

/-! ## Outcomes -/

/-- What becomes of an entry: a warning, or a parameter of its name at its location. -/
inductive Outcome (method : Method) (path : String) (entry : Value) :
    Warning ⊕ Parameter → Prop where
  | unresolved {pointer : String} (found : Reference.pointer? entry = some pointer) :
      Outcome method path entry (.inl (.parameterUnresolved method path pointer))
  | malformed (other : Reference.isReference entry = false) (leaf : entry.isMap = false) :
      Outcome method path entry (.inl (.parameterMalformed method path))
  | misplaced (other : Reference.isReference entry = false) (mapping : entry.isMap = true)
      (nowhere : ∀ location : Location, entry.field "in" ≠ .str location.name) :
      Outcome method path entry
        (.inl (.parameterMisplaced method path (entry.field "name").text (entry.field "in").text))
  | placed {p : Parameter} (other : Reference.isReference entry = false)
      (mapping : entry.isMap = true) (key : parameterKey entry = (p.name, p.location.name))
      (required : p.required = (p.location == .path || (entry.field "required").isTruthy)) :
      Outcome method path entry (.inr p)

theorem Location.ofName?_eq_some {s : String} {location : Location} :
    ofName? s = some location ↔ s = location.name := by
  constructor
  · intro h
    have hname := List.find?_some h
    exact (beq_iff_eq.mp hname).symm
  · rintro rfl
    cases location <;> rfl

/-- The part of a key is the text of a member that is there. -/
theorem parameterKey_of_field {entry : Value} {s : String} (h : entry.field "in" = .str s) :
    (parameterKey entry).2 = s := by
  unfold Value.field at h
  unfold parameterKey
  dsimp only
  cases hget : entry.get? "in" with
  | none =>
    rw [hget] at h
    cases h
  | some v =>
    rw [hget] at h
    obtain rfl : v = .str s := h
    rfl

variable {document : Value} {method : Method} {path : String}

theorem outcome_of_readParameter {entry : Value} {outcome : Warning ⊕ Parameter}
    (h : readParameter document method path entry = .ok outcome) :
    Outcome method path entry outcome := by
  unfold readParameter at h
  split at h
  · next pointer found =>
    cases h
    exact .unresolved found
  · next hother =>
    have other : Reference.isReference entry = false := by
      unfold Reference.isReference
      rw [hother]
      rfl
    split at h
    · next hleaf =>
      cases h
      exact .malformed other (by simpa using hleaf)
    · next hmapping =>
      have mapping : entry.isMap = true := by simpa using hmapping
      split at h
      · next hnowhere =>
        cases h
        refine .misplaced other mapping fun location hin => ?_
        rw [hin] at hnowhere
        have hname := Location.ofName?_eq_some.mpr (rfl : location.name = location.name)
        exact Option.some_ne_none _ (hname.symm.trans hnowhere)
      · next location hlocation =>
        obtain ⟨schema, -, h⟩ := bind_eq_ok.mp h
        obtain ⟨p, hp, rfl⟩ := map_eq_ok.mp h
        simp only [Checked.toExcept_eq_ok, Checked.seq_eq_ok, Checked.map_eq_ok] at hp
        obtain ⟨_, _, ⟨_, -, rfl⟩, -, rfl⟩ := hp
        obtain ⟨s, hs, hname⟩ := Option.bind_eq_some_iff.mp hlocation
        obtain rfl := Location.ofName?_eq_some.mp hname
        have hin : entry.field "in" = .str location.name := by
          unfold Value.str? at hs
          split at hs
          · next heq =>
            cases hs
            exact heq
          · cases hs
        refine .placed other mapping ?_ rfl
        rw [← parameterKey_of_field hin]

/-- The warnings among some outcomes. -/
def warningsOf (outcomes : List (Warning ⊕ Parameter)) : List Warning :=
  outcomes.filterMap Sum.getLeft?

/-- The parameters among some outcomes. -/
def parametersOf (outcomes : List (Warning ⊕ Parameter)) : List Parameter :=
  outcomes.filterMap Sum.getRight?

theorem warningsOf_append (xs ys : List (Warning ⊕ Parameter)) :
    warningsOf (xs ++ ys) = warningsOf xs ++ warningsOf ys := List.filterMap_append

theorem parametersOf_append (xs ys : List (Warning ⊕ Parameter)) :
    parametersOf (xs ++ ys) = parametersOf xs ++ parametersOf ys := List.filterMap_append

/-- **Every entry has one outcome**, in order. Induction on the entries; one that fails ends the
reading. -/
theorem outcomes_of_readParameters {entries : List Value} {warnings : List Warning}
    {parameters : List Parameter}
    (h : readParameters document method path entries = (warnings, .ok parameters)) :
    ∃ outcomes, List.Forall₂ (Outcome method path) entries outcomes
      ∧ warnings = warningsOf outcomes ∧ parameters = parametersOf outcomes := by
  induction entries generalizing warnings parameters with
  | nil =>
    cases h
    exact ⟨[], .nil, rfl, rfl⟩
  | cons entry rest ih =>
    rw [readParameters] at h
    cases hentry : readParameter document method path entry with
    | error cause =>
      rw [hentry] at h
      cases h
    | ok outcome =>
      rw [hentry] at h
      have houtcome := outcome_of_readParameter hentry
      cases outcome with
      | inl warning =>
        obtain ⟨rfl, hresult⟩ := Prod.mk.inj h
        obtain ⟨outcomes, hall, hwarnings, hparameters⟩ := ih (Prod.ext rfl hresult)
        exact ⟨.inl warning :: outcomes, .cons houtcome hall, congrArg (warning :: ·) hwarnings,
          hparameters⟩
      | inr parameter =>
        obtain ⟨rfl, hresult⟩ := Prod.mk.inj h
        obtain ⟨others, hothers, rfl⟩ := map_eq_ok.mp hresult
        obtain ⟨outcomes, hall, hwarnings, hparameters⟩ := ih (Prod.ext rfl hothers)
        exact ⟨.inr parameter :: outcomes, .cons houtcome hall, hwarnings,
          congrArg (parameter :: ·) hparameters⟩

/-- The outcomes of some entries, and of those behind them. -/
theorem exists_split_outcomes {xs ys : List Value} {outcomes : List (Warning ⊕ Parameter)}
    (h : List.Forall₂ (Outcome method path) (xs ++ ys) outcomes) :
    ∃ outer inner, outcomes = outer ++ inner ∧ List.Forall₂ (Outcome method path) xs outer
      ∧ List.Forall₂ (Outcome method path) ys inner := by
  have houter := List.forall₂_take xs.length h
  have hinner := List.forall₂_drop xs.length h
  rw [List.take_left] at houter
  rw [List.drop_left] at hinner
  exact ⟨_, _, (List.take_append_drop xs.length outcomes).symm, houter, hinner⟩

/-- **Parameters have the keys of their entries**, in order. -/
theorem keys_of_outcomes {entries : List Value} {outcomes : List (Warning ⊕ Parameter)}
    (h : List.Forall₂ (Outcome method path) entries outcomes) :
    ((parametersOf outcomes).map fun p => (p.name, p.location.name)).Sublist (ownKeys entries) := by
  induction h with
  | nil => exact .slnil
  | @cons entry outcome entries outcomes houtcome _ ih =>
    have hkeys : (ownKeys entries).Sublist (ownKeys (entry :: entries)) :=
      ((List.sublist_cons_self entry entries).filter _).map _
    cases houtcome with
    | unresolved => exact ih.trans hkeys
    | malformed => exact ih.trans hkeys
    | misplaced => exact ih.trans hkeys
    | placed other _ key _ =>
      unfold ownKeys
      rw [List.filter_cons_of_pos (by simpa using other), List.map_cons, key]
      exact ih.cons_cons _

/-! ## The lists of an operation -/

/-- The parameters at one location. -/
def placedAt (location : Location) (parameters : List Parameter) : List Parameter :=
  parameters.filter (·.location == location)

/-- The list that an operation keeps the parameters of a location in. -/
def Operation.parametersAt (o : Operation) : Location → List Parameter
  | .path => o.pathParams
  | .query => o.queryParams
  | .header => o.headerParams
  | .cookie => o.cookieParams

/-- Parameters that differ in name or location do so in the lists of the locations. -/
theorem nodup_placed {parameters : List Parameter}
    (h : (parameters.map fun p => (p.name, p.location.name)).Nodup) :
    ((Location.all.flatMap (placedAt · parameters)).map fun p => (p.name, p.location)).Nodup := by
  have hpairs : (parameters.map fun p => (p.name, p.location)).Nodup := by
    refine List.Nodup.of_map (Prod.map id Location.name) ?_
    rw [List.map_map]
    exact h
  rw [List.map_flatMap, List.nodup_flatMap]
  refine ⟨fun location _ => hpairs.sublist (List.filter_sublist.map _), ?_⟩
  have hall : Location.all.Nodup := by decide
  refine hall.imp fun {a b} hne pair ha hb => hne ?_
  obtain ⟨p, hp, rfl⟩ := List.mem_map.mp ha
  obtain ⟨q, hq, heq⟩ := List.mem_map.mp hb
  have hpa : p.location = a := by simpa using (List.mem_filter.mp hp).2
  have hqb : q.location = b := by simpa using (List.mem_filter.mp hq).2
  rw [← hpa, ← hqb]
  exact (Prod.mk.inj heq).2.symm

theorem parametersAt_of_readOperation {slot : Slot} {parameters : List Parameter} {o : Operation}
    (h : readOperation document slot parameters = .ok o) (location : Location) :
    o.parametersAt location = placedAt location parameters := by
  unfold readOperation at h
  obtain ⟨tags, -, h⟩ := bind_eq_ok.mp h
  obtain ⟨body, -, h⟩ := bind_eq_ok.mp h
  obtain ⟨responses, -, h⟩ := bind_eq_ok.mp h
  simp only [Checked.toExcept_eq_ok, Checked.seq_eq_ok, Checked.map_eq_ok] at h
  obtain ⟨_, _, ⟨_, _, ⟨_, _, ⟨_, _, ⟨_, -, rfl⟩, -, rfl⟩, -, rfl⟩, -, rfl⟩, -, rfl⟩ := h
  cases location <;> rfl

/-- The entries of a list of parameters, with references followed. -/
def resolvedEntries (document v : Value) : Except Failure (List Value) := do
  (← entriesOf v).mapM (Reference.resolve document)

/-- What reading the parameters of a slot gives: `shared` are the entries of the path, `own` those
of the operation, `bucket` the parameters by location. -/
structure Accounts (slot : Slot) (shared own : List Value) (warnings : List Warning)
    (bucket : Location → List Parameter) : Prop where
  conserved : ∃ outer inner : List (Warning ⊕ Parameter),
    List.Forall₂ (Outcome slot.method slot.path) (standing shared own) outer
      ∧ List.Forall₂ (Outcome slot.method slot.path) own inner
      ∧ warnings = warningsOf outer ++ warningsOf inner
      ∧ ∀ location, bucket location
          = placedAt location (parametersOf outer) ++ placedAt location (parametersOf inner)
  location : ∀ location, ∀ p ∈ bucket location, p.location = location
  required : ∀ p ∈ bucket .path, p.required = true
  distinct : (ownKeys shared).Nodup → (ownKeys own).Nodup →
    ((Location.all.flatMap bucket).map fun p => (p.name, p.location)).Nodup

/-- Every parameter is the outcome of an entry. -/
theorem outcome_of_mem {entries : List Value} {outcomes : List (Warning ⊕ Parameter)}
    (h : List.Forall₂ (Outcome method path) entries outcomes) {p : Parameter}
    (hp : p ∈ parametersOf outcomes) : ∃ entry ∈ entries, Outcome method path entry (.inr p) := by
  obtain ⟨outcome, houtcome, hright⟩ := List.mem_filterMap.mp hp
  obtain rfl := Sum.getRight?_eq_some_iff.mp hright
  exact exists_of_forall₂ h houtcome

/-- **Merging parameters loses nothing and overrides exactly.** If the entries of a path and of an
operation on it can be read, each one that counts becomes a parameter of one list or one warning, and
the others leave nothing; these lists are those of the operation, should that be read as a whole. No
name stands twice at a location where no two entries of one side that are not references have it. -/
theorem parameters_are_accounted_for {slot : Slot} {shared own : List Value}
    {warnings : List Warning} {parameters : List Parameter}
    (hshared : resolvedEntries document slot.shared = .ok shared)
    (hown : resolvedEntries document (slot.node.field "parameters") = .ok own)
    (h : readParameters document slot.method slot.path (mergeParameters shared own)
      = (warnings, .ok parameters)) :
    Accounts slot shared own warnings (placedAt · parameters)
      ∧ ∀ o, (readSlot document slot).result = .ok o →
          (readSlot document slot).warnings = warnings
            ∧ ∀ location, o.parametersAt location = placedAt location parameters := by
  have hread := h
  rw [mergeParameters_eq] at h
  obtain ⟨outcomes, hall, rfl, rfl⟩ := outcomes_of_readParameters h
  refine ⟨⟨?_, ?_, ?_, ?_⟩, ?_⟩
  · obtain ⟨outer, inner, rfl, houter, hinner⟩ := exists_split_outcomes hall
    refine ⟨outer, inner, houter, hinner, warningsOf_append outer inner, fun location => ?_⟩
    rw [parametersOf_append]
    exact List.filter_append _ _
  · intro location p hp
    simpa using (List.mem_filter.mp hp).2
  · intro p hp
    obtain ⟨hmem, hlocation⟩ := List.mem_filter.mp hp
    obtain ⟨entry, -, houtcome⟩ := outcome_of_mem hall hmem
    cases houtcome with
    | placed _ _ _ required =>
      rw [required, hlocation]
      rfl
  · intro hdistinct hdistinctOwn
    have hkeys := nodup_ownKeys_merged hdistinct hdistinctOwn
    exact nodup_placed (hkeys.sublist (keys_of_outcomes hall))
  · intro o ho
    have hnodes : parameterNodes document slot = .ok (mergeParameters shared own) := by
      obtain ⟨items, hitems, hshared⟩ := bind_eq_ok.mp hshared
      obtain ⟨ownItems, hownItems, hown⟩ := bind_eq_ok.mp hown
      unfold parameterNodes
      rw [hitems, hownItems]
      dsimp only [bind, Except.bind]
      rw [hshared, hown]
      rfl
    unfold readSlot at ho ⊢
    split at ho
    · cases ho
    · next hmap =>
      rw [if_neg hmap, hnodes]
      rw [hnodes] at ho
      dsimp only at ho ⊢
      rw [hread] at ho ⊢
      exact ⟨rfl, parametersAt_of_readOperation ho⟩

/-! ## A shelf with parameters of its own -/

/-- A node of a parameter. -/
def parameterNode (name place : String) (required : Bool) : Value :=
  record [("name", .str name), ("in", .str place), ("required", .bool required)]

/-- A document with a parameter that operations can refer to. -/
def shelfDocument : Value := record [
  ("components", record [("parameters", record [("Limit", parameterNode "limit" "query" false)])])]

/-- An operation that overrides a parameter of its path, and has entries at fault. -/
def shelfSlot : Slot where
  method := .get
  path := "/shelves/\x7bid\x7d"
  node := record [("parameters", .list [parameterNode "limit" "query" true, .str "page",
    parameterNode "page" "body" false])]
  shared := .list [record [("$ref", .str "#/components/parameters/Limit")],
    parameterNode "id" "path" false, record [("$ref", .str "other.yaml#/Trace")]]

/-- The entries of its path. -/
def shelfShared : List Value := [parameterNode "limit" "query" false,
  parameterNode "id" "path" false, record [("$ref", .str "other.yaml#/Trace")]]

/-- Its own entries. -/
def shelfOwn : List Value := [parameterNode "limit" "query" true, .str "page",
  parameterNode "page" "body" false]

/-- The parameters that are left. -/
def shelfParameters : List Parameter := [⟨"id", .path, true, none, none, false⟩,
  ⟨"limit", .query, true, none, none, false⟩]

/-- What is said about the others. -/
def shelfWarnings : List Warning := [.parameterUnresolved .get shelfSlot.path "other.yaml#/Trace",
  .parameterMalformed .get shelfSlot.path, .parameterMisplaced .get shelfSlot.path "page" "body"]

/-- One of six entries is overridden; of the others two are parameters, and three give warnings. -/
theorem shelf_parameters_accounted :
    resolvedEntries shelfDocument shelfSlot.shared = .ok shelfShared
      ∧ resolvedEntries shelfDocument (shelfSlot.node.field "parameters") = .ok shelfOwn
      ∧ readParameters shelfDocument .get shelfSlot.path (mergeParameters shelfShared shelfOwn)
        = (shelfWarnings, .ok shelfParameters)
      ∧ Accounts shelfSlot shelfShared shelfOwn shelfWarnings (placedAt · shelfParameters)
      ∧ ((ownKeys shelfShared).Nodup ∧ (ownKeys shelfOwn).Nodup
        ∧ ((Location.all.flatMap (placedAt · shelfParameters)).map
            fun p => (p.name, p.location)).Nodup)
      ∧ ∃ o, (readSlot shelfDocument shelfSlot).result = .ok o
        ∧ ∀ location, o.parametersAt location = placedAt location shelfParameters := by
  have hshared : resolvedEntries shelfDocument shelfSlot.shared = .ok shelfShared := by cbv
  have hown : resolvedEntries shelfDocument (shelfSlot.node.field "parameters") = .ok shelfOwn := by
    cbv
  have hread : readParameters shelfDocument .get shelfSlot.path
      (mergeParameters shelfShared shelfOwn) = (shelfWarnings, .ok shelfParameters) := by cbv
  have hdistinct : (ownKeys shelfShared).Nodup := by decide +kernel
  have hdistinctOwn : (ownKeys shelfOwn).Nodup := by decide +kernel
  obtain ⟨haccounts, hlists⟩ := parameters_are_accounted_for hshared hown hread
  obtain ⟨o, ho⟩ : Succeeds (readSlot shelfDocument shelfSlot).result := ⟨_, rfl⟩
  exact ⟨hshared, hown, hread, haccounts,
    ⟨hdistinct, hdistinctOwn, haccounts.distinct hdistinct hdistinctOwn⟩, o, ho, (hlists o ho).2⟩

end ApiContract.OpenApi
