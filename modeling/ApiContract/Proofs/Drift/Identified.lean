import ApiContract.Drift.Pairing
import ApiContract.Proofs.Checked
import ApiContract.Proofs.Drift.Order
import ApiContract.Proofs.Value.Display

/-!
# The operation that carries the identity of a spec

An operation may declare the name and the version of its contract. An import reads them leniently: a
name in any form is a name, and a version that is absent, counts as nothing or cannot be read is the
first. The search for the operation of a spec reads them for itself: it compares the name as it
stands, takes a version as it is read, and fails at one that cannot be read. So it finds the operation
that an import would give the spec only as far as both read alike.

* **`carries_iff`** — what an import reads.
* **`readAlike_iff`** — where the search reads the same, operation by operation.
* **`findByIdentity_append`** — the search, over a list of operations.
* **`succeeds_findOperation_iff`** — where it does not fail.
* **`findsCarried_of_readAlike`** / **`readAlike_of_findsCarried`** — where it finds what an import would.
* **`carried_found_iff`** — the headline.
-/

namespace ApiContract.Drift

open Contract OpenApi Import

/-! ## What is declared -/

/-- What an operation declares of its contract. -/
def declaration (operation : Operation) : Value := operation.identity.getD .null

/-- The name that an operation declares, in the form in which it stands there. -/
def declaredName (operation : Operation) : Value := (declaration operation).field "name"

/-- The version that an operation declares, if it does. -/
def declaredVersion? (operation : Operation) : Option Value := (declaration operation).get? "version"

/-- An operation carries a name, and an import with the default options gives it the name and the
version of the spec. -/
def CarriesIdentity (spec : OperationSpec) (operation : Operation) : Prop :=
  (declaredName operation).isTruthy = true
    ∧ ∃ i, identityOf operation none = .ok i
      ∧ i.name = spec.header.name ∧ i.version = spec.header.version

/-- A name that reads as that of the spec, at its version, is that text; and the version beside that
text can be read, and is not a zero that an import takes for the first version where one of the two
is that of the spec. -/
structure ReadAlike (spec : OperationSpec) (operation : Operation) : Prop where
  name : CarriesIdentity spec operation → declaredName operation = .str spec.header.name
  version : declaredName operation = .str spec.header.name →
    ∀ v, declaredVersion? operation = some v → ∃ n, DeclaredVersion.of v = .number n
      ∧ (v.isTruthy = true ∨ spec.header.name = ""
        ∨ spec.header.version ≠ 0 ∧ spec.header.version ≠ 1)

variable {spec : OperationSpec} {operation : Operation}

/-! ## Versions -/

/-- The version that an import reads. A number without bound is none. -/
def importedVersion? (version : Value) : Option Int :=
  if version.isTruthy then
    match DeclaredVersion.of version with
    | .number n => some n
    | .unreadable => some 1
    | .unbounded => none
  else some 1

/-- A version that counts as nothing is zero, if it can be read. -/
theorem eq_zero_of_falsy {v : Value} {n : Int} (hfalsy : v.isTruthy = false)
    (h : DeclaredVersion.of v = .number n) : n = 0 := by
  cases v with
  | scalar leaf =>
    cases leaf with
    | bool b =>
      cases b with
      | false => exact (DeclaredVersion.number.inj h).symm
      | true => cases hfalsy
    | int m =>
      have hzero : m = 0 := by simpa [Value.isTruthy] using hfalsy
      exact (DeclaredVersion.number.inj h).symm.trans hzero
    | float x =>
      cases x with
      | finite negative m e =>
        cases m with
        | zero => cases negative <;> simpa [DeclaredVersion.of, Double.truncate?, eq_comm] using h
        | succ m => cases hfalsy
      | nan => cases h
      | infinite negative => cases h
    | str s =>
      have hempty : s = "" := by simpa [Value.isTruthy, String.isEmpty_iff] using hfalsy
      subst hempty
      cases h
    | bytes b =>
      have hempty : b = [] := by simpa [Value.isTruthy] using hfalsy
      subst hempty
      cases h
    | null => cases h
    | date d => cases h
    | dateTime t => cases h
  | list items => cases h
  | map members => cases h
  | set items => cases h

/-- What an import reads, if a name is declared. -/
theorem identityOf_eq (hname : (declaredName operation).isTruthy = true) :
    identityOf operation none
      = match importedVersion? ((declaration operation).field "version") with
        | some n => .ok ⟨(declaredName operation).text, n,
            (((declaration operation).field "kind").str?.bind OpKind.ofName?).getD
              (Import.kindOf operation.method)⟩
        | none => .error .unexpected := by
  unfold identityOf importedVersion?
  unfold declaredName declaration at *
  dsimp only
  rw [if_pos hname]
  split
  · cases DeclaredVersion.of ((operation.identity.getD .null).field "version") <;> rfl
  · rfl

theorem carries_iff : CarriesIdentity spec operation ↔ (declaredName operation).isTruthy = true
    ∧ (declaredName operation).text = spec.header.name
    ∧ importedVersion? ((declaration operation).field "version") = some spec.header.version := by
  unfold CarriesIdentity
  refine and_congr_right fun hname => ?_
  rw [identityOf_eq hname]
  cases importedVersion? ((declaration operation).field "version") with
  | none => simp
  | some n => simp

/-- A declared name that is the text of the spec's name is carried, unless it is empty. -/
theorem carries_iff_of_name (hname : declaredName operation = .str spec.header.name) :
    CarriesIdentity spec operation ↔ spec.header.name ≠ ""
      ∧ importedVersion? ((declaration operation).field "version") = some spec.header.version := by
  rw [carries_iff, hname]
  simp [Value.isTruthy, Value.text, Scalar.text]

/-- Nothing carries an empty name. -/
theorem name_ne_empty_of_carries (h : CarriesIdentity spec operation) : spec.header.name ≠ "" := by
  obtain ⟨htruthy, htext, -⟩ := carries_iff.mp h
  exact htext ▸ Value.text_ne_empty htruthy

/-! ## One operation -/

theorem hasIdentity_of_other (h : declaredName operation ≠ .str spec.header.name) :
    hasIdentity spec operation = .ok false := if_pos h

theorem hasIdentity_of_name (h : declaredName operation = .str spec.header.name) :
    hasIdentity spec operation
      = match DeclaredVersion.of ((declaredVersion? operation).getD (.int 1)) with
        | .number n => .ok (decide (n = spec.header.version))
        | .unreadable | .unbounded => .error .unexpected := if_neg (not_not_intro h)

/-- The search does not fail at an operation, and stops at it exactly if it carries the identity of the
spec. A spec without a name is carried by none. -/
def Decided (spec : OperationSpec) (operation : Operation) : Prop :=
  ∃ b, hasIdentity spec operation = .ok b
    ∧ (spec.header.name ≠ "" → (b = true ↔ CarriesIdentity spec operation))

/-- Another name than the text of the spec's is passed over. -/
theorem readAlike_iff_of_other (hname : declaredName operation ≠ .str spec.header.name) :
    ReadAlike spec operation ↔ Decided spec operation := by
  unfold Decided
  rw [hasIdentity_of_other hname]
  constructor
  · intro h
    exact ⟨false, rfl, fun _ => iff_of_false (by decide) fun hcarries => hname (h.name hcarries)⟩
  · rintro ⟨b, hb, hiff⟩
    cases hb
    refine ⟨fun hcarries => ?_, fun heq => absurd heq hname⟩
    exact absurd ((hiff (name_ne_empty_of_carries hcarries)).mpr hcarries) (by decide)

/-- An absent version is the first in both readings. -/
theorem readAlike_iff_of_unversioned (hname : declaredName operation = .str spec.header.name)
    (hversion : declaredVersion? operation = none) :
    ReadAlike spec operation ↔ Decided spec operation := by
  have hread : importedVersion? ((declaration operation).field "version") = some 1 := by
    have habsent : (declaration operation).get? "version" = none := hversion
    rw [Value.field, habsent]
    rfl
  have hcarries := carries_iff_of_name hname
  rw [hread] at hcarries
  unfold Decided
  rw [hasIdentity_of_name hname, hversion]
  refine iff_of_true ⟨fun _ => hname, fun _ v hv => ?_⟩ ⟨_, rfl, fun hne => ?_⟩
  · rw [hversion] at hv
    cases hv
  · simp [hcarries, hne]

/-- A version that counts as nothing is the first for an import, and zero for the search. -/
theorem readAlike_iff_of_version (hname : declaredName operation = .str spec.header.name) {v : Value}
    (hversion : declaredVersion? operation = some v) :
    ReadAlike spec operation ↔ Decided spec operation := by
  have hread : (declaration operation).field "version" = v := by
    have hpresent : (declaration operation).get? "version" = some v := hversion
    rw [Value.field, hpresent]
    rfl
  have hcarries := carries_iff_of_name hname
  rw [hread] at hcarries
  have halike : ReadAlike spec operation ↔ ∃ n, DeclaredVersion.of v = .number n
      ∧ (v.isTruthy = true ∨ spec.header.name = ""
        ∨ spec.header.version ≠ 0 ∧ spec.header.version ≠ 1) := by
    refine ⟨fun h => h.version hname v hversion, fun h => ⟨fun _ => hname, fun _ w hw => ?_⟩⟩
    cases hversion.symm.trans hw
    exact h
  unfold Decided
  rw [halike, hasIdentity_of_name hname, hversion, Option.getD_some]
  cases hof : DeclaredVersion.of v with
  | unreadable => simp
  | unbounded => simp
  | number n =>
    cases htruthy : v.isTruthy with
    | true =>
      have himported : importedVersion? v = some n := by
        unfold importedVersion?
        rw [if_pos htruthy, hof]
      rw [himported] at hcarries
      refine iff_of_true ⟨n, rfl, .inl rfl⟩ ⟨_, rfl, fun hne => ?_⟩
      simp [hcarries, hne]
    | false =>
      have himported : importedVersion? v = some 1 := if_neg (by simp [htruthy])
      rw [himported] at hcarries
      obtain rfl := eq_zero_of_falsy htruthy hof
      have hsame : (0 = spec.header.version ↔ 1 = spec.header.version)
          ↔ spec.header.version ≠ 0 ∧ spec.header.version ≠ 1 := by omega
      by_cases hempty : spec.header.name = "" <;> simp [hcarries, hempty, hsame]

/-- **The search decides an operation** exactly if it is read alike. -/
theorem readAlike_iff : ReadAlike spec operation ↔ Decided spec operation := by
  by_cases hname : declaredName operation = .str spec.header.name
  · cases hversion : declaredVersion? operation with
    | none => exact readAlike_iff_of_unversioned hname hversion
    | some v => exact readAlike_iff_of_version hname hversion
  · exact readAlike_iff_of_other hname

/-! ## The search -/

/-- The search stops at the first operation at which it does not pass on. -/
theorem findByIdentity_append {before : List Operation}
    (h : ∀ o ∈ before, hasIdentity spec o = .ok false) (rest : List Operation) :
    findByIdentity spec (before ++ rest) = findByIdentity spec rest := by
  induction before with
  | nil => rfl
  | cons o before ih =>
    obtain ⟨ho, hbefore⟩ := List.forall_mem_cons.mp h
    rw [List.cons_append, findByIdentity, ho]
    exact ih hbefore

theorem findByIdentity_of_taken (h : hasIdentity spec operation = .ok true) (rest : List Operation) :
    findByIdentity spec (operation :: rest) = .ok (some operation) := by
  rw [findByIdentity, h]
  rfl

/-- Where no operation carries the identity of the spec, its id or its address decide, which cannot
fail. -/
theorem findOperation_of_found {operations : List Operation}
    (h : findByIdentity spec operations = .ok (some operation)) :
    findOperation spec operations = .ok (some operation) := by
  unfold findOperation
  rw [h]
  rfl

theorem succeeds_findOperation {operations : List Operation} :
    Succeeds (findOperation spec operations) ↔ Succeeds (findByIdentity spec operations) := by
  unfold findOperation
  refine succeeds_bind_of_forall fun found => ?_
  cases found with
  | none => exact succeeds_pure _
  | some o => exact succeeds_pure _

/-- The search fails at an operation: it has the name of the spec, and a version that is no bounded
number. -/
def Unreadable (spec : OperationSpec) (operation : Operation) : Prop :=
  declaredName operation = .str spec.header.name
    ∧ ∃ v, declaredVersion? operation = some v ∧ ∀ n, DeclaredVersion.of v ≠ .number n

/-- The search stops at an operation: it has the name of the spec, and its version, or none where that
is the first. -/
def Taken (spec : OperationSpec) (operation : Operation) : Prop :=
  declaredName operation = .str spec.header.name
    ∧ DeclaredVersion.of ((declaredVersion? operation).getD (.int 1))
      = .number spec.header.version

theorem hasIdentity_eq_true_iff : hasIdentity spec operation = .ok true ↔ Taken spec operation := by
  unfold Taken
  by_cases hname : declaredName operation = .str spec.header.name
  · rw [hasIdentity_of_name hname]
    cases DeclaredVersion.of ((declaredVersion? operation).getD (.int 1)) <;> simp [hname]
  · simp [hasIdentity_of_other hname, hname]

theorem succeeds_hasIdentity_iff :
    Succeeds (hasIdentity spec operation) ↔ ¬ Unreadable spec operation := by
  unfold Unreadable
  by_cases hname : declaredName operation = .str spec.header.name
  · rw [hasIdentity_of_name hname]
    cases hversion : declaredVersion? operation with
    | none => simp [DeclaredVersion.of]
    | some v => cases hof : DeclaredVersion.of v <;> simp [hname, hof]
  · simp [hasIdentity_of_other hname, hname]

/-- **The search does not fail** exactly if it stops before each operation at which it would. -/
theorem succeeds_findOperation_iff {operations : List Operation} :
    Succeeds (findOperation spec operations) ↔ ∀ before o after, operations = before ++ o :: after →
      Unreadable spec o → ∃ b ∈ before, Taken spec b := by
  rw [succeeds_findOperation]
  induction operations with
  | nil => simp [findByIdentity]
  | cons o rest ih =>
    constructor
    · intro h before u after hsplit hu
      cases before with
      | nil =>
        obtain ⟨rfl, rfl⟩ := List.cons.inj hsplit
        obtain ⟨b, hb, -⟩ := succeeds_bind.mp h
        exact absurd hu (succeeds_hasIdentity_iff.mp ⟨b, hb⟩)
      | cons b before =>
        obtain ⟨rfl, hrest⟩ := List.cons.inj hsplit
        obtain ⟨taken, htaken, hlast⟩ := succeeds_bind.mp h
        cases taken with
        | true => exact ⟨o, .head _, hasIdentity_eq_true_iff.mp htaken⟩
        | false =>
          obtain ⟨b, hb, hbt⟩ := ih.mp hlast before u after hrest hu
          exact ⟨b, .tail _ hb, hbt⟩
    · intro h
      have hread : Succeeds (hasIdentity spec o) := by
        refine succeeds_hasIdentity_iff.mpr fun hu => ?_
        obtain ⟨b, hb, -⟩ := h [] o rest rfl hu
        cases hb
      obtain ⟨taken, htaken⟩ := hread
      refine succeeds_bind.mpr ⟨taken, htaken, ?_⟩
      cases taken with
      | true => exact succeeds_pure _
      | false =>
        refine ih.mpr fun before u after hsplit hu => ?_
        obtain ⟨b, hb, hbt⟩ := h (o :: before) u after (by rw [hsplit]; rfl) hu
        rcases List.mem_cons.mp hb with rfl | hb
        · rw [hasIdentity_eq_true_iff.mpr hbt] at htaken
          cases htaken
        · exact ⟨b, hb, hbt⟩

/-! ## Both readings -/

/-- The first operation of a list that carries the identity of the spec. -/
def FirstCarried (spec : OperationSpec) (operations : List Operation) (operation : Operation) : Prop :=
  ∃ before after, operations = before ++ operation :: after
    ∧ CarriesIdentity spec operation ∧ ∀ o ∈ before, ¬ CarriesIdentity spec o

/-- The search does not fail, and gives the first operation that an import would give the spec. -/
structure FindsCarried (spec : OperationSpec) (operations : List Operation) : Prop where
  succeeds : Succeeds (findOperation spec operations)
  found : ∀ o, FirstCarried spec operations o → findOperation spec operations = .ok (some o)

theorem ReadAlike.hasIdentity_of_not_carries (h : ReadAlike spec operation)
    (hname : spec.header.name ≠ "") (hcarries : ¬ CarriesIdentity spec operation) :
    hasIdentity spec operation = .ok false := by
  obtain ⟨b, hb, hiff⟩ := readAlike_iff.mp h
  cases b with
  | false => exact hb
  | true => exact absurd ((hiff hname).mp rfl) hcarries

theorem ReadAlike.hasIdentity_of_carries (h : ReadAlike spec operation)
    (hcarries : CarriesIdentity spec operation) : hasIdentity spec operation = .ok true := by
  obtain ⟨b, hb, hiff⟩ := readAlike_iff.mp h
  exact (hiff (name_ne_empty_of_carries hcarries)).mpr hcarries ▸ hb

theorem findsCarried_of_readAlike {operations : List Operation}
    (h : ∀ o ∈ operations, ReadAlike spec o) : FindsCarried spec operations := by
  constructor
  · refine succeeds_findOperation_iff.mpr fun before o after hsplit hu => ?_
    obtain ⟨b, hb, -⟩ := readAlike_iff.mp (h o (by simp [hsplit]))
    exact absurd hu (succeeds_hasIdentity_iff.mp ⟨b, hb⟩)
  · rintro o ⟨before, after, rfl, hcarries, hbefore⟩
    refine findOperation_of_found ?_
    rw [findByIdentity_append]
    · exact findByIdentity_of_taken ((h o (by simp)).hasIdentity_of_carries hcarries) after
    · intro b hb
      exact (h b (by simp [hb])).hasIdentity_of_not_carries
        (name_ne_empty_of_carries hcarries) (hbefore b hb)

/-- The version of a spec, as a value that does not count as nothing. -/
def writtenVersion (version : Int) : Value := if version = 0 then .str "0" else .int version

theorem of_writtenVersion (version : Int) :
    DeclaredVersion.of (writtenVersion version) = .number version := by
  unfold writtenVersion
  split
  · subst version
    decide
  · rfl

theorem isTruthy_writtenVersion (version : Int) : (writtenVersion version).isTruthy = true := by
  unfold writtenVersion
  split
  · rfl
  · simpa [Value.isTruthy] using ‹version ≠ 0›

/-- The operation, with the identity of the spec written as both readings take it. -/
def declaring (spec : OperationSpec) (operation : Operation) : Operation :=
  { operation with
    identity := some (.map [(.str "name", .str spec.header.name),
      (.str "version", writtenVersion spec.header.version)]) }

theorem declaredVersion?_declaring (operation : Operation) :
    declaredVersion? (declaring spec operation) = some (writtenVersion spec.header.version) := rfl

theorem readAlike_declaring (operation : Operation) : ReadAlike spec (declaring spec operation) := by
  refine ⟨fun _ => rfl, fun _ v hv => ?_⟩
  rw [declaredVersion?_declaring] at hv
  cases hv
  exact ⟨_, of_writtenVersion _, .inl (isTruthy_writtenVersion _)⟩

theorem taken_declaring (operation : Operation) : Taken spec (declaring spec operation) :=
  ⟨rfl, of_writtenVersion _⟩

theorem carries_declaring (hname : spec.header.name ≠ "") (operation : Operation) :
    CarriesIdentity spec (declaring spec operation) := by
  obtain ⟨b, hb, hiff⟩ := readAlike_iff.mp (@readAlike_declaring spec operation)
  rw [hasIdentity_eq_true_iff.mpr (taken_declaring operation)] at hb
  cases hb
  exact (hiff hname).mp rfl

/-- An operation is read alike if the search agrees on it by itself, and where another one follows that
carries the identity of the spec. -/
theorem readAlike_of_findsCarried (halone : FindsCarried spec [operation])
    (hbefore : FindsCarried spec [operation, declaring spec operation]) : ReadAlike spec operation := by
  refine readAlike_iff.mpr ?_
  obtain ⟨b, hb, -⟩ := succeeds_bind.mp (succeeds_findOperation.mp halone.succeeds)
  refine ⟨b, hb, fun hname => ?_⟩
  have hlast := carries_declaring hname operation
  have htaken := hasIdentity_eq_true_iff.mpr (@taken_declaring spec operation)
  cases b with
  | true =>
    refine ⟨fun _ => ?_, fun _ => rfl⟩
    -- otherwise the second operation would be the first that carries the identity
    refine Classical.byContradiction fun hcarries => ?_
    have hsecond := hbefore.found _ ⟨[operation], [], rfl, hlast, by simpa using hcarries⟩
    rw [findOperation_of_found (findByIdentity_of_taken hb _)] at hsecond
    exact hcarries (Option.some.inj (Except.ok.inj hsecond) ▸ hlast)
  | false =>
    refine ⟨nofun, fun hcarries => ?_⟩
    have hnone : ∀ o ∈ [], ¬ CarriesIdentity spec o := fun _ ho => absurd ho List.not_mem_nil
    have hfirst := hbefore.found operation ⟨[], _, rfl, hcarries, hnone⟩
    rw [@findOperation_of_found _ (declaring spec operation)] at hfirst
    · rw [← Option.some.inj (Except.ok.inj hfirst), htaken] at hb
      cases hb
    · have hpassed : ∀ o ∈ [operation], hasIdentity spec o = .ok false := by simpa using hb
      exact (findByIdentity_append hpassed _).trans (findByIdentity_of_taken htaken [])

/-- **The search finds what an import would give the spec**, for all lists that are made of some
operations and of operations that are read alike, exactly if those are read alike as well. It does not
fail exactly if it stops before each operation with the name of the spec and a version that cannot be
read. -/
theorem carried_found_iff (spec : OperationSpec) (operations : List Operation) :
    ((∀ o ∈ operations, ReadAlike spec o) ↔ ∀ listed : List Operation,
        (∀ o ∈ listed, o ∈ operations ∨ ReadAlike spec o) → FindsCarried spec listed)
      ∧ (Succeeds (findOperation spec operations) ↔ ∀ before o after,
        operations = before ++ o :: after → Unreadable spec o → ∃ b ∈ before, Taken spec b) := by
  refine ⟨⟨fun h listed hlisted => ?_, fun h o ho => ?_⟩, succeeds_findOperation_iff⟩
  · exact findsCarried_of_readAlike fun o ho => (hlisted o ho).elim (h o) id
  · refine readAlike_of_findsCarried (h [o] ?_) (h [o, declaring spec o] ?_)
    · simp [ho]
    · simp [ho, readAlike_declaring]

/-! ## Versions that count as nothing -/

/-- An operation that lists pets, and declares a version of its contract. -/
def petsListing (version : Value) : Operation where
  id := "getPets"
  method := .get
  path := "/pets"
  summary := none
  description := none
  tags := []
  pathParams := []
  queryParams := []
  headerParams := []
  cookieParams := []
  requestBody := none
  responses := []
  deprecated := false
  security := none
  identity := some (.map [(.str "name", .str "pets.list"), (.str "version", version)])

/-- An import takes null and zero for the first version; the search fails at the one, and does not find
the other. -/
theorem not_found_of_nothing :
    CarriesIdentity (plainQuery "pets.list" 1) (petsListing .null)
      ∧ findOperation (plainQuery "pets.list" 1) [petsListing .null] = .error .unexpected
      ∧ CarriesIdentity (plainQuery "pets.list" 1) (petsListing (.int 0))
      ∧ findOperation (plainQuery "pets.list" 1) [petsListing (.int 0)] = .ok none := by
  have hcarries (version : Value) (hfirst : importedVersion? version = some 1) :
      CarriesIdentity (plainQuery "pets.list" 1) (petsListing version) :=
    (carries_iff_of_name rfl).mpr ⟨by decide, hfirst⟩
  refine ⟨hcarries .null rfl, ?_, hcarries (.int 0) rfl, ?_⟩
  · decide +kernel
  · decide +kernel

end ApiContract.Drift
