import ApiContract.Proofs.Drift.Schema
import ApiContract.Proofs.Number.Rounding
import Mathlib.Data.List.Perm.Subperm

/-!
# When a comparison of trees finds nothing

Two trees of JSON are alike if they have the same members in whatever order, where an absent member
is null, numbers are compared by their values, and what is required is a set of names; a list is one
value, in which nothing but the order of members and the kind of a number is left open. A comparison
that leaves nothing out finds no change exactly between trees that are alike, with one exception:
under `required` it also takes false, zero, an empty text and an empty mapping for no names.

* **`sameLeaf_iff`** / **`same_iff_equal`** — values that are compared as a whole.
* **`unchanged_iff_alike`** — members, by induction on the trees.
* **`no_change_iff_alike`** — the headline.
-/

namespace ApiContract.Drift

/-! ## Trees of JSON -/

/-- A leaf of JSON, other than what is no number. -/
def IsJsonLeaf : Scalar → Prop
  | .null | .bool _ | .int _ | .str _ => True
  | .float x => x.IsExact
  | .date _ | .dateTime _ | .bytes _ => False

/-- A tree of JSON: mappings have texts as keys, each once. -/
inductive JsonTree : Value → Prop where
  | leaf {leaf : Scalar} (json : IsJsonLeaf leaf) : JsonTree (.scalar leaf)
  | list {items : List Value} (values : ∀ v ∈ items, JsonTree v) : JsonTree (.list items)
  | map {members : Members} (keys : TextKeys members) (values : ∀ m ∈ members, JsonTree m.2) :
      JsonTree (.map members)

theorem JsonTree.of_get? {members : Members} (values : ∀ m ∈ members, JsonTree m.2) {name : String}
    {v : Value} (h : Members.get? members name = some v) : JsonTree v :=
  values _ (Members.mem_of_get? h)

/-- What is absent is null. -/
theorem JsonTree.getD {members : Members} (values : ∀ m ∈ members, JsonTree m.2) (name : String) :
    JsonTree ((Members.get? members name).getD .null) := by
  cases h : Members.get? members name with
  | none => exact .leaf trivial
  | some v => exact .of_get? values h

/-! ## Leaves -/

/-- The value of a number. -/
def number? : Scalar → Option ℚ
  | .int n => some n
  | .float x => x.value?
  | _ => none

/-- Leaves are the same if they are equal or numbers of one value. -/
def SameLeaf (a b : Scalar) : Prop := a = b ∨ ∃ q, number? a = some q ∧ number? b = some q

theorem number?_eq_none {a : Scalar} (hkind : kindOf (.scalar a) ≠ .number) : number? a = none := by
  cases a with
  | int n => exact absurd rfl hkind
  | float x => exact absurd rfl hkind
  | null | bool b | str s | date d | dateTime t | bytes b => rfl

theorem key_float (x : Double) : (Scalar.float x).key = (x.toInt?.map Key.int).getD (.float x) := rfl

/-- A number is the key of an integer exactly if it has its value. -/
theorem key_eq_int_iff {a : Scalar} (h : IsJsonLeaf a) (hkind : kindOf (.scalar a) = .number)
    {n : Int} : a.key = .int n ↔ number? a = some (n : ℚ) := by
  cases a with
  | int m => simp [Scalar.key, number?]
  | float x =>
    rw [number?, ← Double.toInt?_eq_some_iff h, key_float]
    cases x.toInt? <;> simp
  | null | bool b | str s | date d | dateTime t | bytes b => cases hkind

/-- A number that is no integer is a key of its own. -/
theorem exists_float {a : Scalar} (hkind : kindOf (.scalar a) = .number)
    (h : ∀ n, a.key ≠ .int n) : ∃ x, a = .float x ∧ x.toInt? = none ∧ a.key = .float x := by
  cases a with
  | int m => exact absurd rfl (h m)
  | float x =>
    cases hx : x.toInt? with
    | none =>
      refine ⟨x, rfl, hx, ?_⟩
      rw [key_float, hx]
      rfl
    | some n =>
      refine absurd ?_ (h n)
      rw [key_float, hx]
      rfl
  | null | bool b | str s | date d | dateTime t | bytes b => cases hkind

theorem sameKey_number_iff {a b : Scalar} (ha : IsJsonLeaf a) (hb : IsJsonLeaf b)
    (hkind : kindOf (.scalar a) = .number) (hkind' : kindOf (.scalar b) = .number) :
    a.key = b.key ↔ SameLeaf a b := by
  constructor
  · intro hkey
    by_cases hint : ∃ n, a.key = .int n
    · obtain ⟨n, hn⟩ := hint
      exact .inr ⟨n, (key_eq_int_iff ha hkind).mp hn, (key_eq_int_iff hb hkind').mp (hkey ▸ hn)⟩
    · have hint' : ∀ n, b.key ≠ .int n := fun n hn => hint ⟨n, hkey.trans hn⟩
      obtain ⟨x, rfl, -, hx⟩ := exists_float hkind (not_exists.mp hint)
      obtain ⟨y, rfl, -, hy⟩ := exists_float hkind' hint'
      rw [hx, hy] at hkey
      exact .inl (congrArg Scalar.float (Key.float.inj hkey))
  · rintro (rfl | ⟨q, hqa, hqb⟩)
    · rfl
    · by_cases hint : ∃ n, a.key = .int n
      · obtain ⟨n, hn⟩ := hint
        have hq := hqa.symm.trans ((key_eq_int_iff ha hkind).mp hn)
        rw [hn, (key_eq_int_iff hb hkind').mpr (hqb.trans hq)]
      · have hint' : ∀ n, b.key ≠ .int n := fun n hn =>
          hint ⟨n, (key_eq_int_iff ha hkind).mpr
            (hqa.trans (hqb.symm.trans ((key_eq_int_iff hb hkind').mp hn)))⟩
        obtain ⟨x, rfl, hx, -⟩ := exists_float hkind (not_exists.mp hint)
        obtain ⟨y, rfl, hy, -⟩ := exists_float hkind' hint'
        rw [Double.eq_of_value?_eq ha hb hx hy hqa hqb]

/-- **Leaves are the same** exactly if they are equal or numbers of one value. -/
theorem sameLeaf_iff {a b : Scalar} (ha : IsJsonLeaf a) (hb : IsJsonLeaf b) :
    sameLeaf a b = true ↔ SameLeaf a b := by
  have hnan : a ≠ .float .nan := by
    rintro rfl
    exact ha
  unfold sameLeaf Scalar.sameKey
  rw [Bool.and_eq_true, Bool.and_eq_true, bne_iff_ne, beq_iff_eq, beq_iff_eq, and_assoc,
    and_iff_right hnan]
  by_cases hkind : kindOf (.scalar a) = .number
  · by_cases hkind' : kindOf (.scalar b) = .number
    · rw [hkind, hkind', and_iff_right rfl]
      exact sameKey_number_iff ha hb hkind hkind'
    · refine iff_of_false (fun h => hkind' (h.1 ▸ hkind)) ?_
      rintro (rfl | ⟨q, -, hq⟩)
      · exact hkind' hkind
      · rw [number?_eq_none hkind'] at hq
        cases hq
  · -- of the leaves that are no numbers, truth values have keys of their own
    have hsame : SameLeaf a b ↔ a = b := by
      unfold SameLeaf
      simp [number?_eq_none hkind]
    rw [hsame]
    constructor
    · rintro ⟨hkinds, hkey⟩
      cases a with
      | null => cases b <;> first | rfl | cases hkinds
      | bool x =>
        cases b with
        | bool y => cases x <;> cases y <;> first | rfl | cases hkey
        | _ => cases hkinds
      | str s =>
        cases b with
        | str t => exact congrArg Scalar.str (Key.str.inj hkey)
        | _ => cases hkinds
      | int n => exact absurd rfl hkind
      | float x => exact absurd rfl hkind
      | date d | dateTime t | bytes b => cases ha
    · rintro rfl
      exact ⟨rfl, rfl⟩

/-! ## Values as a whole -/

/-- Values are equal up to the order of members and the kind of a number. -/
inductive Equal : Value → Value → Prop where
  | leaf {a b : Scalar} (same : SameLeaf a b) : Equal (.scalar a) (.scalar b)
  | list {xs ys : List Value} (length : xs.length = ys.length)
      (items : ∀ p ∈ xs.zip ys, Equal p.1 p.2) : Equal (.list xs) (.list ys)
  | map {xs ys : Members}
      (names : ∀ name, (Members.get? xs name).isSome = (Members.get? ys name).isSome)
      (values : ∀ name v w, Members.get? xs name = some v → Members.get? ys name = some w →
        Equal v w) : Equal (.map xs) (.map ys)

theorem sameItems_iff {xs ys : List Value} :
    sameItems xs ys = true ↔ xs.length = ys.length ∧ ∀ p ∈ xs.zip ys, same p.1 p.2 = true := by
  induction xs generalizing ys with
  | nil => cases ys <;> simp [sameItems]
  | cons x rest ih =>
    cases ys with
    | nil => simp [sameItems]
    | cons y rest' =>
      rw [sameItems, Bool.and_eq_true, ih, List.zip_cons_cons, List.forall_mem_cons,
        List.length_cons, List.length_cons, Nat.add_right_cancel_iff]
      exact and_left_comm

theorem TextKeys.mem_keys_iff {members : Members} (h : TextKeys members) {name : String} :
    Scalar.str name ∈ members.map (·.1) ↔ (Members.get? members name).isSome = true := by
  constructor
  · intro hmem
    obtain ⟨⟨k, v⟩, hm, rfl⟩ := List.mem_map.mp hmem
    rw [h.get?_of_mem hm]
    rfl
  · intro hsome
    obtain ⟨v, hv⟩ := Option.isSome_iff_exists.mp hsome
    exact List.mem_map.mpr ⟨_, Members.mem_of_get? hv, rfl⟩

theorem keys_subset_iff {xs ys : Members} (hx : TextKeys xs) (hy : TextKeys ys) :
    xs.map (·.1) ⊆ ys.map (·.1)
      ↔ ∀ name, (Members.get? xs name).isSome = true → (Members.get? ys name).isSome = true := by
  constructor
  · intro hsubset name
    rw [← hx.mem_keys_iff, ← hy.mem_keys_iff]
    exact fun hmem => hsubset hmem
  · intro h k hk
    obtain ⟨m, hm, hkey⟩ := List.mem_map.mp hk
    obtain ⟨name, hname⟩ := hx.text m hm
    obtain rfl : k = .str name := hkey.symm.trans hname
    exact hy.mem_keys_iff.mpr (h name (hx.mem_keys_iff.mp hk))

/-- A mapping has the names of another if it has all of them and as many members. -/
theorem names_eq_iff {xs ys : Members} (hx : TextKeys xs) (hy : TextKeys ys) :
    (∀ name, (Members.get? xs name).isSome = (Members.get? ys name).isSome)
      ↔ xs.length = ys.length
        ∧ ∀ name, (Members.get? xs name).isSome = true → (Members.get? ys name).isSome = true := by
  rw [← keys_subset_iff hx hy]
  constructor
  · intro h
    have hsubset := (keys_subset_iff hx hy).mpr fun name hname => h name ▸ hname
    have hsubset' := (keys_subset_iff hy hx).mpr fun name hname => (h name).symm ▸ hname
    have hperm := (List.perm_ext_iff_of_nodup hx.nodup hy.nodup).mpr
      fun k => ⟨fun hk => hsubset hk, fun hk => hsubset' hk⟩
    exact ⟨by simpa using hperm.length_eq, hsubset⟩
  · rintro ⟨hlength, hsubset⟩ name
    have hperm := (List.subperm_of_subset hx.nodup hsubset).perm_of_length_le (by simp [hlength])
    rw [Bool.eq_iff_iff, ← hx.mem_keys_iff, ← hy.mem_keys_iff]
    exact hperm.mem_iff

theorem same_list_iff {xs ys : List Value} : same (.list xs) (.list ys) = true
    ↔ xs.length = ys.length ∧ ∀ p ∈ xs.zip ys, same p.1 p.2 = true := by
  rw [same, sameItems_iff]

theorem same_map_iff {xs ys : Members} (hx : TextKeys xs) (hy : TextKeys ys) :
    same (.map xs) (.map ys) = true
      ↔ (∀ name, (Members.get? xs name).isSome = (Members.get? ys name).isSome)
        ∧ ∀ name v w, Members.get? xs name = some v → Members.get? ys name = some w →
          same v w = true := by
  rw [same, Bool.and_eq_true, beq_iff_eq, sameMembers_iff, names_eq_iff hx hy]
  constructor
  · rintro ⟨hlength, h⟩
    have hfound : ∀ name v, Members.get? xs name = some v →
        ∃ w, Members.get? ys name = some w ∧ same v w = true :=
      fun name v hv => h _ (Members.mem_of_get? hv)
    refine ⟨⟨hlength, fun name hname => ?_⟩, fun name v w hv hw => ?_⟩
    · obtain ⟨v, hv⟩ := Option.isSome_iff_exists.mp hname
      obtain ⟨w, hw, -⟩ := hfound name v hv
      rw [hw]
      rfl
    · obtain ⟨w', hw', hsame⟩ := hfound name v hv
      cases hw.symm.trans hw'
      exact hsame
  · rintro ⟨⟨hlength, names⟩, values⟩
    refine ⟨hlength, ?_⟩
    rintro ⟨k, v⟩ hm
    obtain ⟨name, rfl⟩ := hx.text _ hm
    have hv := hx.get?_of_mem hm
    obtain ⟨w, hw⟩ := Option.isSome_iff_exists.mp (names name (by rw [hv]; rfl))
    exact ⟨w, hw, values name v w hv hw⟩

/-- **Values are the same** exactly if they are equal up to the order of members and the kind of a
number. Induction on the first one. -/
theorem same_iff_equal {v : Value} (hv : JsonTree v) :
    ∀ {w : Value}, JsonTree w → (same v w = true ↔ Equal v w) := by
  induction hv with
  | leaf ha =>
    intro w hw
    cases hw with
    | leaf hb =>
      rw [same, sameLeaf_iff ha hb]
      exact ⟨.leaf, fun h => by cases h with | leaf h => exact h⟩
    | list _ => exact iff_of_false (by simp [same]) fun h => by cases h
    | map _ _ => exact iff_of_false (by simp [same]) fun h => by cases h
  | list _ ih =>
    intro w hw
    cases hw with
    | leaf _ => exact iff_of_false (by simp [same]) fun h => by cases h
    | list hw =>
      rw [same_list_iff]
      have hitems : ∀ p ∈ List.zip _ _, (same p.1 p.2 = true ↔ Equal p.1 p.2) :=
        fun p hp => ih p.1 (List.of_mem_zip hp).1 (hw p.2 (List.of_mem_zip hp).2)
      constructor
      · rintro ⟨hlength, h⟩
        exact .list hlength fun p hp => (hitems p hp).mp (h p hp)
      · intro h
        cases h with
        | list hlength h => exact ⟨hlength, fun p hp => (hitems p hp).mpr (h p hp)⟩
    | map _ _ => exact iff_of_false (by simp [same]) fun h => by cases h
  | map keys _ ih =>
    intro w hw
    cases hw with
    | leaf _ => exact iff_of_false (by simp [same]) fun h => by cases h
    | list _ => exact iff_of_false (by simp [same]) fun h => by cases h
    | map keys' values' =>
      rw [same_map_iff keys keys']
      have hvalues : ∀ {name v w}, Members.get? _ name = some v → Members.get? _ name = some w →
          (same v w = true ↔ Equal v w) :=
        fun hv hw => ih _ (Members.mem_of_get? hv) (.of_get? values' hw)
      constructor
      · rintro ⟨names, h⟩
        exact .map names fun name v w hv hw => (hvalues hv hw).mp (h name v w hv hw)
      · intro h
        cases h with
        | map names h => exact ⟨names, fun name v w hv hw => (hvalues hv hw).mpr (h name v w hv hw)⟩

/-! ## Required names -/

/-- A value lists names, or stands for none. -/
def NamesOf (blank : Value → Prop) (v : Value) (names : List String) : Prop :=
  blank v ∧ names = [] ∨ v = .list (names.map .str)

/-- What counts as absent in a condition. -/
def IsFalsy (v : Value) : Prop := v.isTruthy = false

theorem str?_eq_some_iff {v : Value} {text : String} : v.str? = some text ↔ v = .str text := by
  cases v with
  | scalar leaf => cases leaf <;> simp [Value.str?]
  | list items => simp [Value.str?]
  | map members => simp [Value.str?]
  | set items => simp [Value.str?]

theorem mapM_str?_eq_some_iff {items : List Value} {names : List String} :
    items.mapM Value.str? = some names ↔ items = names.map .str := by
  induction items generalizing names with
  | nil => cases names <;> simp
  | cons v rest ih =>
    rw [List.mapM_cons]
    constructor
    · intro h
      obtain ⟨name, hname, h⟩ := Option.bind_eq_some_iff.mp h
      obtain ⟨names', hnames, h⟩ := Option.bind_eq_some_iff.mp h
      cases h
      rw [str?_eq_some_iff.mp hname, ih.mp hnames, List.map_cons]
    · intro h
      cases names with
      | nil => cases h
      | cons name names =>
        obtain ⟨rfl, hrest⟩ := List.cons.inj h
        rw [ih.mpr hrest]
        rfl

/-- What a comparison reads as required names. -/
theorem names?_eq_some_iff {v : Value} {names : List String} :
    names? v = some names ↔ NamesOf IsFalsy v names := by
  unfold names? NamesOf IsFalsy
  by_cases hfalsy : v.isTruthy = false
  · rw [hfalsy, Bool.not_false, if_pos rfl, Option.some.injEq, and_iff_right rfl]
    refine ⟨fun h => .inl h.symm, ?_⟩
    rintro (rfl | rfl)
    · rfl
    · exact (by simpa [Value.isTruthy] using hfalsy : names = []).symm
  · rw [Bool.not_eq_false] at hfalsy
    rw [hfalsy, Bool.not_true, if_neg Bool.false_ne_true]
    have hblank : ¬ (true = false ∧ names = []) := by simp
    rw [or_iff_right hblank]
    cases v with
    | list items =>
      rw [Value.list.injEq]
      exact mapM_str?_eq_some_iff
    | scalar leaf => exact iff_of_false (fun h => by cases h) fun h => by cases h
    | map members => exact iff_of_false (fun h => by cases h) fun h => by cases h
    | set items => exact iff_of_false (fun h => by cases h) fun h => by cases h

/-- Lists of texts that are equal are the same list. -/
theorem eq_of_equal_texts {names names' : List String}
    (h : Equal (.list (names.map .str)) (.list (names'.map .str))) : names = names' := by
  cases h with
  | list length items =>
    induction names generalizing names' with
    | nil => exact (List.map_eq_nil_iff.mp (List.eq_nil_of_length_eq_zero length.symm)).symm
    | cons name rest ih =>
      cases names' with
      | nil => simp at length
      | cons name' rest' =>
        rw [List.map_cons, List.map_cons, List.zip_cons_cons, List.forall_mem_cons] at items
        obtain rfl : name = name' := by
          cases items.1 with
          | leaf hsame =>
            rcases hsame with h | ⟨q, hq, -⟩
            · exact Scalar.str.inj h
            · cases hq
        rw [ih (by simpa using length) items.2]

theorem namesOf_list_iff {items : List Value} {names : List String} :
    NamesOf IsFalsy (.list items) names ↔ items = names.map .str := by
  rw [NamesOf, Value.list.injEq]
  refine or_iff_right_of_imp ?_
  rintro ⟨hfalsy, rfl⟩
  simpa [IsFalsy, Value.isTruthy] using hfalsy

/-- Equal values list the same names. -/
theorem names_eq_of_equal {v w : Value} {names names' : List String} (h : Equal v w)
    (hnames : NamesOf IsFalsy v names) (hnames' : NamesOf IsFalsy w names') : names = names' := by
  cases h with
  | list length items =>
    rw [namesOf_list_iff] at hnames hnames'
    rw [hnames, hnames'] at length items
    exact eq_of_equal_texts (.list length items)
  | leaf _ | map _ _ =>
    rcases hnames with ⟨-, rfl⟩ | h
    · rcases hnames' with ⟨-, rfl⟩ | h
      · rfl
      · cases h
    · cases h

/-! ## Members -/

/-- Trees are alike under a key, where `blank` says what counts as no names under `required`. -/
inductive Alike (blank : Value → Prop) : String → Value → Value → Prop where
  | equal {key : String} {v w : Value} (h : Equal v w) : Alike blank key v w
  | required {key : String} {v w : Value} {names names' : List String} (under : key = "required")
      (old : NamesOf blank v names) (new : NamesOf blank w names')
      (same : ∀ name, name ∈ names ↔ name ∈ names') : Alike blank key v w
  | map {key : String} {xs ys : Members}
      (values : ∀ name, Alike blank name ((Members.get? xs name).getD .null)
        ((Members.get? ys name).getD .null)) : Alike blank key (.map xs) (.map ys)

/-- Values of which one is no mapping are compared as a whole or, under `required`, by the names
that they list. -/
theorem unchanged_iff_of_not_maps {key : String} {v w : Value}
    (h : v.isMap = false ∨ w.isMap = false) :
    Unchanged (.str key) v w ↔ compareMember "" (.str key) v w = [] := by
  unfold Unchanged
  rw [compareUnder_of_not_maps h]

/-- Outside mappings there is no change between values that are equal or, under `required`, list the
same names. -/
theorem compareMember_eq_nil_iff {path key : String} {v w : Value} (hv : JsonTree v)
    (hw : JsonTree w) :
    compareMember path (.str key) v w = []
      ↔ Equal v w ∨ key = "required" ∧ ∃ names names', NamesOf IsFalsy v names
        ∧ NamesOf IsFalsy w names' ∧ ∀ name, name ∈ names ↔ name ∈ names' := by
  unfold compareMember
  dsimp only
  rw [Option.toList_eq_nil_iff, Scalar.sameKey_str]
  split
  · rename_i old new hkey hold hnew
    rw [compareNames_eq_none_iff]
    constructor
    · intro h
      exact .inr ⟨beq_iff_eq.mp hkey, old, new, names?_eq_some_iff.mp hold,
        names?_eq_some_iff.mp hnew, h⟩
    · rintro (hequal | ⟨-, names, names', hnames, hnames', h⟩)
      · rw [names_eq_of_equal hequal (names?_eq_some_iff.mp hold) (names?_eq_some_iff.mp hnew)]
        exact fun _ => Iff.rfl
      · cases hold.symm.trans (names?_eq_some_iff.mpr hnames)
        cases hnew.symm.trans (names?_eq_some_iff.mpr hnames')
        exact h
  · rename_i hnone
    rw [compare_eq_none_iff, same_iff_equal hv hw]
    refine (or_iff_left ?_).symm
    rintro ⟨rfl, names, names', hnames, hnames', -⟩
    exact hnone names names' rfl (names?_eq_some_iff.mpr hnames) (names?_eq_some_iff.mpr hnames')

theorem unchanged_of_equal {v w : Value} (h : Equal v w) (hv : JsonTree v) (hw : JsonTree w) :
    ∀ key, Unchanged (.str key) v w := by
  induction h with
  | leaf hsame =>
    intro key
    rw [unchanged_iff_of_not_maps (.inl rfl), compareMember_eq_nil_iff hv hw]
    exact .inl (.leaf hsame)
  | list length items _ =>
    intro key
    rw [unchanged_iff_of_not_maps (.inl rfl), compareMember_eq_nil_iff hv hw]
    exact .inl (.list length items)
  | @map xs ys names _ ih =>
    intro key
    cases hv with
    | map keys values =>
      cases hw with
      | map keys' values' =>
        rw [unchanged_map_iff_get? keys keys']
        intro name
        cases hx : Members.get? xs name with
        | none =>
          have hy : Members.get? ys name = none := by
            rw [← Option.isNone_iff_eq_none, ← Option.isSome_eq_false_iff, ← names name, hx]
            rfl
          rw [hy]
          exact unchanged_null _
        | some v =>
          obtain ⟨w, hy⟩ := Option.isSome_iff_exists.mp ((names name).symm.trans (by rw [hx]; rfl))
          rw [hy]
          exact ih name v w hx hy (.of_get? values hx) (.of_get? values' hy) name

theorem alike_of_not_maps {key : String} {v w : Value} (hv : JsonTree v) (hw : JsonTree w)
    (hmap : v.isMap = false ∨ w.isMap = false) (h : Unchanged (.str key) v w) :
    Alike IsFalsy key v w := by
  rw [unchanged_iff_of_not_maps hmap, compareMember_eq_nil_iff hv hw] at h
  rcases h with hequal | ⟨hkey, names, names', hnames, hnames', hsame⟩
  · exact .equal hequal
  · exact .required hkey hnames hnames' hsame

theorem alike_of_unchanged {v : Value} (hv : JsonTree v) :
    ∀ {key : String} {w : Value}, JsonTree w → Unchanged (.str key) v w → Alike IsFalsy key v w := by
  induction hv with
  | leaf ha => exact fun hw h => alike_of_not_maps (.leaf ha) hw (.inl rfl) h
  | list hitems _ => exact fun hw h => alike_of_not_maps (.list hitems) hw (.inl rfl) h
  | @map members keys values ih =>
    intro key w hw h
    cases hw with
    | leaf hb => exact alike_of_not_maps (.map keys values) (.leaf hb) (.inr rfl) h
    | list hitems => exact alike_of_not_maps (.map keys values) (.list hitems) (.inr rfl) h
    | map keys' values' =>
      rw [unchanged_map_iff_get? keys keys'] at h
      refine .map fun name => ?_
      have hname := h name
      cases hget : Members.get? members name with
      | none =>
        rw [hget] at hname
        exact alike_of_not_maps (.leaf trivial) (.getD values' name) (.inl rfl) hname
      | some v =>
        rw [hget] at hname
        exact ih _ (Members.mem_of_get? hget) (.getD values' name) hname

theorem eq_nil_of_namesOf_map {members : Members} {names : List String}
    (h : NamesOf IsFalsy (.map members) names) : members = [] := by
  rcases h with ⟨hfalsy, -⟩ | h
  · simpa [IsFalsy, Value.isTruthy] using hfalsy
  · cases h

theorem unchanged_of_alike {key : String} {v w : Value} (h : Alike IsFalsy key v w)
    (hv : JsonTree v) (hw : JsonTree w) : Unchanged (.str key) v w := by
  induction h with
  | equal h => exact unchanged_of_equal h hv hw _
  | @required key v w names names' hkey hnames hnames' hsame =>
    by_cases hmap : v.isMap = false ∨ w.isMap = false
    · rw [unchanged_iff_of_not_maps hmap, compareMember_eq_nil_iff hv hw]
      exact .inr ⟨hkey, names, names', hnames, hnames', hsame⟩
    · cases hv with
      | leaf _ | list _ => exact absurd (.inl rfl) hmap
      | map _ _ =>
        cases hw with
        | leaf _ | list _ => exact absurd (.inr rfl) hmap
        | map _ _ =>
          -- two mappings that are read as no names are empty
          rw [eq_nil_of_namesOf_map hnames, eq_nil_of_namesOf_map hnames']
          exact unchanged_map_iff.mpr ⟨nofun, nofun⟩
  | map _ ih =>
    cases hv with
    | map keys values =>
      cases hw with
      | map keys' values' =>
        rw [unchanged_map_iff_get? keys keys']
        exact fun name => ih name (.getD values name) (.getD values' name)

/-- **There is no change exactly between trees that are alike**, under any key. -/
theorem unchanged_iff_alike {key : String} {v w : Value} (hv : JsonTree v) (hw : JsonTree w) :
    Unchanged (.str key) v w ↔ Alike IsFalsy key v w :=
  ⟨alike_of_unchanged hv hw, fun h => unchanged_of_alike h hv hw⟩

/-! ## No names -/

/-- Nothing that counts as absent stands for no names, but null and the empty list. -/
def IsListed (v : Value) : Prop := IsFalsy v → v = .null ∨ v = .list []

/-- Under `required` there is no false, no zero, no empty text and no empty mapping. -/
inductive RequiredListed : Value → Prop where
  | leaf (leaf : Scalar) : RequiredListed (.scalar leaf)
  | list (items : List Value) : RequiredListed (.list items)
  | map {members : Members}
      (required : ∀ v, Members.get? members "required" = some v → IsListed v)
      (values : ∀ name v, Members.get? members name = some v → RequiredListed v) :
      RequiredListed (.map members)

theorem NamesOf.null_of_listed {v : Value} {names : List String} (h : NamesOf IsFalsy v names)
    (hlisted : IsListed v) : NamesOf (· = .null) v names := by
  rcases h with ⟨hfalsy, rfl⟩ | h
  · exact (hlisted hfalsy).imp_left fun h => ⟨h, rfl⟩
  · exact .inr h

theorem NamesOf.falsy_of_null {v : Value} {names : List String} (h : NamesOf (· = .null) v names) :
    NamesOf IsFalsy v names := by
  rcases h with ⟨rfl, rfl⟩ | h
  · exact .inl ⟨rfl, rfl⟩
  · exact .inr h

theorem RequiredListed.getD {members : Members}
    (values : ∀ name v, Members.get? members name = some v → RequiredListed v) (name : String) :
    RequiredListed ((Members.get? members name).getD .null) := by
  cases h : Members.get? members name with
  | none => exact .leaf _
  | some v => exact values name v h

theorem isListed_getD {members : Members}
    (required : ∀ v, Members.get? members "required" = some v → IsListed v) {name : String}
    (hname : name = "required") : IsListed ((Members.get? members name).getD .null) := by
  subst hname
  cases h : Members.get? members "required" with
  | none => exact fun _ => .inl rfl
  | some v => exact required v h

theorem Alike.falsy_of_null {key : String} {v w : Value} (h : Alike (· = .null) key v w) :
    Alike IsFalsy key v w := by
  induction h with
  | equal h => exact .equal h
  | required hkey hold hnew same =>
    exact .required hkey hold.falsy_of_null hnew.falsy_of_null same
  | map _ ih => exact .map ih

/-- Where only null and the empty list stand for no names, it does not matter what else might. -/
theorem Alike.null_of_falsy {key : String} {v w : Value} (h : Alike IsFalsy key v w)
    (hv : RequiredListed v) (hw : RequiredListed w)
    (hkey : key = "required" → IsListed v ∧ IsListed w) : Alike (· = .null) key v w := by
  induction h with
  | equal h => exact .equal h
  | required hrequired hold hnew same =>
    obtain ⟨hold', hnew'⟩ := hkey hrequired
    exact .required hrequired (hold.null_of_listed hold') (hnew.null_of_listed hnew') same
  | map _ ih =>
    cases hv with
    | map required values =>
      cases hw with
      | map required' values' =>
        exact .map fun name => ih name (.getD values name) (.getD values' name)
          fun hname => ⟨isListed_getD required hname, isListed_getD required' hname⟩

/-- **A comparison finds nothing exactly between trees that are alike**, where under `required` all
that counts as absent stands for no names. Where nothing but null and the empty list does so, this
is likeness proper. -/
theorem no_change_iff_alike {old new : Members} (hold : JsonTree (.map old))
    (hnew : JsonTree (.map new)) (path : String) :
    (compareTrees {} path (some old) (some new) = [] ↔ Alike IsFalsy "" (.map old) (.map new))
      ∧ (RequiredListed (.map old) → RequiredListed (.map new) →
        (compareTrees {} path (some old) (some new) = []
          ↔ Alike (· = .null) "" (.map old) (.map new))) := by
  have halike : compareTrees {} path (some old) (some new) = []
      ↔ Alike IsFalsy "" (.map old) (.map new) := by
    rw [← unchanged_iff_alike hold hnew, unchanged_map_iff]
    exact compareMembers_eq_nil_iff
  refine ⟨halike, fun hlisted hlisted' => halike.trans ⟨fun h => ?_, Alike.falsy_of_null⟩⟩
  exact h.null_of_falsy hlisted hlisted' fun hroot => absurd hroot (by decide)

theorem jsonTree_texts (names : List String) : JsonTree (.list (names.map .str)) :=
  .list fun _ hv => by
    obtain ⟨name, -, rfl⟩ := List.mem_map.mp hv
    exact .leaf trivial

/-- Two trees that are alike: a number of another kind, a member that is null, and required names in
another order. -/
theorem no_change_of_reordered :
    let old : Members := [(.str "required", .list [.str "b", .str "a"]), (.str "limit", .int 1),
      (.str "note", .null)]
    let new : Members := [(.str "limit", .float (.finite false 1 0)),
      (.str "required", .list [.str "a", .str "b", .str "a"])]
    JsonTree (.map old) ∧ JsonTree (.map new) ∧ RequiredListed (.map old)
      ∧ RequiredListed (.map new) ∧ compareTrees {} "" (some old) (some new) = [] := by
  intro old new
  have hold : JsonTree (.map old) := by
    refine .map ⟨by simp [old], by simp [old]⟩ ?_
    simp only [old, List.forall_mem_cons]
    exact ⟨jsonTree_texts ["b", "a"], .leaf trivial, .leaf trivial, nofun⟩
  have hnew : JsonTree (.map new) := by
    refine .map ⟨by simp [new], by simp [new]⟩ ?_
    simp only [new, List.forall_mem_cons]
    exact ⟨.leaf (.inl rfl), jsonTree_texts ["a", "b", "a"], nofun⟩
  have hlisted : RequiredListed (.map old) := by
    refine .map ?_ ?_
    · simp [old, IsListed, IsFalsy, Value.isTruthy]
    · simp only [old, Members.get?_str_cons, Members.get?_nil]
      intro name v hv
      split_ifs at hv <;> cases hv
      · exact .list _
      · exact .leaf _
      · exact .leaf _
  have hlisted' : RequiredListed (.map new) := by
    refine .map ?_ ?_
    · simp [new, IsListed, IsFalsy, Value.isTruthy]
    · simp only [new, Members.get?_str_cons, Members.get?_nil]
      intro name v hv
      split_ifs at hv <;> cases hv
      · exact .leaf _
      · exact .list _
  have halike : Alike (· = .null) "" (.map old) (.map new) := by
    refine .map fun name => ?_
    simp only [old, new, Members.get?_str_cons, Members.get?_nil]
    by_cases hrequired : "required" = name
    · subst hrequired
      exact @Alike.required _ _ _ _ ["b", "a"] ["a", "b", "a"] rfl (.inr rfl) (.inr rfl)
        (by simp [or_comm])
    · rw [if_neg hrequired, if_neg hrequired]
      by_cases hlimit : "limit" = name
      · rw [if_pos hlimit, if_pos hlimit]
        have hone : number? (.float (.finite false 1 0)) = some 1 := by
          simp [number?, Double.value?, Double.signed]
        exact .equal (.leaf (.inr ⟨1, by simp [number?], hone⟩))
      · rw [if_neg hlimit, if_neg hlimit]
        split <;> exact .equal (.leaf (.inl rfl))
  exact ⟨hold, hnew, hlisted, hlisted',
    ((no_change_iff_alike hold hnew "").2 hlisted hlisted').mpr halike⟩

/-- False is taken for no names, so nothing is found when it is removed. -/
theorem false_required_unchanged :
    compareTrees {} "" (some [(.str "required", .bool false)]) (some []) = []
      ∧ ¬ Alike (· = .null) "" (.map [(.str "required", .bool false)]) (.map []) := by
  constructor
  · refine compareMembers_eq_nil_iff.mpr ⟨?_, nofun⟩
    rw [List.forall_mem_singleton]
    exact unchanged_of_alike (.required rfl (.inl ⟨rfl, rfl⟩) (.inl ⟨rfl, rfl⟩) fun _ => Iff.rfl)
      (.leaf trivial) (.leaf trivial)
  · intro h
    cases h with
    | equal h =>
      cases h with
      | map names _ => exact absurd (names "required") (by simp)
    | required hkey _ _ _ => exact absurd hkey (by decide)
    | map values =>
      have hrequired : Alike (· = .null) "required" (.bool false) .null := by
        simpa using values "required"
      cases hrequired with
      | equal h =>
        cases h with
        | leaf hsame =>
          rcases hsame with h | ⟨q, hq, -⟩
          · cases h
          · cases hq
      | required _ hold _ _ => rcases hold with ⟨h, -⟩ | h <;> cases h

end ApiContract.Drift
