import ApiContract.Codegen.Lines
import ApiContract.Proofs.Checked
import ApiContract.Proofs.Number.Rounding
import ApiContract.Proofs.Value.Lookup
import ApiContract.Schema.Shape
import Mathlib.Data.List.Nodup

/-!
# What has a JSON text, and what the text determines

A tree of mappings, lists and leaves of JSON has a text in every style, as long as none of its
integers has too many digits. So have its parts.

A text of JSON gives back what it was written from if the mappings have texts as keys, each once, if
the numbers have the one form that they are read in, and if there is nothing in it that JSON has no
form for. Such a value is *exact*.

* **`exists_writeValue`** — the text of a tree, by induction on it.
* **`succeeds_jsonLiteral`** — a tree as a literal of generated code.
* **`tree_chooseDescription`** / **`tree_of_properties?`** — what generators take of a tree.
* **`Exact.tree`** — an exact value has a text.
* **`IsRecord.exact`** — a mapping that is written member by member.
* **`plain_of_exact`** — an exact value is plain already.
-/

namespace ApiContract.Json

/-- A leaf of JSON. -/
def IsLeaf : Scalar → Prop
  | .null | .bool _ | .float _ | .str _ => True
  | .int n => (toString n.natAbs).length ≤ Number.maxDigits
  | .date _ | .dateTime _ | .bytes _ => False

/-- A tree of JSON: the keys of its mappings are texts. -/
inductive Tree : Value → Prop where
  | leaf {leaf : Scalar} (json : IsLeaf leaf) : Tree (.scalar leaf)
  | list {items : List Value} (values : ∀ v ∈ items, Tree v) : Tree (.list items)
  | map {members : Members} (keys : ∀ m ∈ members, ∃ name, m.1 = .str name)
      (values : ∀ m ∈ members, Tree m.2) : Tree (.map members)

theorem Tree.null : Tree .null := .leaf trivial

theorem Tree.str (s : String) : Tree (.str s) := .leaf trivial

theorem Tree.of_mem {members : Members} (h : Tree (.map members)) {m : Scalar × Value}
    (hm : m ∈ members) : Tree m.2 := by
  cases h with
  | map _ values => exact values m hm

/-- The parts of a tree are trees. -/
theorem Tree.get? {v found : Value} (h : Tree v) {name : String} (hget : v.get? name = some found) :
    Tree found := by
  cases h with
  | leaf _ => cases hget
  | list _ => cases hget
  | map keys values => exact values _ (Members.mem_of_get? hget)

theorem Tree.field {v : Value} (h : Tree v) (name : String) : Tree (v.field name) := by
  unfold Value.field
  cases hget : v.get? name with
  | none => exact .null
  | some found => exact h.get? hget

theorem Tree.insert {members : Members} (h : Tree (.map members)) (name : String) {v : Value}
    (hv : Tree v) : Tree (.map (Members.insert members (.str name) v)) := by
  cases h with
  | map keys values =>
    refine .map ?_ ?_
    · intro m hm
      rcases Members.key_of_mem_insert hm with hkey | ⟨m', hm', hkey⟩
      · exact ⟨name, hkey⟩
      · rw [hkey]
        exact keys m' hm'
    · intro m hm
      rcases Members.value_of_mem_insert hm with hvalue | hm
      · rw [hvalue]
        exact hv
      · exact values m hm

/-! ## Texts -/

theorem exists_writeInt? {n : Int} (h : (toString n.natAbs).length ≤ Number.maxDigits) :
    ∃ text, writeInt? n = some text := by
  have hlength : ¬Number.maxDigits < (toString n.natAbs).toList.length := by
    rw [String.length_toList]
    exact Nat.not_lt.mpr h
  exact ⟨_, if_neg hlength⟩

theorem exists_writeScalar (style : Style) {s : Scalar} (h : IsLeaf s) :
    ∃ text, writeScalar style s = some text := by
  cases s with
  | null => exact ⟨_, rfl⟩
  | bool b => exact ⟨_, rfl⟩
  | int n => exact exists_writeInt? h
  | float x => exact ⟨_, rfl⟩
  | str s => exact ⟨_, rfl⟩
  | date d => exact h.elim
  | dateTime t => exact h.elim
  | bytes b => exact h.elim

theorem exists_writeItems {style : Style} {depth : Nat} {items : List Value}
    (h : ∀ v ∈ items, ∃ text, writeValue style depth v = some text) :
    ∃ texts, writeItems style depth items = some texts := by
  induction items with
  | nil => exact ⟨[], rfl⟩
  | cons v rest ih =>
    obtain ⟨first, hfirst⟩ := h v List.mem_cons_self
    obtain ⟨others, hothers⟩ := ih fun v hv => h v (List.mem_cons_of_mem _ hv)
    refine ⟨first :: others, ?_⟩
    rw [writeItems, hfirst, hothers]
    rfl

theorem exists_writeMembers {style : Style} {depth : Nat} {members : Members}
    (hkeys : ∀ m ∈ members, ∃ name, m.1 = .str name)
    (h : ∀ m ∈ members, ∃ text, writeValue style depth m.2 = some text) :
    ∃ texts, writeMembers style depth members = some texts := by
  induction members with
  | nil => exact ⟨[], rfl⟩
  | cons m rest ih =>
    obtain ⟨name, hname⟩ := hkeys m List.mem_cons_self
    obtain ⟨first, hfirst⟩ := h m List.mem_cons_self
    obtain ⟨others, hothers⟩ := ih (fun m hm => hkeys m (List.mem_cons_of_mem _ hm))
      fun m hm => h m (List.mem_cons_of_mem _ hm)
    obtain ⟨k, v⟩ := m
    cases hname
    have hwritten : writeMembers style depth ((.str name, v) :: rest)
        = some ((writeString style.asciiOnly name ++ ':' :: ' ' :: first) :: others) := by
      rw [writeMembers, hfirst, hothers]
      rfl
    exact ⟨_, hwritten⟩

/-- **A tree has a text**, whatever the style and the depth. -/
theorem exists_writeValue (style : Style) {v : Value} (h : Tree v) (depth : Nat) :
    ∃ text, writeValue style depth v = some text := by
  induction h generalizing depth with
  | leaf json =>
    rw [writeValue]
    exact exists_writeScalar style json
  | list _ ih =>
    obtain ⟨texts, htexts⟩ := exists_writeItems fun v hv => ih v hv (depth + 1)
    exact ⟨_, by rw [writeValue, htexts]; rfl⟩
  | map keys _ ih =>
    obtain ⟨texts, htexts⟩ := exists_writeMembers keys fun m hm => ih m hm (depth + 1)
    exact ⟨_, by rw [writeValue, htexts]; rfl⟩

theorem exists_write? (style : Style) {v : Value} (h : Tree v) :
    ∃ text, write? style v = some text := by
  obtain ⟨text, htext⟩ := exists_writeValue style h 0
  exact ⟨String.ofList text, by rw [write?, htext]; rfl⟩

/-- **A tree as a literal.** -/
theorem succeeds_jsonLiteral {v : Value} (h : Tree v) : Succeeds (Codegen.jsonLiteral v) := by
  obtain ⟨text, htext⟩ := exists_write? .line h
  exact ⟨text, by rw [Codegen.jsonLiteral, htext]⟩

end ApiContract.Json

namespace ApiContract.Codegen

variable {schema given : Value}

/-- A description given by the caller, if any, is a text. -/
def IsGiven (given : Value) : Prop := given = .null ∨ ∃ text, given = .str text

/-- The description that counts is part of the tree. -/
theorem tree_chooseDescription (hgiven : IsGiven given) (h : Json.Tree schema) :
    Json.Tree (chooseDescription given schema) := by
  unfold chooseDescription
  split
  · rcases hgiven with rfl | ⟨text, rfl⟩
    · exact .null
    · exact .str text
  · exact h.field "description"

/-- The properties of a tree are trees. -/
theorem tree_of_properties? {properties : Members} (h : Json.Tree schema)
    (found : Schema.properties? schema = some properties) : ∀ p ∈ properties, Json.Tree p.2 := by
  unfold Schema.properties? at found
  split at found
  · rename_i members hget
    cases found
    exact fun p hp => (h.get? hget).of_mem hp
  · cases found

end ApiContract.Codegen

namespace ApiContract.Json

/-- A leaf that its text determines. -/
def IsExactLeaf : Scalar → Prop
  | .null | .bool _ | .str _ => True
  | .int n => (toString n.natAbs).length ≤ Number.maxDigits
  | .float x => x.IsBinary64
  | .date _ | .dateTime _ | .bytes _ => False

/-- A value that its text determines. -/
inductive Exact : Value → Prop where
  | leaf {leaf : Scalar} (exact : IsExactLeaf leaf) : Exact (.scalar leaf)
  | list {items : List Value} (values : ∀ v ∈ items, Exact v) : Exact (.list items)
  | map {members : Members} (text : ∀ m ∈ members, ∃ name, m.1 = .str name)
      (nodup : (members.map (·.1)).Nodup) (values : ∀ m ∈ members, Exact m.2) :
      Exact (.map members)

theorem Exact.null : Exact .null := .leaf trivial

theorem Exact.str (s : String) : Exact (.str s) := .leaf trivial

theorem Exact.bool (b : Bool) : Exact (.bool b) := .leaf trivial

theorem Exact.int {n : Int} (h : (toString n.natAbs).length ≤ Number.maxDigits) : Exact (.int n) :=
  .leaf h

theorem Exact.texts (items : List String) : Exact (.list (items.map .str)) := by
  refine .list fun v hv => ?_
  obtain ⟨s, -, rfl⟩ := List.mem_map.mp hv
  exact .str s

theorem Exact.emptyMap : Exact (.map []) :=
  .map (fun _ hm => absurd hm List.not_mem_nil) List.nodup_nil
    fun _ hm => absurd hm List.not_mem_nil

/-- **An exact value has a text.** -/
theorem Exact.tree {v : Value} (h : Exact v) : Tree v := by
  induction h with
  | @leaf leaf exact =>
    refine .leaf ?_
    cases leaf with
    | null | bool b | float x | str s => exact trivial
    | int n => exact exact
    | date d | dateTime t | bytes b => exact exact.elim
  | list _ ih => exact .list ih
  | map text _ _ ih => exact .map text ih

/-! ## Records -/

/-- Members under names, in the order of the names; some names may have none. -/
structure IsRecord (names : List String) (members : Members) : Prop where
  keys : List.Sublist (members.map (·.1)) (names.map .str)
  values : ∀ m ∈ members, Exact m.2

theorem isRecord_nil (names : List String) : IsRecord names [] where
  keys := List.nil_sublist _
  values _ hm := absurd hm List.not_mem_nil

theorem isRecord_member {v : Value} (name : String) (h : Exact v) :
    IsRecord [name] [member name v] where
  keys := List.Sublist.refl _
  values m hm := by
    rw [List.mem_singleton.mp hm]
    exact h

theorem isRecord_memberIf {α : Type} {toValue : α → Value} {v : Option α} (name : String)
    (h : ∀ a, v = some a → Exact (toValue a)) : IsRecord [name] (memberIf name toValue v) := by
  cases v with
  | none => exact isRecord_nil [name]
  | some a => exact isRecord_member name (h a rfl)

theorem IsRecord.append {names names' : List String} {members members' : Members}
    (h : IsRecord names members) (h' : IsRecord names' members') :
    IsRecord (names ++ names') (members ++ members') where
  keys := by
    rw [List.map_append, List.map_append]
    exact h.keys.append h'.keys
  values m hm := (List.mem_append.mp hm).elim (h.values m) (h'.values m)

theorem IsRecord.cons {names : List String} {members : Members} {v : Value} (name : String)
    (hv : Exact v) (h : IsRecord names members) :
    IsRecord (name :: names) (member name v :: members) := (isRecord_member name hv).append h

/-- **A record is exact** where its names differ. -/
theorem IsRecord.exact {names : List String} {members : Members} (h : IsRecord names members)
    (hnames : names.Nodup) : Exact (.map members) := by
  refine .map (fun m hm => ?_) ?_ h.values
  · obtain ⟨name, -, hname⟩ := List.mem_map.mp (h.keys.mem (List.mem_map_of_mem hm))
    exact ⟨name, hname.symm⟩
  · exact h.keys.nodup (hnames.map fun _ _ heq => Scalar.str.inj heq)

theorem plainScalar_of_exact {leaf : Scalar} (h : IsExactLeaf leaf) : plainScalar leaf = leaf := by
  cases leaf with
  | null | bool b | int n | str s => rfl
  | float x =>
    cases x with
    | finite negative m e => rfl
    | nan | infinite negative => exact h.elim
  | date d | dateTime t | bytes b => exact h.elim

theorem plainItems_of_plain {items : List Value} (h : ∀ v ∈ items, plain v = v) :
    plainItems items = items := by
  induction items with
  | nil => rfl
  | cons v rest ih =>
    rw [plainItems, h v List.mem_cons_self, ih fun v hv => h v (List.mem_cons_of_mem _ hv)]

theorem plainMembers_of_plain {members : Members} (text : ∀ m ∈ members, ∃ name, m.1 = .str name)
    (h : ∀ m ∈ members, plain m.2 = m.2) : plainMembers members = members := by
  induction members with
  | nil => rfl
  | cons m rest ih =>
    obtain ⟨name, hname⟩ := text m List.mem_cons_self
    obtain ⟨k, v⟩ := m
    cases hname
    rw [plainMembers, h _ List.mem_cons_self, ih (fun m hm => text m (List.mem_cons_of_mem _ hm))
      fun m hm => h m (List.mem_cons_of_mem _ hm)]
    rfl

/-- **An exact value is plain.** -/
theorem plain_of_exact {v : Value} (h : Exact v) : plain v = v := by
  induction h with
  | leaf exact => rw [plain, plainScalar_of_exact exact]
  | list _ ih => rw [plain, plainItems_of_plain ih]
  | map text _ _ ih => rw [plain, plainMembers_of_plain text ih]

end ApiContract.Json
