import ApiContract.Proofs.Number.Integer
import ApiContract.Proofs.Reference
import ApiContract.Proofs.Text.Marks
import ApiContract.Value.Record

/-!
# Pointers and paths

A pointer is cut at its slashes and its segments are unescaped, so a name is written with `~0` for a
tilde and `~1` for a slash. The order of the two replacements counts: what the first one leaves of an
escaped name has no `~1` that the second could make.

A path goes down a document by names and places. Its pointer is the text of its steps, escaped, behind
slashes; and a pointer is followed by its segments, one step each.

* **`unescape_escape`** — any name comes back.
* **`unescape_eq_self_iff`** — the segments in which there is nothing to undo.
* **`name_component_iff`** — the names that a pointer to a component may carry as they are.
* **`pointer_reads_back`** — the pointer of a path leads where the path leads.
* **`pointer_finds_iff`** — where any pointer leads. At a list its segment is read as any integer is, so
  a place may also be written with a sign, blanks or zeros, and a negative one counts from the end.
* **`not_names_of_negative`** — so what a pointer leads to is not always what it names.
-/

namespace ApiContract.Reference

open Contract (componentPath)
open Number (WritesInteger)
open Text (replacePair)

/-! ## Escaped names -/

/-- A character as it stands in a segment. -/
def escapeChar : Char → List Char
  | '~' => ['~', '0']
  | '/' => ['~', '1']
  | c => [c]

/-- The segment for a name: `~0` for a tilde, `~1` for a slash. -/
def escape (name : String) : List Char := name.toList.flatMap escapeChar

theorem escapeChar_cases (c : Char) :
    c = '~' ∧ escapeChar c = ['~', '0'] ∨ c = '/' ∧ escapeChar c = ['~', '1']
      ∨ c ≠ '~' ∧ c ≠ '/' ∧ escapeChar c = [c] := by
  unfold escapeChar
  split
  · exact .inl ⟨rfl, rfl⟩
  · exact .inr (.inl ⟨rfl, rfl⟩)
  · next htilde hslash => exact .inr (.inr ⟨htilde, hslash, rfl⟩)

/-- A segment has no slash. -/
theorem slash_notMem_escape (name : String) : '/' ∉ escape name := by
  intro h
  obtain ⟨c, -, hc⟩ := List.mem_flatMap.mp h
  rcases escapeChar_cases c with ⟨-, heq⟩ | ⟨-, heq⟩ | ⟨-, hslash, heq⟩
  · rw [heq] at hc
    exact absurd hc (by decide)
  · rw [heq] at hc
    exact absurd hc (by decide)
  · rw [heq, List.mem_singleton] at hc
    exact hslash hc.symm

/-- A name with its tildes escaped, but not its slashes. -/
def escapeTilde (c : Char) : List Char := if c = '~' then ['~', '0'] else [c]

/-- The slashes come back first. -/
theorem replacePair_slash (cs : List Char) :
    replacePair '~' '1' '/' (cs.flatMap escapeChar) = cs.flatMap escapeTilde := by
  induction cs with
  | nil => rfl
  | cons c rest ih =>
    rw [List.flatMap_cons, List.flatMap_cons]
    rcases escapeChar_cases c with ⟨rfl, heq⟩ | ⟨rfl, heq⟩ | ⟨htilde, -, heq⟩
    · -- no pair here, and none with what comes next either: a zero begins no pair
      show replacePair '~' '1' '/' ('~' :: '0' :: rest.flatMap escapeChar) = _
      rw [Text.replacePair_cons_cons_of_ne (by decide), Text.replacePair_cons_of_ne (by decide), ih]
      rfl
    · show replacePair '~' '1' '/' ('~' :: '1' :: rest.flatMap escapeChar) = _
      rw [Text.replacePair_pair, ih]
      rfl
    · rw [heq, escapeTilde, if_neg htilde, List.singleton_append, List.singleton_append,
        Text.replacePair_cons_of_ne htilde, ih]

/-- Then the tildes. -/
theorem replacePair_tilde (cs : List Char) :
    replacePair '~' '0' '~' (cs.flatMap escapeTilde) = cs := by
  induction cs with
  | nil => rfl
  | cons c rest ih =>
    rw [List.flatMap_cons, escapeTilde]
    split
    · next htilde =>
      subst htilde
      show replacePair '~' '0' '~' ('~' :: '0' :: rest.flatMap escapeTilde) = _
      rw [Text.replacePair_pair, ih]
    · next htilde =>
      rw [List.singleton_append, Text.replacePair_cons_of_ne htilde, ih]

/-- **Any name comes back** from its segment. -/
theorem unescape_escape (name : String) : unescape (escape name) = name := by
  unfold unescape escape
  rw [replacePair_slash, replacePair_tilde, String.ofList_toList]

/-! ## Names as they are -/

theorem length_unescape_le (segment : List Char) :
    (unescape segment).toList.length ≤ segment.length := by
  unfold unescape
  rw [String.toList_ofList]
  exact (Text.length_replacePair_le ..).trans (Text.length_replacePair_le ..)

/-- There is nothing to undo in a segment exactly if it has no escape. -/
theorem unescape_eq_self_iff {segment : List Char} :
    unescape segment = String.ofList segment
      ↔ ¬ ['~', '0'] <:+: segment ∧ ¬ ['~', '1'] <:+: segment := by
  unfold unescape
  rw [String.ofList_inj]
  constructor
  · intro h
    -- neither pass makes the text longer, so none makes it shorter
    have hlength := congrArg List.length h
    have hsecond := Text.length_replacePair_le '~' '0' '~' (replacePair '~' '1' '/' segment)
    have hslash : ¬ ['~', '1'] <:+: segment := by
      intro hinfix
      have := Text.length_replacePair_lt (c := '/') hinfix
      omega
    rw [Text.replacePair_of_not_infix hslash] at hlength
    refine ⟨fun hinfix => ?_, hslash⟩
    have := Text.length_replacePair_lt (c := '~') hinfix
    omega
  · rintro ⟨htilde, hslash⟩
    rw [Text.replacePair_of_not_infix hslash, Text.replacePair_of_not_infix htilde]

/-- A name that a pointer may carry as it is: without slashes and without escapes. -/
def IsLiteral (name : String) : Prop :=
  '/' ∉ name.toList ∧ ¬ ['~', '0'] <:+: name.toList ∧ ¬ ['~', '1'] <:+: name.toList

instance (name : String) : Decidable (IsLiteral name) := inferInstanceAs (Decidable (_ ∧ _ ∧ _))

theorem isLiteral_iff {name : String} :
    IsLiteral name ↔ '/' ∉ name.toList ∧ unescape name.toList = name := by
  unfold IsLiteral
  rw [← unescape_eq_self_iff, String.ofList_toList]

/-- A name between two plain texts, of which the second begins with no digit of an escape. -/
theorem IsLiteral.between {before name after : String} (h : IsLiteral name) (hbefore : IsPlain before)
    (hafter : IsPlain after) (hzero : after.toList.head? ≠ some '0')
    (hone : after.toList.head? ≠ some '1') : IsLiteral (before ++ (name ++ after)) := by
  unfold IsLiteral
  rw [String.toList_append, String.toList_append]
  refine ⟨?_, fun hinfix => ?_, fun hinfix => ?_⟩
  · rw [List.mem_append, List.mem_append]
    rintro (hmem | hmem | hmem)
    · exact hbefore.1 hmem
    · exact h.1 hmem
    · exact hafter.1 hmem
  · exact h.2.1 (Text.pair_infix_of_append_right hafter.2 hzero
      (Text.pair_infix_of_append hbefore.2 hinfix))
  · exact h.2.2 (Text.pair_infix_of_append_right hafter.2 hone
      (Text.pair_infix_of_append hbefore.2 hinfix))

/-- A pointer is named after what follows its last slash. -/
theorem name_of_last {pointer : String} {init last : List Char}
    (h : pointer.toList = init ++ '/' :: last) (hlast : '/' ∉ last) :
    Reference.name pointer = unescape last := by
  unfold Reference.name
  rw [h, List.splitOn_append_cons_self, List.splitOn_eq_singleton hlast, List.getLast?_concat]
  rfl

theorem exists_last_slash {cs : List Char} (h : '/' ∈ cs) :
    ∃ init last, cs = init ++ '/' :: last ∧ '/' ∉ last := by
  obtain ⟨last, init, heq, hlast⟩ := List.eq_append_cons_of_mem (List.mem_reverse.mpr h)
  refine ⟨init.reverse, last.reverse, ?_, fun hmem => hlast (List.mem_reverse.mp hmem)⟩
  rw [← List.reverse_reverse cs, heq, List.reverse_append, List.reverse_cons, List.append_assoc,
    List.singleton_append]

/-- **A pointer to a component names it** exactly if the component has a name that a pointer may carry
as it is. -/
theorem name_component_iff {name : String} :
    Reference.name (componentPath ++ name) = name ↔ IsLiteral name := by
  rw [isLiteral_iff]
  by_cases hslash : '/' ∈ name.toList
  · refine iff_of_false (fun h => ?_) fun h => h.1 hslash
    -- the pointer is named after a proper end of the name
    obtain ⟨init, last, heq, hlast⟩ := exists_last_slash hslash
    have hpointer : (componentPath ++ name).toList = (componentPath.toList ++ init) ++ '/' :: last := by
      rw [String.toList_append, heq, List.append_assoc]
    have hlength := congrArg List.length heq
    have hle := length_unescape_le last
    rw [← name_of_last hpointer hlast, h] at hle
    simp only [List.length_append, List.length_cons] at hlength
    omega
  · have hpointer : (componentPath ++ name).toList
        = "#/components/schemas".toList ++ '/' :: name.toList := by
      rw [String.toList_append]
      rfl
    rw [name_of_last hpointer hslash]
    exact (and_iff_right hslash).symm

/-! ## Paths -/

/-- A step down: to the member of a name, or to the item at a place, counted from nought. -/
inductive Place where
  | member (name : String)
  | item (index : Nat)
  deriving DecidableEq, Repr

namespace Place

/-- A step as it is written: an index in decimal, without sign, padding or leading zeros. -/
def text : Place → String
  | member name => name
  | item index => toString index

/-- The node that a step leads to. -/
def find? (node : Value) : Place → Option Value
  | member name => node.get? name
  | item index =>
    match node with
    | .list items => items[index]?
    | _ => none

/-- Whether a step can be read back: an index of too many digits cannot. No list is as long. -/
def IsReadable : Place → Prop
  | member _ => True
  | item index => (toString index).length ≤ Number.maxDigits

end Place

/-- The node that a path leads to. -/
def nodeAt? (document : Value) (path : List Place) : Option Value :=
  path.foldlM Place.find? document

/-- The pointer for a path: its steps in order, each escaped and behind a slash. -/
def pointerTo (path : List Place) : String :=
  String.ofList ('#' :: '/' :: ['/'].intercalate (path.map fun place => escape place.text))

variable {document node child v : Value} {path : List Place} {segments : List String}

theorem nodeAt?_cons (node : Value) (place : Place) (rest : List Place) :
    nodeAt? node (place :: rest) = (place.find? node).bind fun child => nodeAt? child rest := rfl

theorem step_map (members : Members) (segment : String) :
    step (.map members) segment = Members.get? members segment := rfl

theorem step_list (items : List Value) (segment : String) :
    step (.list items) segment = (Number.int? segment).bind (itemAt items) := rfl

/-! ## From a path to its pointer and back -/

theorem segments?_pointerTo (h : path ≠ []) :
    segments? (pointerTo path) = some (path.map Place.text) := by
  have hslash : ∀ segment ∈ path.map fun place => escape place.text, '/' ∉ segment := by
    intro segment hsegment
    obtain ⟨place, -, rfl⟩ := List.mem_map.mp hsegment
    exact slash_notMem_escape place.text
  unfold segments? pointerTo
  rw [String.toList_ofList]
  show some (((['/'].intercalate _).splitOn '/').map unescape) = _
  rw [List.splitOn_intercalate '/' hslash (by simpa using h), List.map_map]
  exact congrArg some (List.map_congr_left fun place _ => unescape_escape place.text)

/-- A step that leads to a node is one for the text of the step as well. -/
theorem step_text {place : Place} (h : place.find? node = some child) (hreadable : place.IsReadable) :
    step node place.text = some child := by
  cases place with
  | member name => exact step_of_get? h
  | item index =>
    cases node with
    | list items =>
      have hread : Number.int? (toString index) = some (index : Int) :=
        (Number.int?_toString index).trans (if_pos hreadable)
      rw [Place.text, step_list, hread, Option.bind_some, itemAt,
        if_pos (Int.natCast_nonneg index), Int.toNat_natCast]
      exact h
    | map members => cases h
    | scalar leaf => cases h
    | set items => cases h

theorem foldlM_step_text (h : nodeAt? node path = some v) (hreadable : ∀ place ∈ path, place.IsReadable) :
    (path.map Place.text).foldlM step node = some v := by
  induction path generalizing node with
  | nil => exact h
  | cons place rest ih =>
    rw [nodeAt?_cons] at h
    obtain ⟨child, hchild, hrest⟩ := Option.bind_eq_some_iff.mp h
    rw [List.map_cons, List.foldlM_cons,
      step_text hchild (hreadable place List.mem_cons_self)]
    exact ih hrest fun p hp => hreadable p (List.mem_cons_of_mem _ hp)

/-- What a local pointer leads to, without a null value. -/
theorem resolvePointer_of_segments? {pointer : String} (h : segments? pointer = some segments) :
    resolvePointer document pointer
      = (segments.foldlM step document).filter (!·.isNull) := by
  unfold resolvePointer
  rw [h]
  cases hfound : segments.foldlM step document with
  | none => simp [hfound]
  | some found => cases hnull : found.isNull <;> simp [hfound, hnull, Option.filter_some]

/-- A local pointer leads to the values that its segments lead to, but to no null value. -/
theorem resolvePointer_eq_some_iff {pointer : String} :
    resolvePointer document pointer = some v
      ↔ v.isNull = false ∧ ∃ segments, segments? pointer = some segments
          ∧ segments.foldlM step document = some v := by
  cases hsegments : segments? pointer with
  | none =>
    have hnone : resolvePointer document pointer = none := by
      unfold resolvePointer
      rw [hsegments]
      rfl
    rw [hnone]
    exact iff_of_false nofun fun ⟨_, _, h, _⟩ => nomatch h
  | some segments =>
    rw [resolvePointer_of_segments? hsegments, Option.filter_eq_some_iff]
    constructor
    · rintro ⟨hfound, hnull⟩
      exact ⟨by simpa using hnull, segments, rfl, hfound⟩
    · rintro ⟨hnull, _, hsame, hfound⟩
      cases hsame
      exact ⟨hfound, by simpa using hnull⟩

/-- **The pointer of a path leads where the path leads**, and is named after its last step. A null
value is not told from none. -/
theorem pointer_reads_back (document node : Value) (path : List Place) (hne : path ≠ [])
    (hpath : nodeAt? document path = some node) (hreadable : ∀ place ∈ path, place.IsReadable) :
    resolvePointer document (pointerTo path) = (if node.isNull then none else some node)
      ∧ Reference.name (pointerTo path) = (path.getLast hne).text := by
  have hsegments := segments?_pointerTo hne
  constructor
  · rw [resolvePointer_of_segments? hsegments, foldlM_step_text hpath hreadable, Option.filter_some]
    cases node.isNull <;> rfl
  · refine name_of_segments? hsegments ?_
    rw [List.getLast?_map, List.getLast?_eq_some_getLast hne]
    rfl

/-- A document with names that look like escapes. -/
def escapes : Value :=
  record [("~1", record [("a/b", .list [.null, record [("", .str "found")]])])]

/-- Every escape is undone once. -/
theorem pointer_of_escapes_reads_back :
    nodeAt? escapes [.member "~1", .member "a/b", .item 1, .member ""] = some (.str "found")
      ∧ resolvePointer escapes "#/~01/a~1b/1/" = some (.str "found")
      ∧ Reference.name "#/~01/a~1b/1/" = "" := by
  have hpath : nodeAt? escapes [.member "~1", .member "a/b", .item 1, .member ""]
      = some (.str "found") := by rfl
  have hreadable : ∀ place ∈ [Place.member "~1", .member "a/b", .item 1, .member ""],
      place.IsReadable := by
    have hone : (toString 1).length ≤ Number.maxDigits := by decide
    simp only [List.forall_mem_cons]
    exact ⟨trivial, trivial, hone, trivial, nofun⟩
  exact ⟨hpath, pointer_reads_back _ _ _ (List.cons_ne_nil _ _) hpath hreadable⟩

/-! ## Where a pointer leads -/

/-- The way that segments take down a tree, and its end. At a list a segment is any text that writes an
integer; what it writes is a place counted from the start, or from the end if it is negative. -/
inductive Walk : Value → List String → List Place → Value → Prop where
  | here (v : Value) : Walk v [] [] v
  | member {members : Members} {child v : Value} {segment : String} {segments : List String}
      {path : List Place} (hchild : Members.get? members segment = some child)
      (rest : Walk child segments path v) :
      Walk (.map members) (segment :: segments) (.member segment :: path) v
  | item {items : List Value} {child v : Value} {segment : String} {segments : List String}
      {path : List Place} {n : Int} {index : Nat} (hwrites : WritesInteger segment.toList n)
      (hindex : n = index ∨ n + items.length = index) (hchild : items[index]? = some child)
      (rest : Walk child segments path v) :
      Walk (.list items) (segment :: segments) (.item index :: path) v

theorem itemAt_eq_some_iff {items : List Value} {n : Int} :
    itemAt items n = some child
      ↔ ∃ index : Nat, (n = index ∨ n + items.length = index) ∧ items[index]? = some child := by
  unfold itemAt
  constructor
  · intro h
    split at h
    · exact ⟨n.toNat, by omega, h⟩
    · split at h
      · exact ⟨items.length - n.natAbs, by omega, h⟩
      · cases h
  · rintro ⟨index, hindex, hchild⟩
    have hlt : index < items.length := (List.getElem?_eq_some_iff.mp hchild).1
    split
    · have heq : n.toNat = index := by omega
      rw [heq, hchild]
    · have heq : items.length - n.natAbs = index := by omega
      rw [if_pos (by omega), heq, hchild]

/-- **The segments of a pointer lead where they walk.** -/
theorem foldlM_step_eq_some_iff :
    segments.foldlM step document = some v ↔ ∃ path, Walk document segments path v := by
  constructor
  · intro h
    induction segments generalizing document with
    | nil =>
      cases h
      exact ⟨[], .here _⟩
    | cons segment rest ih =>
      obtain ⟨child, hchild, hrest⟩ := Option.bind_eq_some_iff.mp h
      obtain ⟨path, hwalk⟩ := ih hrest
      cases document with
      | map members => exact ⟨_, .member hchild hwalk⟩
      | list items =>
        obtain ⟨n, hn, hitem⟩ := Option.bind_eq_some_iff.mp hchild
        obtain ⟨index, hindex, hchild⟩ := itemAt_eq_some_iff.mp hitem
        exact ⟨_, .item (Number.int?_eq_some_iff.mp hn) hindex hchild hwalk⟩
      | scalar leaf => cases hchild
      | set items => cases hchild
  · rintro ⟨path, h⟩
    induction h with
    | here v => rfl
    | member hchild _ ih =>
      rw [List.foldlM_cons, step_map, hchild]
      exact ih
    | item hwrites hindex hchild _ ih =>
      rw [List.foldlM_cons, step_list, Number.int?_eq_some_iff.mpr hwrites, Option.bind_some,
        itemAt_eq_some_iff.mpr ⟨_, hindex, hchild⟩]
      exact ih

/-! ## What a pointer names -/

/-- The pointer names the value: its segments, unescaped, are the text of a path to it. -/
def Names (document : Value) (pointer : String) (v : Value) : Prop :=
  ∃ path : List Place, segments? pointer = some (path.map Place.text) ∧ nodeAt? document path = some v

/-- A walk goes along its path. -/
theorem nodeAt?_of_walk (h : Walk document segments path v) : nodeAt? document path = some v := by
  induction h with
  | here v => rfl
  | member hchild _ ih => exact Option.bind_eq_some_iff.mpr ⟨_, hchild, ih⟩
  | item _ _ hchild _ ih => exact Option.bind_eq_some_iff.mpr ⟨_, hchild, ih⟩

/-- Where a place is written in decimal, the walk takes it as it is written. -/
theorem Walk.eq_of_text {named : List Place} (h : Walk document segments path v)
    (htext : named.map Place.text = segments) (hnamed : nodeAt? document named = some v) :
    path = named := by
  induction h generalizing named with
  | here v => exact (List.map_eq_nil_iff.mp htext).symm
  | @member members child v segment segments path hchild _ ih =>
    obtain ⟨place, rest, rfl, hplace, hrest⟩ := List.map_eq_cons_iff.mp htext
    rw [nodeAt?_cons] at hnamed
    obtain ⟨child', hchild', hnamed⟩ := Option.bind_eq_some_iff.mp hnamed
    cases place with
    | item index => cases hchild'
    | member name =>
      subst hplace
      cases hchild.symm.trans hchild'
      rw [ih hrest hnamed]
      rfl
  | @item items child v segment segments path n index hwrites hindex hchild _ ih =>
    obtain ⟨place, rest, rfl, hplace, hrest⟩ := List.map_eq_cons_iff.mp htext
    rw [nodeAt?_cons] at hnamed
    obtain ⟨child', hchild', hnamed⟩ := Option.bind_eq_some_iff.mp hnamed
    cases place with
    | member name => cases hchild'
    | item index' =>
      subst hplace
      -- the decimal form of a place writes that place and nothing else
      have hn : n = index' := by
        have hread := Number.int?_eq_some_iff.mpr hwrites
        rw [Place.text, Number.int?_toString] at hread
        split at hread
        · exact (Option.some.inj hread).symm
        · cases hread
      have hlt : index < items.length := (List.getElem?_eq_some_iff.mp hchild).1
      have heq : index = index' := by omega
      subst heq
      cases hchild.symm.trans hchild'
      rw [ih hrest hnamed]

/-- **Where a pointer leads.** It begins with `#/`, its segments walk to a value, and the value is not
null; any other pointer leads nowhere. The pointer names the value exactly if every place of a list
is written in decimal. -/
theorem pointer_finds_iff (document : Value) (pointer : String) (v : Value) :
    (resolvePointer document pointer = some v
      ↔ v.isNull = false ∧ ∃ segments path, segments? pointer = some segments
          ∧ Walk document segments path v)
    ∧ ∀ segments path, segments? pointer = some segments → Walk document segments path v →
        (Names document pointer v ↔ segments = path.map Place.text) := by
  constructor
  · rw [resolvePointer_eq_some_iff]
    refine and_congr_right fun _ => exists_congr fun segments => ?_
    rw [foldlM_step_eq_some_iff, exists_and_left]
  · intro segments path hsegments hwalk
    constructor
    · rintro ⟨named, hnamed, hnode⟩
      have htext : named.map Place.text = segments := Option.some.inj (hnamed.symm.trans hsegments)
      rw [hwalk.eq_of_text htext hnode, htext]
    · rintro rfl
      exact ⟨path, hsegments, nodeAt?_of_walk hwalk⟩

/-- A document with a list of two texts. -/
def servers : Value := record [("servers", .list [.str "first", .str "last"])]

/-- **A negative place leads to an item**, but names none. -/
theorem not_names_of_negative :
    ¬ ∀ (document : Value) (pointer : String) (v : Value),
        resolvePointer document pointer = some v → Names document pointer v := by
  intro h
  have hsegments : segments? "#/servers/-1" = some ["servers", "-1"] := by decide
  obtain ⟨named, hnamed, hnode⟩ := h servers "#/servers/-1" (.str "last") (by decide)
  have htext : named.map Place.text = ["servers", "-1"] :=
    Option.some.inj (hnamed.symm.trans hsegments)
  have hn : Number.int? "-1" = some (-1) := by decide
  have hwalk : Walk servers ["servers", "-1"] [.member "servers", .item 1] (.str "last") :=
    .member rfl (.item (Number.int?_eq_some_iff.mp hn) (.inr rfl) rfl (.here _))
  rw [← hwalk.eq_of_text htext hnode] at htext
  exact absurd htext (by decide)

end ApiContract.Reference
