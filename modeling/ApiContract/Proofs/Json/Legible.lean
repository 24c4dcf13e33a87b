import ApiContract.Proofs.Json.ReadBack
import ApiContract.Proofs.Number.Integer
import ApiContract.Proofs.Text.Marks

/-!
# Values that come from a text

What the reader gives is *legible*: its integers are not too long to be written, and its numbers have
the form in which they are read back. A text of the writer has no carriage return, so that unifying
the line ends of a file leaves it as it is.

* **`legible_read`** — what is read, by induction on the fuel of the reader.
* **`read_of_long`** — digits that are too many to be read.
* **`notMem_writeValue`** — the characters of a text that is written.
* **`read_file`** — the text of a mapping in a file.
-/

namespace ApiContract.Json

variable {fuel : Nat} {cs rest whole : List Char} {v : Value}

/-- A value with legible leaves at any depth. -/
inductive Legible : Value → Prop where
  | leaf {leaf : Scalar} (legible : IsLegibleLeaf leaf) : Legible (.scalar leaf)
  | list {items : List Value} (values : ∀ v ∈ items, Legible v) : Legible (.list items)
  | map {members : Members} (values : ∀ m ∈ members, Legible m.2) : Legible (.map members)

theorem Legible.get? {found : Value} (h : Legible v) {name : String}
    (hget : v.get? name = some found) : Legible found := by
  cases h with
  | leaf _ => cases hget
  | list _ => cases hget
  | map values => exact values _ (Members.mem_of_get? hget)

theorem Legible.insert {members : Members} (h : ∀ m ∈ members, Legible m.2) (key : Scalar)
    (hv : Legible v) : ∀ m ∈ Members.insert members key v, Legible m.2 := by
  intro m hm
  rcases Members.value_of_mem_insert hm with hvalue | hm
  · rw [hvalue]
    exact hv
  · exact h m hm

theorem Legible.ofList {pairs : List (Scalar × Value)} (h : ∀ m ∈ pairs, Legible m.2) :
    ∀ m ∈ Members.ofList pairs, Legible m.2 := by
  have hfold : ∀ (pairs : List (Scalar × Value)) (members : Members), (∀ m ∈ pairs, Legible m.2) →
      (∀ m ∈ members, Legible m.2) →
      ∀ m ∈ pairs.foldl (fun members m => Members.insert members m.1 m.2) members, Legible m.2 := by
    intro pairs
    induction pairs with
    | nil => exact fun members _ hmembers => hmembers
    | cons pair rest ih =>
      intro members hpairs hmembers
      obtain ⟨hpair, hrest⟩ := List.forall_mem_cons.mp hpairs
      exact ih _ hrest (Legible.insert hmembers pair.1 hpair)
  exact hfold pairs [] h fun m hm => absurd hm List.not_mem_nil

/-! ## Numbers -/

theorem isDigit_of_takeWhole (h : takeWhole cs = some (whole, rest)) :
    whole ≠ [] ∧ ∀ c ∈ whole, c.isDigit = true := by
  unfold takeWhole at h
  split at h
  · cases h
    exact ⟨List.cons_ne_nil _ _, by simp⟩
  · split at h
    · cases h
    · rename_i hne
      cases h
      exact ⟨fun hnil => hne _ (Prod.ext hnil rfl), fun c hc => List.mem_takeWhile_imp hc⟩

/-- Digits have the value that they write in any other text. -/
theorem decimal_eq_ofDigits (digits : List Char) :
    decimal digits = Number.ofDigits 10 (digits.map fun c => c.toNat - 48) := by
  rw [Number.ofDigits, List.foldl_map]
  rfl

theorem legible_of_readNumber {negative : Bool}
    (h : readNumber negative cs = some (.ok (v, rest))) : Legible v := by
  obtain ⟨⟨whole, after⟩, hwhole, h⟩ := Option.map_eq_some_iff.mp h
  dsimp only at h
  split at h
  · split at h
    · cases h
    · rename_i hlength
      cases h
      obtain ⟨hne, hdigits⟩ := isDigit_of_takeWhole hwhole
      have hshort := (Number.digits_of_isDigit hne hdigits).length_le
      rw [← decimal_eq_ofDigits, List.length_map] at hshort
      have hvalue : (if negative then -(decimal whole : Int) else decimal whole).natAbs
          = decimal whole := by
        split <;> omega
      refine .leaf ?_
      show (toString (Int.natAbs _)).length ≤ Number.maxDigits
      rw [hvalue]
      exact hshort.trans (Nat.not_lt.mp hlength)
  · cases h
    exact .leaf (Double.isCanonical_ofDecimal _ _ _)

theorem legible_of_mem_words : ∀ word ∈ words, Legible word.2 := by
  intro word hword
  simp only [words, List.mem_cons, List.not_mem_nil, or_false] at hword
  rcases hword with rfl | rfl | rfl | rfl | rfl | rfl <;> exact .leaf trivial

theorem legible_of_readAtom (h : readAtom cs = .ok (v, rest)) : Legible v := by
  unfold readAtom at h
  split at h
  · rename_i found hfound
    obtain ⟨word, hword, hfound⟩ := List.exists_of_findSome?_eq_some hfound
    obtain ⟨after, -, rfl⟩ := Option.map_eq_some_iff.mp hfound
    cases h
    exact legible_of_mem_words word hword
  · have hnumber : ∀ {number : Option (Except Fault (Value × List Char))} {fault : Fault},
        number.getD (.error fault) = .ok (v, rest) → number = some (.ok (v, rest)) := by
      intro number fault hsome
      cases number with
      | none => cases hsome
      | some result => exact congrArg some hsome
    dsimp only at h
    split at h
    · exact legible_of_readNumber (hnumber h)
    · exact legible_of_readNumber (hnumber h)

/-! ## Structures -/

/-- What each of the three readers gives. -/
structure LegibleWithin (fuel : Nat) : Prop where
  value : ∀ {cs v rest}, readValue fuel cs = .ok (v, rest) → Legible v
  items : ∀ {cs items rest}, readItems fuel cs = .ok (items, rest) → ∀ v ∈ items, Legible v
  members : ∀ {cs members rest}, readMembers fuel cs = .ok (members, rest) →
    ∀ m ∈ members, Legible m.2

theorem LegibleWithin.readValue (ih : LegibleWithin fuel)
    (h : readValue (fuel + 1) cs = .ok (v, rest)) : Legible v := by
  unfold Json.readValue at h
  split at h
  · obtain ⟨⟨s, after⟩, -, h⟩ := bind_eq_ok.mp h
    cases h
    exact .leaf trivial
  · split at h
    · cases h
      exact .list fun v hv => absurd hv List.not_mem_nil
    · obtain ⟨⟨items, after⟩, hitems, h⟩ := bind_eq_ok.mp h
      cases h
      exact .list (ih.items hitems)
  · split at h
    · cases h
      exact .map fun m hm => absurd hm List.not_mem_nil
    · obtain ⟨⟨members, after⟩, hmembers, h⟩ := bind_eq_ok.mp h
      cases h
      exact .map (Legible.ofList (ih.members hmembers))
  · exact legible_of_readAtom h

theorem LegibleWithin.readItems {items : List Value} (ih : LegibleWithin fuel)
    (h : readItems (fuel + 1) cs = .ok (items, rest)) : ∀ v ∈ items, Legible v := by
  unfold Json.readItems at h
  obtain ⟨⟨v, after⟩, hv, h⟩ := bind_eq_ok.mp h
  have hfirst := ih.value hv
  dsimp only at h
  split at h
  · cases h
    exact fun w hw => List.mem_singleton.mp hw ▸ hfirst
  · obtain ⟨⟨others, after⟩, hothers, h⟩ := bind_eq_ok.mp h
    cases h
    exact List.forall_mem_cons.mpr ⟨hfirst, ih.items hothers⟩
  · cases h

theorem LegibleWithin.readMembers {members : List (Scalar × Value)} (ih : LegibleWithin fuel)
    (h : readMembers (fuel + 1) cs = .ok (members, rest)) : ∀ m ∈ members, Legible m.2 := by
  unfold Json.readMembers at h
  split at h
  · obtain ⟨⟨name, after⟩, -, h⟩ := bind_eq_ok.mp h
    dsimp only at h
    split at h
    · obtain ⟨⟨v, after⟩, hv, h⟩ := bind_eq_ok.mp h
      have hfirst := ih.value hv
      dsimp only at h
      split at h
      · cases h
        exact fun m hm => List.mem_singleton.mp hm ▸ hfirst
      · obtain ⟨⟨others, after⟩, hothers, h⟩ := bind_eq_ok.mp h
        cases h
        exact List.forall_mem_cons.mpr ⟨hfirst, ih.members hothers⟩
      · cases h
    · cases h
  · cases h

theorem legibleWithin (fuel : Nat) : LegibleWithin fuel := by
  induction fuel with
  | zero =>
    refine ⟨fun h => ?_, fun h => ?_, fun h => ?_⟩
    · rw [readValue] at h
      cases h
    · rw [readItems] at h
      cases h
    · rw [readMembers] at h
      cases h
  | succ fuel ih => exact ⟨ih.readValue, ih.readItems, ih.readMembers⟩

theorem read_eq_ok {text : String} : read text = .ok v ↔ readText text.toList = .ok v := by
  unfold read
  dsimp only
  cases readText text.toList with
  | error fault => exact ⟨nofun, nofun⟩
  | ok found => exact ⟨fun h => congrArg _ (Except.ok.inj h), fun h => congrArg _ (Except.ok.inj h)⟩

/-- **What is read from a text is legible.** -/
theorem legible_read {text : String} (h : read text = .ok v) : Legible v := by
  have hread := read_eq_ok.mp h
  unfold readText at hread
  split at hread
  · cases hread
  · obtain ⟨⟨found, after⟩, hfound, hread⟩ := bind_eq_ok.mp hread
    dsimp only at hread
    split at hread
    · cases hread
      exact (legibleWithin _).value hfound
    · cases hread

/-! ## Digits that are too many -/

theorem readNumber_of_long {digits : List Char} (hwhole : IsWhole digits)
    (hlong : maxDigits < digits.length) (negative : Bool) :
    readNumber negative digits = some (.error (.tooManyDigits digits.length)) := by
  have hends : Ends [] := nofun
  have htake := takeWhole_append hwhole hends.digitFree
  rw [List.append_nil] at htake
  rw [readNumber, htake]
  simp only [Option.map_some, hends.takeFraction, hends.takeExponent, List.isEmpty_nil,
    Option.isNone_none, Bool.and_self, if_true]
  rw [if_pos hlong]

/-- **Digits that are too many** are read up to their end, and refused then. -/
theorem read_of_long {digits : List Char} (hwhole : IsWhole digits)
    (hlong : maxDigits < digits.length) :
    read (String.ofList digits) = .error (.tooManyDigits digits.length) := by
  have hatom : readAtom digits = .error (.tooManyDigits digits.length) :=
    readAtom_of_readNumber (readNumber_of_long hwhole hlong false)
  obtain ⟨c, more, rfl⟩ := List.exists_cons_of_ne_nil hwhole.ne_nil
  have hc : BeginsAtom c := .inl (hwhole.digit c List.mem_cons_self)
  have hvalue : ∀ fuel, readValue (fuel + 1) (c :: more)
      = .error (.tooManyDigits (c :: more).length) := by
    intro fuel
    rw [readValue]
    · exact hatom
    all_goals
      intro rest heq
      exact hc.ne (by decide) (List.cons.inj heq).1
  obtain ⟨d, tail, heq, hspace, -⟩ := hc.begins more
  cases heq
  have htext : readText (c :: more) = .error (.tooManyDigits (c :: more).length) := by
    have hmark : ¬ (c :: more).head? = some '\ufeff' := fun h =>
      hc.ne (by decide) (Option.some.inj h)
    rw [readText, if_neg hmark, skipSpace_cons hspace, hvalue]
    rfl
  unfold read
  dsimp only
  rw [String.toList_ofList, htext]
  rfl

/-! ## The characters of a text -/

section Characters

open Double

variable {c : Char} {digits : List Char}

/-- A character that stands in no number, nor in a word for one. -/
structure OutsideNumbers (c : Char) : Prop where
  digit : c.isDigit = false
  other : c ∉ ['-', '+', '.', 'e', 'N', 'a', 'I', 'n', 'f', 'i', 't', 'y']

instance (c : Char) : Decidable (OutsideNumbers c) :=
  decidable_of_iff (c.isDigit = false ∧ c ∉ ['-', '+', '.', 'e', 'N', 'a', 'I', 'n', 'f', 'i', 't', 'y'])
    ⟨fun h => ⟨h.1, h.2⟩, fun h => ⟨h.digit, h.other⟩⟩

theorem notMem_toDigits {c : Char} (hc : c.isDigit = false) (n : Nat) : c ∉ Nat.toDigits 10 n := by
  intro hmem
  have hdigit := Nat.isDigit_of_mem_toDigits (by decide) (by decide) hmem
  rw [hc] at hdigit
  cases hdigit

theorem notMem_padLeft (hc : c ≠ '0') (h : c ∉ digits) (width : Nat) : c ∉ padLeft width digits := by
  unfold padLeft
  simp [hc, h]

theorem notMem_exponentText (hc : c.isDigit = false) (hsign : c ∉ ['e', '+', '-']) (x : Int) :
    c ∉ exponentText x := by
  have hzero : c ≠ '0' := by
    rintro rfl
    cases hc
  have hdigits := notMem_toDigits hc x.natAbs
  simp only [List.mem_cons, List.not_mem_nil, or_false, not_or] at hsign
  unfold exponentText
  simp only [List.mem_cons, not_or]
  refine ⟨hsign.1, ?_, notMem_padLeft hzero hdigits 2⟩
  split
  · exact hsign.2.2
  · exact hsign.2.1

theorem notMem_positional (hc : c ∉ ['0', '.']) (h : c ∉ digits) (point : Int) (keepPoint : Bool) :
    c ∉ positional digits point keepPoint := by
  simp only [List.mem_cons, List.not_mem_nil, or_false, not_or] at hc
  obtain ⟨hzero, hpoint⟩ := hc
  unfold positional
  split
  · simp [hzero, hpoint, h]
  split
  · have htake : c ∉ digits.take point.toNat := fun hmem => h (List.mem_of_mem_take hmem)
    have hdrop : c ∉ digits.drop point.toNat := fun hmem => h (List.mem_of_mem_drop hmem)
    simp [htake, hdrop, hpoint]
  · split <;> simp [hzero, hpoint, h]

theorem notMem_scientific {x : Int} (hc : c ≠ '.') (h : c ∉ digits) (hx : c ∉ exponentText x) :
    c ∉ scientific digits x := by
  unfold scientific
  split
  · exact List.not_mem_nil
  · simpa [hx] using h
  · simp_all

theorem notMem_text_finite (hc : OutsideNumbers c) (negative : Bool) {m : Nat} (hm : m ≠ 0) (e : Int) :
    c ∉ (finite negative m e).text.toList := by
  have hzero : c ≠ '0' := by
    rintro rfl
    cases hc.digit
  have hother := hc.other
  simp only [List.mem_cons, List.not_mem_nil, or_false, not_or] at hother
  have hsign : c ∉ signText negative := by cases negative <;> simp [signText, hother]
  rw [Double.text]
  · dsimp only
    generalize shortestDigits m e = shortest
    have hdigits := notMem_toDigits hc.digit shortest.1
    rw [String.toList_ofList, List.mem_append, not_or]
    refine ⟨hsign, ?_⟩
    split
    · exact notMem_positional (by simp [hzero, hother]) hdigits _ _
    · exact notMem_scientific hother.2.2.1 hdigits
        (notMem_exponentText hc.digit (by simp [hother]) _)
  · exact fun h => hm h

/-- A number is written with digits, signs and a point, or as a word. -/
theorem notMem_writeDouble (hc : OutsideNumbers c) (x : Double) : c ∉ writeDouble x := by
  have hother := hc.other
  simp only [List.mem_cons, List.not_mem_nil, or_false, not_or] at hother
  cases x with
  | nan => simp [writeDouble, hother]
  | infinite negative => cases negative <;> simp [writeDouble, hother]
  | finite negative m e =>
    by_cases hm : m = 0
    · subst hm
      have hzero : c ≠ '0' := by
        rintro rfl
        cases hc.digit
      show c ∉ (if negative then "-0.0" else "0.0").toList
      cases negative <;> simp [hother, hzero]
    · exact notMem_text_finite hc negative hm e

theorem notMem_writeInt? (hc : OutsideNumbers c) {n : Int} {text : List Char}
    (h : writeInt? n = some text) : c ∉ text := by
  have hdigits : c ∉ (toString n.natAbs).toList := by
    rw [Nat.toString_eq_ofList_toDigits, String.toList_ofList]
    exact notMem_toDigits hc.digit _
  have hminus : c ≠ '-' := fun heq => hc.other (heq ▸ List.mem_cons_self)
  unfold writeInt? at h
  dsimp only at h
  split at h
  · cases h
  · cases h
    split
    · simpa [hminus] using hdigits
    · exact hdigits

/-- The digits of an escape are hexadecimal. -/
theorem hexDigit?_of_mem_toDigits {n : Nat} (h : c ∈ Nat.toDigits 16 n) : (hexDigit? c).isSome := by
  induction n using Nat.strongRecOn with
  | ind n ih =>
    by_cases hlt : n < 16
    · rw [Nat.toDigits_of_lt_base hlt, List.mem_singleton] at h
      rw [h, hexDigit?_digitChar n hlt]
      rfl
    · rw [Nat.toDigits_of_base_le (by decide) (Nat.not_lt.mp hlt), List.mem_append,
        List.mem_singleton] at h
      rcases h with h | rfl
      · exact ih (n / 16) (by omega) h
      · rw [hexDigit?_digitChar _ (Nat.mod_lt n (by decide))]
        rfl

theorem notMem_unicodeEscape (n : Nat) : '\r' ∉ unicodeEscape n := by
  have hdigits : '\r' ∉ Nat.toDigits 16 n := fun h => absurd (hexDigit?_of_mem_toDigits h) (by decide)
  simp [unicodeEscape, Text.hex, hdigits]

theorem notMem_writeChar (asciiOnly : Bool) (c : Char) : '\r' ∉ writeChar asciiOnly c := by
  have hcode : ∀ n, '\r' ∉ escapeCode n := by
    intro n
    unfold escapeCode
    split
    · exact notMem_unicodeEscape n
    · simp [notMem_unicodeEscape]
  unfold writeChar
  repeat' split
  all_goals first
    | exact hcode _
    | simp_all [eq_comm]

theorem notMem_writeString (asciiOnly : Bool) (s : String) : '\r' ∉ writeString asciiOnly s := by
  simp [writeString, notMem_writeChar]

theorem notMem_newLine (style : Style) (depth : Nat) : '\r' ∉ newLine style depth := by
  unfold newLine
  split <;> simp

theorem notMem_bracket {style : Style} {depth : Nat} {opening closing : Char}
    {parts : List (List Char)} (hopening : opening ≠ '\r') (hclosing : closing ≠ '\r')
    (h : ∀ part ∈ parts, '\r' ∉ part) : '\r' ∉ bracket style depth opening closing parts := by
  have hinner : ∀ {separator : List Char}, '\r' ∉ separator → '\r' ∉ separator.intercalate parts := by
    intro separator hseparator hmem
    rcases Text.mem_intercalate hmem with hmem | ⟨part, hpart, hmem⟩
    · exact hseparator hmem
    · exact h part hpart hmem
  unfold bracket
  split
  · simp [hopening.symm, hclosing.symm]
  · have hline := notMem_newLine style
    dsimp only
    split <;> simp [hopening.symm, hclosing.symm, hline, hinner]

end Characters

variable {style : Style}

mutual

/-- **No text of the writer has a carriage return.** -/
theorem notMem_writeValue : (v : Value) → ∀ {depth : Nat} {text : List Char},
    writeValue style depth v = some text → '\r' ∉ text
  | .scalar s => by
    intro h
    rw [writeValue] at h
    cases s with
    | null =>
      cases h
      decide
    | bool b =>
      cases h
      cases b <;> decide
    | int n => exact notMem_writeInt? (by decide) h
    | float x =>
      cases h
      exact notMem_writeDouble (by decide) x
    | str s =>
      cases h
      exact notMem_writeString _ s
    | date _ | dateTime _ | bytes _ =>
      obtain ⟨-, h⟩ := Option.ite_none_right_eq_some.mp h
      exact Option.some.inj h ▸ notMem_writeString _ _
  | .list items => by
    intro h
    rw [writeValue] at h
    obtain ⟨parts, hparts, rfl⟩ := Option.map_eq_some_iff.mp h
    exact notMem_bracket (by decide) (by decide) (notMem_writeItems items hparts)
  | .map members => by
    intro h
    rw [writeValue] at h
    obtain ⟨parts, hparts, rfl⟩ := Option.map_eq_some_iff.mp h
    exact notMem_bracket (by decide) (by decide) (notMem_writeMembers members hparts)
  | .set items => by
    intro h
    rw [writeValue] at h
    obtain ⟨-, h⟩ := Option.ite_none_right_eq_some.mp h
    exact Option.some.inj h ▸ notMem_writeString _ _

theorem notMem_writeItems : (items : List Value) → ∀ {depth : Nat} {parts : List (List Char)},
    writeItems style depth items = some parts → ∀ part ∈ parts, '\r' ∉ part
  | [] => by
    intro h
    cases h
    exact fun part hpart => absurd hpart List.not_mem_nil
  | v :: rest => by
    intro h
    rw [writeItems] at h
    obtain ⟨first, hfirst, h⟩ := Option.bind_eq_some_iff.mp h
    obtain ⟨others, hothers, h⟩ := Option.bind_eq_some_iff.mp h
    cases h
    exact List.forall_mem_cons.mpr ⟨notMem_writeValue v hfirst, notMem_writeItems rest hothers⟩

theorem notMem_writeMembers : (members : List (Scalar × Value)) →
    ∀ {depth : Nat} {parts : List (List Char)},
    writeMembers style depth members = some parts → ∀ part ∈ parts, '\r' ∉ part
  | [] => by
    intro h
    cases h
    exact fun part hpart => absurd hpart List.not_mem_nil
  | (k, v) :: rest => by
    intro h
    rw [writeMembers] at h
    obtain ⟨name, -, h⟩ := Option.bind_eq_some_iff.mp h
    obtain ⟨first, hfirst, h⟩ := Option.bind_eq_some_iff.mp h
    obtain ⟨others, hothers, h⟩ := Option.bind_eq_some_iff.mp h
    cases h
    have hmember : '\r' ∉ writeString style.asciiOnly name ++ ':' :: ' ' :: first := by
      simp [notMem_writeString, notMem_writeValue v hfirst]
    exact List.forall_mem_cons.mpr ⟨hmember, notMem_writeMembers rest hothers⟩

end

/-! ## Files -/

theorem unifyLineEnds_of_notMem (h : '\r' ∉ cs) : Text.unifyLineEnds cs = cs := by
  induction cs with
  | nil => rfl
  | cons c rest ih =>
    obtain ⟨hc, hrest⟩ := not_or.mp fun hmem => h (List.mem_cons.mpr hmem)
    rw [Text.unifyLineEnds, if_neg (Ne.symm hc), ih hrest]
    exact fun _ heq => absurd heq.symm hc

/-- **The text of a mapping** is read as the mapping from a file that it is written to. -/
theorem read_file {members : Members} {text : List Char} (h : Rereads (.map members))
    (htext : writeValue style 0 (.map members) = some text) :
    read (String.ofList (Text.unifyLineEnds (text ++ ['\n']))) = .ok (.map members) := by
  have hplain : '\r' ∉ text ++ ['\n'] := by
    simp [notMem_writeValue _ htext]
  rw [unifyLineEnds_of_notMem hplain, read_eq_ok, String.toList_ofList]
  have hback := h htext
  obtain ⟨tail, rfl⟩ := exists_brace htext
  exact hback.readText (by simp) (by simp [isSpace])

end ApiContract.Json
