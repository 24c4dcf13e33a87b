import ApiContract.Json.Reader
import ApiContract.Json.Writer
import ApiContract.Proofs.Number.Shortest

/-!
# Texts and numbers that are read back

The reader undoes every escape of the writer. A character beyond the first plane is written as two
escapes, which the reader takes together; a single escape never stands for half of such a pair.

A number ends where no further digit, point or exponent follows. There the reader takes the parts of
the number as the writer laid them out. What it makes of a decimal has the same value, although its
digits may be others: zeros at either end go to the exponent.

* **`readString_writeChar`** / **`readString_writeString`** — one character, and a whole text.
* **`readNumber_toDigits`** — an integer without its sign.
* **`readsAs_positional`** / **`readsAs_scientific`** — the two layouts of a decimal.
* **`readAtom_writeInt?`** / **`readAtom_writeDouble`** — whole numbers with their sign.
-/

namespace ApiContract.Json

variable {opened : Nat} {cs rest after : List Char}

/-! ## Hexadecimal digits -/

theorem hexDigit?_digitChar : ∀ d < 16, hexDigit? (Nat.digitChar d) = some d := by decide

theorem hexNumber?_append {digits : List Char} {n d : Nat} (h : hexNumber? digits = some n)
    (hd : d < 16) : hexNumber? (digits ++ [Nat.digitChar d]) = some (16 * n + d) := by
  unfold hexNumber? at h ⊢
  rw [List.foldlM_append, h]
  simp [hexDigit?_digitChar d hd]

theorem hexNumber?_toDigits (n : Nat) : hexNumber? (Nat.toDigits 16 n) = some n := by
  induction n using Nat.strongRecOn with
  | ind n ih =>
    by_cases hlt : n < 16
    · rw [Nat.toDigits_of_lt_base hlt]
      simp [hexNumber?, hexDigit?_digitChar n hlt]
    · rw [Nat.toDigits_of_base_le (by decide) (Nat.not_lt.mp hlt),
        hexNumber?_append (ih (n / 16) (by omega)) (Nat.mod_lt _ (by decide)), Nat.div_add_mod]

/-- Zeros on the left do not count. -/
theorem hexNumber?_zeros_append (count : Nat) (digits : List Char) :
    hexNumber? (List.replicate count '0' ++ digits) = hexNumber? digits := by
  induction count with
  | zero => rfl
  | succ count ih => exact ih

theorem hexNumber?_hex (width n : Nat) : hexNumber? (Text.hex width n) = some n := by
  rw [Text.hex, hexNumber?_zeros_append, hexNumber?_toDigits]

theorem exists_hex_four {n : Nat} (h : n < 0x10000) : ∃ a b c d, Text.hex 4 n = [a, b, c, d] := by
  have hlength : (Text.hex 4 n).length = 4 := by
    have := (Nat.length_toDigits_le_iff (b := 16) (n := n) (k := 4) (by decide) (by decide)).mpr h
    simp only [Text.hex, List.length_append, List.length_replicate]
    omega
  match Text.hex 4 n, hlength with
  | [a, b, c, d], _ => exact ⟨a, b, c, d, rfl⟩

/-! ## Escapes -/

/-- An escape that is not the first half of a pair. -/
theorem readString_unicodeEscape {n : Nat} (hn : n < 0x10000) (hsingle : isHighSurrogate n = false)
    (hrest : rest ≠ []) (h : readString opened rest = .ok (cs, after)) :
    readString opened (unicodeEscape n ++ rest) = .ok (charOfCode n :: cs, after) := by
  obtain ⟨a, b, c, d, hdigits⟩ := exists_hex_four hn
  have hvalue := hexNumber?_hex 4 n
  rw [hdigits] at hvalue
  rw [unicodeEscape, hdigits]
  simp only [List.cons_append, List.nil_append]
  -- the escape opens no pair, so another one behind it is read on its own
  by_cases hnext : ∃ a' b' c' d' next tail, rest = '\\' :: 'u' :: a' :: b' :: c' :: d' :: next :: tail
  · obtain ⟨a', b', c', d', next, tail, rfl⟩ := hnext
    rw [readString.eq_5 _ _ _ _ _ _ _ _ _ _ _ _ hvalue, if_neg (by simp [hsingle]), h]
    rfl
  · rw [readString.eq_6 _ _ _ _ _ _ _ hvalue hrest fun a' b' c' d' next tail heq =>
      hnext ⟨a', b', c', d', next, tail, heq⟩, h]
    rfl

/-- Two escapes that stand for one character. -/
theorem readString_pair {n m : Nat} (hn : n < 0x10000) (hm : m < 0x10000)
    (hhigh : isHighSurrogate n = true) (hlow : isLowSurrogate m = true)
    (hrest : rest ≠ []) (h : readString opened rest = .ok (cs, after)) :
    readString opened (unicodeEscape n ++ (unicodeEscape m ++ rest))
      = .ok (Char.ofNat (0x10000 + (n - 0xD800) * 0x400 + (m - 0xDC00)) :: cs, after) := by
  obtain ⟨a, b, c, d, hdigits⟩ := exists_hex_four hn
  obtain ⟨a', b', c', d', hdigits'⟩ := exists_hex_four hm
  have hvalue := hexNumber?_hex 4 n
  have hvalue' := hexNumber?_hex 4 m
  rw [hdigits] at hvalue
  rw [hdigits'] at hvalue'
  obtain ⟨next, rest, rfl⟩ := List.exists_cons_of_ne_nil hrest
  rw [unicodeEscape, unicodeEscape, hdigits, hdigits']
  simp only [List.cons_append, List.nil_append]
  rw [readString.eq_5 _ _ _ _ _ _ _ _ _ _ _ _ hvalue, if_pos hhigh, hvalue']
  dsimp only
  rw [if_pos hlow, h]
  rfl

/-- An escape of one letter. -/
theorem readString_simpleEscape {e c : Char} (hne : e ≠ 'u') (he : simpleEscape? e = some c)
    (h : readString opened rest = .ok (cs, after)) :
    readString opened ('\\' :: e :: rest) = .ok (c :: cs, after) := by
  rw [readString]
  · rw [he]
    simp only [h]
    rfl
  · exact fun _ _ _ _ _ heq _ => hne heq

/-- A character that stands for itself. -/
theorem readString_plain {c : Char} (hquote : c ≠ '"') (hslash : c ≠ '\\') (hcontrol : 0x20 ≤ c.toNat)
    (h : readString opened rest = .ok (cs, after)) :
    readString opened (c :: rest) = .ok (c :: cs, after) := by
  rw [readString]
  · rw [if_neg (Nat.not_lt.mpr hcontrol), h]
    rfl
  · exact hquote
  · exact fun _ _ _ _ _ heq _ => hslash heq
  · exact fun _ _ heq _ => hslash heq
  · exact fun heq _ => hslash heq

/-! ## Characters -/

/-- No character is half of a pair. -/
theorem charOfCode_toNat (c : Char) : charOfCode c.toNat = c := by
  have hvalid := c.valid
  rw [charOfCode, if_neg, Char.ofNat_toNat]
  simp only [UInt32.isValidChar, Nat.isValidChar] at hvalid
  unfold Char.toNat
  omega

theorem isHighSurrogate_toNat (c : Char) : isHighSurrogate c.toNat = false := by
  have hvalid := c.valid
  simp only [UInt32.isValidChar, Nat.isValidChar] at hvalid
  simp only [isHighSurrogate, Bool.and_eq_false_iff, decide_eq_false_iff_not, Char.toNat]
  omega

theorem toNat_lt_planes (c : Char) : c.toNat < 0x110000 := by
  have hvalid := c.valid
  simp only [UInt32.isValidChar, Nat.isValidChar] at hvalid
  unfold Char.toNat
  omega

theorem readString_escapeCode (c : Char) (hrest : rest ≠ [])
    (h : readString opened rest = .ok (cs, after)) :
    readString opened (escapeCode c.toNat ++ rest) = .ok (c :: cs, after) := by
  unfold escapeCode
  split
  · rename_i hplane
    have hread := readString_unicodeEscape hplane (isHighSurrogate_toNat c) hrest h
    rw [charOfCode_toNat] at hread
    exact hread
  · rename_i hplane
    have hbound := toNat_lt_planes c
    dsimp only
    -- ten bits in each half of the pair
    generalize hm : c.toNat - 0x10000 = m
    have hhigh : isHighSurrogate (0xD800 + m / 0x400) = true := by
      simp only [isHighSurrogate, Bool.and_eq_true, decide_eq_true_eq]
      omega
    have hlow : isLowSurrogate (0xDC00 + m % 0x400) = true := by
      simp only [isLowSurrogate, Bool.and_eq_true, decide_eq_true_eq]
      omega
    have hread := readString_pair (by omega) (by omega) hhigh hlow hrest h
    have hcode : 0x10000 + (0xD800 + m / 0x400 - 0xD800) * 0x400 + (0xDC00 + m % 0x400 - 0xDC00)
        = c.toNat := by omega
    rw [hcode, Char.ofNat_toNat] at hread
    rw [List.append_assoc]
    exact hread

/-- **The reader undoes what the writer makes of a character.** -/
theorem readString_writeChar (asciiOnly : Bool) (c : Char) (hrest : rest ≠ [])
    (h : readString opened rest = .ok (cs, after)) :
    readString opened (writeChar asciiOnly c ++ rest) = .ok (c :: cs, after) := by
  unfold writeChar
  -- the escapes of one letter
  iterate 7
    split
    · subst c
      exact readString_simpleEscape (by decide) rfl h
  split
  · exact readString_escapeCode c hrest h
  split
  · exact readString_escapeCode c hrest h
  · rename_i hquote hslash _ _ _ _ _ hcontrol _
    exact readString_plain hquote hslash (Nat.not_lt.mp hcontrol) h

theorem readString_flatMap (asciiOnly : Bool) (opened : Nat) (cs after : List Char) :
    readString opened (cs.flatMap (writeChar asciiOnly) ++ '"' :: after) = .ok (cs, after) := by
  induction cs with
  | nil => rw [List.flatMap_nil, List.nil_append, readString]
  | cons c cs ih =>
    rw [List.flatMap_cons, List.append_assoc]
    exact readString_writeChar asciiOnly c (by simp) ih

/-- **A text is read back**, whatever follows it. -/
theorem readString_writeString (asciiOnly : Bool) (s : String) (after : List Char) :
    ∃ text, writeString asciiOnly s ++ after = '"' :: text
      ∧ ∀ opened, readString opened text = .ok (s.toList, after) := by
  refine ⟨s.toList.flatMap (writeChar asciiOnly) ++ '"' :: after, by simp [writeString], ?_⟩
  exact fun opened => readString_flatMap asciiOnly opened s.toList after

end ApiContract.Json

namespace ApiContract.Json

variable {digits whole fraction cs rest r : List Char}

/-! ## Parts of a number -/

/-- What may follow a number: nothing that it goes on with. -/
def Ends (rest : List Char) : Prop :=
  ∀ c, rest.head? = some c → c.isDigit = false ∧ c ≠ '.' ∧ c ≠ 'e' ∧ c ≠ 'E'

/-- A text that begins with no digit. -/
def DigitFree (rest : List Char) : Prop := ∀ c, rest.head? = some c → c.isDigit = false

theorem Ends.digitFree (h : Ends rest) : DigitFree rest := fun c hc => (h c hc).1

theorem digitFree_cons {c : Char} (h : c.isDigit = false) (rest : List Char) :
    DigitFree (c :: rest) := by
  intro d hd
  cases hd
  exact h

/-- Digits of a whole part: `0`, or a run that does not begin with it. -/
structure IsWhole (digits : List Char) : Prop where
  digit : ∀ c ∈ digits, c.isDigit = true
  ne_nil : digits ≠ []
  zero : digits.head? = some '0' → digits = ['0']

theorem takeDigits_append (hdigits : ∀ c ∈ digits, c.isDigit = true) (hrest : DigitFree rest) :
    takeDigits (digits ++ rest) = (digits, rest) := by
  have hnone : rest.takeWhile Char.isDigit = [] ∧ rest.dropWhile Char.isDigit = rest := by
    cases rest with
    | nil => exact ⟨rfl, rfl⟩
    | cons c rest =>
      have hc := hrest c rfl
      exact ⟨List.takeWhile_cons_of_neg (by simp [hc]), List.dropWhile_cons_of_neg (by simp [hc])⟩
  rw [takeDigits, List.takeWhile_append_of_pos hdigits, List.dropWhile_append_of_pos hdigits,
    hnone.1, hnone.2, List.append_nil]

theorem takeWhole_append (hwhole : IsWhole whole) (hrest : DigitFree rest) :
    takeWhole (whole ++ rest) = some (whole, rest) := by
  obtain ⟨hdigit, hne, hzero⟩ := hwhole
  cases whole with
  | nil => exact absurd rfl hne
  | cons c whole =>
    by_cases hc : c = '0'
    · subst hc
      rw [hzero rfl]
      rfl
    · rw [takeWhole, takeDigits_append hdigit hrest]
      rintro rest' heq
      exact hc (List.cons.inj heq).1

theorem takeFraction_append (hdigits : ∀ c ∈ fraction, c.isDigit = true) (hne : fraction ≠ [])
    (hrest : DigitFree rest) : takeFraction ('.' :: (fraction ++ rest)) = (fraction, rest) := by
  rw [takeFraction, takeDigits_append hdigits hrest]
  cases fraction with
  | nil => exact absurd rfl hne
  | cons c fraction => rfl

theorem takeFraction_none (h : rest.head? ≠ some '.') : takeFraction rest = ([], rest) := by
  unfold takeFraction
  split
  · exact absurd rfl h
  · rfl

theorem Ends.takeFraction (h : Ends rest) : takeFraction rest = ([], rest) :=
  takeFraction_none fun hpoint => (h '.' hpoint).2.1 rfl

theorem Ends.takeExponent (h : Ends rest) : takeExponent rest = (none, rest) := by
  unfold Json.takeExponent
  split
  · rename_i c tail
    rw [if_neg]
    obtain ⟨-, -, hlower, hupper⟩ := h c rfl
    exact fun he => he.elim hlower hupper
  · rfl

/-! ## Decimal digits -/

theorem isDigit_of_mem_toDigits {n : Nat} : ∀ c ∈ Nat.toDigits 10 n, c.isDigit = true :=
  fun _ => Nat.isDigit_of_mem_toDigits (by decide) (by decide)

/-- A number other than zero begins with another digit. -/
theorem head?_toDigits_ne_zero {n : Nat} (h : 0 < n) : (Nat.toDigits 10 n).head? ≠ some '0' := by
  induction n using Nat.strongRecOn with
  | ind n ih =>
    by_cases hlt : n < 10
    · rw [Nat.toDigits_of_lt_base hlt, List.head?_cons, Ne, Option.some.injEq,
        Nat.digitChar_eq_zero]
      exact h.ne'
    · have hne := ih (n / 10) (by omega) (by omega)
      rw [Nat.toDigits_of_base_le (by decide) (not_lt.mp hlt)]
      cases hdigits : Nat.toDigits 10 (n / 10) with
      | nil => exact absurd hdigits Nat.toDigits_ne_nil
      | cons c digits =>
        rw [hdigits] at hne
        exact hne

theorem isWhole_toDigits (n : Nat) : IsWhole (Nat.toDigits 10 n) where
  digit := isDigit_of_mem_toDigits
  ne_nil := Nat.toDigits_ne_nil
  zero hzero := by
    rcases Nat.eq_zero_or_pos n with rfl | hn
    · exact Nat.toDigits_zero 10
    · exact absurd hzero (head?_toDigits_ne_zero hn)

theorem isWhole_zero : IsWhole ['0'] := ⟨by simp, List.cons_ne_nil _ _, fun _ => rfl⟩

theorem decimal_toDigits (n : Nat) : decimal (Nat.toDigits 10 n) = n :=
  Nat.ofDigitChars_ten_toDigits

theorem decimal_append (a b : List Char) :
    decimal (a ++ b) = 10 ^ b.length * decimal a + decimal b := by
  have happend : decimal (a ++ b) = Nat.ofDigitChars 10 b (decimal a) :=
    Nat.ofDigitChars_append 0
  rw [happend, Nat.ofDigitChars_eq_ofDigitChars_zero]
  rfl

theorem decimal_zeros (count : Nat) : decimal (List.replicate count '0') = 0 :=
  Nat.ofDigitChars_replicate_zero.trans (Nat.mul_zero _)

/-- Zeros on the left do not count. -/
theorem decimal_zeros_append (count : Nat) (digits : List Char) :
    decimal (List.replicate count '0' ++ digits) = decimal digits := by
  rw [decimal_append, decimal_zeros, Nat.mul_zero, Nat.zero_add]

theorem isDigit_of_mem_zeros (count : Nat) : ∀ c ∈ List.replicate count '0', c.isDigit = true := by
  intro c hc
  rw [List.eq_of_mem_replicate hc]
  rfl

theorem isDigit_append (h : ∀ c ∈ cs, c.isDigit = true) (h' : ∀ c ∈ digits, c.isDigit = true) :
    ∀ c ∈ cs ++ digits, c.isDigit = true :=
  fun c hc => (List.mem_append.mp hc).elim (h c) (h' c)

/-! ## The exponent -/

theorem digitFree_exponentText (x : Int) (rest : List Char) :
    DigitFree (Double.exponentText x ++ rest) := digitFree_cons rfl _

theorem takeExponent_exponentText (x : Int) (hrest : DigitFree rest) :
    takeExponent (Double.exponentText x ++ rest) = (some x, rest) := by
  have hpad : ∀ c ∈ Double.padLeft 2 (Nat.toDigits 10 x.natAbs), c.isDigit = true :=
    isDigit_append (isDigit_of_mem_zeros _) isDigit_of_mem_toDigits
  have hvalue : decimal (Double.padLeft 2 (Nat.toDigits 10 x.natAbs)) = x.natAbs :=
    (decimal_zeros_append _ _).trans (decimal_toDigits _)
  have hne : Double.padLeft 2 (Nat.toDigits 10 x.natAbs) ≠ [] := by
    simp [Double.padLeft, Nat.toDigits_ne_nil]
  have htake := takeDigits_append hpad hrest
  -- the sign is read first, and the zeros that pad the digits do not count
  rw [Double.exponentText]
  generalize Double.padLeft 2 (Nat.toDigits 10 x.natAbs) = pad at hvalue hne htake
  obtain ⟨c, pad, rfl⟩ := List.exists_cons_of_ne_nil hne
  by_cases hx : x < 0
  · simp only [hx, if_true, List.cons_append, takeExponent, true_or]
    rw [List.cons_append] at htake
    rw [htake]
    simp only [hvalue]
    rw [show -(x.natAbs : Int) = x by omega]
  · simp only [hx, if_false, List.cons_append, takeExponent, true_or, if_true]
    rw [List.cons_append] at htake
    rw [htake]
    simp only [hvalue, Bool.false_eq_true, if_false]
    rw [show (x.natAbs : Int) = x by omega]

/-! ## Numbers -/

/-- An integer without its sign. -/
theorem readNumber_toDigits {n : Nat} (hlength : (Nat.toDigits 10 n).length ≤ maxDigits)
    (hrest : Ends rest) (negative : Bool) :
    readNumber negative (Nat.toDigits 10 n ++ rest)
      = some (.ok (.int (if negative then -n else n), rest)) := by
  rw [readNumber, takeWhole_append (isWhole_toDigits n) hrest.digitFree]
  simp only [Option.map_some, hrest.takeFraction, hrest.takeExponent, List.isEmpty_nil,
    Option.isNone_none, Bool.and_self, if_true, decimal_toDigits]
  rw [if_neg (Nat.not_lt.mpr hlength)]

/-- A number with a fraction or an exponent. -/
theorem readNumber_eq {after after' rest : List Char} {exponent : Option Int}
    (hwhole : takeWhole cs = some (whole, after))
    (hfraction : takeFraction after = (fraction, after')) (hexponent : takeExponent after' = (exponent, rest)) (h : fraction ≠ [] ∨ exponent ≠ none)
    (negative : Bool) :
    readNumber negative cs = some (.ok (.float (Double.ofDecimal negative
      (decimal (whole ++ fraction)) (exponent.getD 0 - fraction.length)), rest)) := by
  have hfloat : (fraction.isEmpty && exponent.isNone) = false := by
    rcases h with h | h
    · simp [h]
    · simp [Option.ne_none_iff_isSome.mp h]
  rw [readNumber, hwhole]
  simp only [Option.map_some, hfraction, hexponent, hfloat, Bool.false_eq_true, if_false]

/-- A number with a fraction. -/
theorem readNumber_fraction (hwhole : IsWhole whole) (hdigits : ∀ c ∈ fraction, c.isDigit = true)
    (hne : fraction ≠ []) (hrest : Ends rest) (negative : Bool) :
    readNumber negative (whole ++ '.' :: (fraction ++ rest))
      = some (.ok (.float (Double.ofDecimal negative (decimal (whole ++ fraction))
        (-fraction.length)), rest)) := by
  rw [readNumber_eq (takeWhole_append hwhole (digitFree_cons rfl _))
    (takeFraction_append hdigits hne hrest.digitFree) hrest.takeExponent (.inl hne),
    Option.getD_none, zero_sub]

/-- A number with an exponent. -/
theorem readNumber_exponent (hwhole : IsWhole whole) (x : Int) (hrest : Ends rest)
    (negative : Bool) :
    readNumber negative (whole ++ (Double.exponentText x ++ rest))
      = some (.ok (.float (Double.ofDecimal negative (decimal whole) x), rest)) := by
  have hnone : takeFraction (Double.exponentText x ++ rest) = ([], Double.exponentText x ++ rest) :=
    takeFraction_none (by simp [Double.exponentText])
  rw [readNumber_eq (takeWhole_append hwhole (digitFree_exponentText x rest)) hnone
    (takeExponent_exponentText x hrest.digitFree) (.inr (Option.some_ne_none x)),
    List.append_nil, Option.getD_some, List.length_nil, Nat.cast_zero, sub_zero]

/-- A number with a fraction and an exponent. -/
theorem readNumber_fraction_exponent (hwhole : IsWhole whole)
    (hdigits : ∀ c ∈ fraction, c.isDigit = true) (hne : fraction ≠ []) (x : Int)
    (hrest : Ends rest) (negative : Bool) :
    readNumber negative (whole ++ '.' :: (fraction ++ (Double.exponentText x ++ rest)))
      = some (.ok (.float (Double.ofDecimal negative (decimal (whole ++ fraction))
        (x - fraction.length)), rest)) := by
  rw [readNumber_eq (takeWhole_append hwhole (digitFree_cons rfl _))
    (takeFraction_append hdigits hne (digitFree_exponentText x rest))
    (takeExponent_exponentText x hrest.digitFree) (.inl hne), Option.getD_some]

/-! ## The layouts of a decimal -/

/-- A text is read as a decimal of some value. -/
def ReadsAs (negative : Bool) (cs : List Char) (v : ℚ) (rest : List Char) : Prop :=
  ∃ (n : Nat) (s : Int), (n : ℚ) * 10 ^ s = v
    ∧ readNumber negative cs = some (.ok (.float (Double.ofDecimal negative n s), rest))

/-- A part of a run that does not begin with a zero. -/
theorem isWhole_of_head? (hdigits : ∀ c ∈ digits, c.isDigit = true) (hne : digits ≠ [])
    (hzero : digits.head? ≠ some '0') : IsWhole digits :=
  ⟨hdigits, hne, fun h => absurd h hzero⟩

theorem readsAs_positional (hdigits : ∀ c ∈ digits, c.isDigit = true) (hne : digits ≠ [])
    (hzero : digits.head? ≠ some '0') (point : Int) (hrest : Ends rest) (negative : Bool) :
    ReadsAs negative (Double.positional digits point true ++ rest)
      (decimal digits * 10 ^ (point - digits.length)) rest := by
  unfold Double.positional
  split
  · -- zeros between the point and the digits
    rename_i hsmall
    have hall := isDigit_append (isDigit_of_mem_zeros point.natAbs) hdigits
    have htext : "0.".toList ++ List.replicate point.natAbs '0' ++ digits ++ rest
        = ['0'] ++ '.' :: (List.replicate point.natAbs '0' ++ digits ++ rest) := by
      simp only [List.append_assoc]
      rfl
    have hvalue : decimal (['0'] ++ (List.replicate point.natAbs '0' ++ digits)) = decimal digits := by
      rw [decimal_append, decimal_zeros_append]
      exact Nat.zero_add _
    refine ⟨decimal digits, point - digits.length, rfl, ?_⟩
    rw [htext, readNumber_fraction isWhole_zero hall (by simp [hne]) hrest, hvalue]
    rw [show -((List.replicate point.natAbs '0' ++ digits).length : Int) = point - digits.length by
      rw [List.length_append, List.length_replicate]; omega]
  · rename_i hlarge
    split
    · -- the point among the digits
      rename_i hinside
      have htext : digits.take point.toNat ++ '.' :: digits.drop point.toNat ++ rest
          = digits.take point.toNat ++ '.' :: (digits.drop point.toNat ++ rest) :=
        List.append_assoc _ _ _
      have hwhole : IsWhole (digits.take point.toNat) := by
        refine isWhole_of_head? (fun c hc => hdigits c (List.mem_of_mem_take hc)) ?_ ?_
        · rw [Ne, List.take_eq_nil_iff]
          rintro (hnone | hnone)
          · omega
          · exact hne hnone
        · rw [List.head?_take, if_neg (by omega)]
          exact hzero
      have hfraction : digits.drop point.toNat ≠ [] := by
        rw [Ne, List.drop_eq_nil_iff]
        omega
      refine ⟨decimal digits, point - digits.length, rfl, ?_⟩
      rw [htext, readNumber_fraction hwhole (fun c hc => hdigits c (List.mem_of_mem_drop hc))
        hfraction hrest, List.take_append_drop]
      rw [show -((digits.drop point.toNat).length : Int) = point - digits.length by
        rw [List.length_drop]; omega]
    · -- zeros between the digits and the point
      rename_i houtside
      have htext : digits ++ List.replicate (point.toNat - digits.length) '0' ++
            (if true = true then ".0".toList else []) ++ rest
          = (digits ++ List.replicate (point.toNat - digits.length) '0')
            ++ '.' :: (['0'] ++ rest) := by
        rw [if_pos rfl, List.append_assoc _ ".0".toList]
        rfl
      have hwhole : IsWhole (digits ++ List.replicate (point.toNat - digits.length) '0') := by
        refine isWhole_of_head? (isDigit_append hdigits (isDigit_of_mem_zeros _)) (by simp [hne]) ?_
        obtain ⟨c, digits, rfl⟩ := List.exists_cons_of_ne_nil hne
        exact hzero
      have hvalue : decimal (digits ++ List.replicate (point.toNat - digits.length) '0' ++ ['0'])
          = 10 ^ (point.toNat - digits.length + 1) * decimal digits := by
        rw [List.append_assoc, ← List.replicate_succ', decimal_append, decimal_zeros,
          List.length_replicate, Nat.add_zero]
      refine ⟨10 ^ (point.toNat - digits.length + 1) * decimal digits, -1, ?_, ?_⟩
      · rw [show point - digits.length = ((point.toNat - digits.length : Nat) : Int) by omega,
          zpow_natCast]
        push_cast
        rw [zpow_neg_one, pow_succ]
        ring
      · rw [htext, readNumber_fraction hwhole (by simp) (List.cons_ne_nil _ _) hrest, hvalue]
        rfl

theorem readsAs_scientific (hdigits : ∀ c ∈ digits, c.isDigit = true) (hne : digits ≠ [])
    (hzero : digits.head? ≠ some '0') (x : Int) (hrest : Ends rest) (negative : Bool) :
    ReadsAs negative (Double.scientific digits x ++ rest)
      (decimal digits * 10 ^ (x + 1 - digits.length)) rest := by
  obtain ⟨d, digits, rfl⟩ := List.exists_cons_of_ne_nil hne
  have hwhole : IsWhole [d] := by
    refine isWhole_of_head? (fun c hc => hdigits c ?_) (List.cons_ne_nil _ _) hzero
    rw [List.mem_singleton.mp hc]
    exact List.mem_cons_self
  refine ⟨decimal (d :: digits), x + 1 - (d :: digits).length, rfl, ?_⟩
  cases digits with
  | nil =>
    rw [List.length_singleton, Nat.cast_one, add_sub_cancel_right]
    exact readNumber_exponent hwhole x hrest negative
  | cons d' digits =>
    have htext : Double.scientific (d :: d' :: digits) x ++ rest
        = [d] ++ '.' :: (d' :: digits ++ (Double.exponentText x ++ rest)) := by
      simp [Double.scientific]
    rw [htext, readNumber_fraction_exponent hwhole (fun c hc => hdigits c (List.mem_cons_of_mem _ hc))
      (List.cons_ne_nil _ _) x hrest]
    rw [show x + 1 - ((d :: d' :: digits).length : Int) = x - ((d' :: digits).length : Int) by
      simp only [List.length_cons]; omega]
    rfl

/-! ## Atoms -/

/-- A number begins with a digit. -/
theorem exists_digit_of_takeWhole (h : takeWhole cs = some (whole, rest)) :
    ∃ c tail, cs = c :: tail ∧ c.isDigit = true := by
  unfold takeWhole at h
  split at h
  · exact ⟨'0', _, rfl, rfl⟩
  · cases cs with
    | nil => cases h
    | cons c tail =>
      refine ⟨c, tail, rfl, ?_⟩
      by_contra hc
      rw [takeDigits, List.takeWhile_cons_of_neg hc] at h
      cases h

theorem ne_of_isDigit {c d : Char} (hc : c.isDigit = true) (hd : d.isDigit = false) : d ≠ c := by
  rintro rfl
  rw [hc] at hd
  cases hd

/-- A number is none of the words. -/
theorem readAtom_of_readNumber {negative : Bool} {result : Except Fault (Value × List Char)}
    (h : readNumber negative cs = some result) :
    readAtom (Double.signText negative ++ cs) = result := by
  obtain ⟨found, hfound, -⟩ := Option.map_eq_some_iff.mp h
  obtain ⟨c, tail, rfl, hc⟩ := exists_digit_of_takeWhole hfound
  have hn := ne_of_isDigit hc (d := 'n') rfl
  have ht := ne_of_isDigit hc (d := 't') rfl
  have hf := ne_of_isDigit hc (d := 'f') rfl
  have hN := ne_of_isDigit hc (d := 'N') rfl
  have hI := ne_of_isDigit hc (d := 'I') rfl
  have hminus := ne_of_isDigit hc (d := '-') rfl
  cases negative with
  | false =>
    simp [Double.signText, readAtom, words, dropWord?, hn, ht, hf, hN, hI, hminus, hminus.symm, h]
  | true =>
    simp [Double.signText, readAtom, words, dropWord?, hI, h]

/-- The characters that an atom may begin with. -/
def BeginsAtom (c : Char) : Prop := c.isDigit = true ∨ c ∈ ['-', 'n', 't', 'f', 'N', 'I']

theorem beginsAtom_of_readAtom {found : Value × List Char} (h : readAtom cs = .ok found) :
    ∃ c tail, cs = c :: tail ∧ BeginsAtom c := by
  cases cs with
  | nil => cases h
  | cons c tail =>
    refine ⟨c, tail, rfl, ?_⟩
    by_contra hc
    obtain ⟨hdigit, hword⟩ := not_or.mp hc
    have hnumber : takeWhole (c :: tail) = none := by
      rw [Option.eq_none_iff_forall_ne_some]
      intro result hresult
      obtain ⟨d, tail', heq, hd⟩ := exists_digit_of_takeWhole hresult
      cases heq
      exact hdigit hd
    simp only [List.mem_cons, List.not_mem_nil, or_false, not_or] at hword
    obtain ⟨hminus, hn, ht, hf, hN, hI⟩ := hword
    have hatom : readAtom (c :: tail) = .error (.syntaxAt .value (c :: tail).length) := by
      simp [readAtom, words, dropWord?, hminus, Ne.symm hminus, Ne.symm hn, Ne.symm ht, Ne.symm hf,
        Ne.symm hN, Ne.symm hI, readNumber, hnumber]
    rw [hatom] at h
    cases h

theorem BeginsAtom.ne {c d : Char} (h : BeginsAtom c) (hd : ¬BeginsAtom d) : c ≠ d := by
  rintro rfl
  exact hd h

instance (c : Char) : Decidable (BeginsAtom c) := inferInstanceAs (Decidable (_ ∨ _))

theorem readValue_of_readAtom {found : Value × List Char} (h : readAtom cs = .ok found) (fuel : Nat) :
    readValue (fuel + 1) cs = .ok found := by
  obtain ⟨c, tail, rfl, hc⟩ := beginsAtom_of_readAtom h
  rw [readValue]
  · exact h
  all_goals
    intro rest heq
    exact hc.ne (by decide) (List.cons.inj heq).1

/-! ## What the writer gives -/

theorem readAtom_writeInt? {n : Int} {text : List Char} (h : writeInt? n = some text)
    (hrest : Ends rest) : readAtom (text ++ rest) = .ok (.int n, rest) := by
  have hdigits : (toString n.natAbs).toList = Nat.toDigits 10 n.natAbs := by
    rw [Nat.toString_eq_ofList_toDigits, String.toList_ofList]
  unfold writeInt? at h
  rw [hdigits] at h
  dsimp only at h
  split at h
  · cases h
  · rename_i hlength
    have hread := fun negative =>
      readAtom_of_readNumber (readNumber_toDigits (not_lt.mp hlength) hrest negative)
    cases h
    by_cases hn : n < 0
    · rw [if_pos hn]
      have := hread true
      rw [if_pos rfl, show -(n.natAbs : Int) = n by omega] at this
      exact this
    · rw [if_neg hn]
      have := hread false
      rw [if_neg Bool.false_ne_true, show (n.natAbs : Int) = n by omega] at this
      exact this

/-- The shortest digits of a number, laid out in either way. -/
theorem readsAs_text {m : Nat} {e : Int} (hm : m ≠ 0) (hpos : 0 < (Double.shortestDigits m e).1)
    (hrest : Ends rest) (negative : Bool) :
    ∃ body, (Double.finite negative m e).text.toList = Double.signText negative ++ body
      ∧ ReadsAs negative (body ++ rest)
        ((Double.shortestDigits m e).1 * 10 ^ (Double.shortestDigits m e).2) rest := by
  have hzero := head?_toDigits_ne_zero hpos
  rw [Double.text]
  · dsimp only
    generalize Double.shortestDigits m e = shortest at hpos hzero ⊢
    refine ⟨_, String.toList_ofList, ?_⟩
    split
    · have h := readsAs_positional isDigit_of_mem_toDigits Nat.toDigits_ne_nil hzero
        (shortest.2 + (Nat.toDigits 10 shortest.1).length - 1 + 1) hrest negative
      rw [decimal_toDigits, sub_add_cancel, add_sub_cancel_right] at h
      rw [sub_add_cancel]
      exact h
    · have h := readsAs_scientific isDigit_of_mem_toDigits Nat.toDigits_ne_nil hzero
        (shortest.2 + (Nat.toDigits 10 shortest.1).length - 1) hrest negative
      rw [decimal_toDigits, sub_add_cancel, add_sub_cancel_right] at h
      exact h
  · exact fun h => hm h

/-- **A number is read back from its text**, also one that is not finite. -/
theorem readAtom_writeDouble {x : Double} (h : x.IsCanonical) (hrest : Ends rest) :
    readAtom (writeDouble x ++ rest) = .ok (.float x, rest) := by
  cases x with
  | nan => simp [writeDouble, readAtom, words, dropWord?]
  | infinite negative => cases negative <;> simp [writeDouble, readAtom, words, dropWord?]
  | finite negative m e =>
    rcases h with ⟨rfl, rfl⟩ | ⟨hodd, hbits, hlow, hhigh⟩
    · -- zero has a text of its own
      have hread := readAtom_of_readNumber
        (readNumber_fraction isWhole_zero isWhole_zero.digit isWhole_zero.ne_nil hrest negative)
      cases negative <;> exact hread
    · -- the shortest digits lie in the rounding interval, and what is read has their value
      obtain ⟨hfilled, hsame⟩ := Double.filled_spec hodd hbits hlow hhigh
      have hcontains := Double.shortestDigits_contains hfilled
      have hpos : 0 < (Double.shortestDigits m e).1 := by
        refine Nat.pos_of_ne_zero fun hzero => ?_
        have := (Double.bounds_of_contains hfilled hcontains).1
        rw [hzero, Nat.cast_zero, zero_mul] at this
        exact absurd this (not_le.mpr (Double.two_zpow_pos _))
      obtain ⟨body, hbody, n, s, hvalue, hread⟩ :=
        readsAs_text (by omega) hpos hrest negative
      rw [← hvalue] at hcontains
      rw [Double.ofDecimal_of_contains hfilled hcontains, hsame] at hread
      show readAtom ((Double.finite negative m e).text.toList ++ rest) = _
      rw [hbody, List.append_assoc]
      exact readAtom_of_readNumber hread

end ApiContract.Json
