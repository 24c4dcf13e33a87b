import ApiContract.Number.Reading
import Mathlib.Algebra.Group.Nat.Defs
import Mathlib.Data.List.TakeWhile

/-!
# Integers in texts

Which texts are read as an integer, and as which one. Many texts write one number; its decimal form,
without sign, padding or leading zeros, is one of them as long as it has no more digits than are read.

* **`int?_eq_some_iff`** — what is read is what is written.
* **`int?_toString`** — the decimal form of a natural number.
* **`Digits.length_le`** — how long what some digits write can be.
-/

namespace ApiContract

/-! ## Blanks around a text -/

namespace Text

/-- A run of blanks. -/
def Blanks (cs : List Char) : Prop := ∀ c ∈ cs, isBlank c = true

variable {before core after : List Char}

/-- A text is its trimmed part with blanks around it. -/
theorem exists_trim (cs : List Char) :
    ∃ before after, cs = before ++ trim cs ++ after ∧ Blanks before ∧ Blanks after := by
  have hblanks : ∀ ds : List Char, Blanks (ds.takeWhile isBlank) := fun ds c hc =>
    List.mem_takeWhile_imp hc
  refine ⟨cs.takeWhile isBlank, ((dropBlanks cs).reverse.takeWhile isBlank).reverse, ?_,
    hblanks cs, fun c hc => hblanks _ c (List.mem_reverse.mp hc)⟩
  unfold trim
  rw [List.append_assoc, ← List.reverse_append]
  unfold dropBlanks
  rw [List.takeWhile_append_dropWhile, List.reverse_reverse, List.takeWhile_append_dropWhile]

theorem dropBlanks_append {c : Char} {rest : List Char} (hbefore : Blanks before)
    (hc : isBlank c = false) : dropBlanks (before ++ c :: rest) = c :: rest := by
  unfold dropBlanks
  rw [List.dropWhile_append_of_pos hbefore, List.dropWhile_cons_of_neg (by rw [hc]; nofun)]

/-- Blanks around a text that begins and ends with something else are trimmed. -/
theorem trim_append (hbefore : Blanks before) (hafter : Blanks after) {first last : Char}
    (hfirst : core.head? = some first) (hlast : core.getLast? = some last)
    (hf : isBlank first = false) (hl : isBlank last = false) :
    trim (before ++ core ++ after) = core := by
  obtain ⟨rest, hcore⟩ := List.head?_eq_some_iff.mp hfirst
  obtain ⟨init, hcore'⟩ := List.getLast?_eq_some_iff.mp hlast
  have hafter' : Blanks after.reverse := fun c hc => hafter c (List.mem_reverse.mp hc)
  unfold trim
  rw [List.append_assoc, hcore, List.cons_append, dropBlanks_append hbefore hf, ← List.cons_append,
    ← hcore, hcore', List.reverse_append, List.reverse_append, List.reverse_singleton,
    List.singleton_append, dropBlanks_append hafter' hl, List.reverse_cons, List.reverse_reverse]

end Text

namespace Number

open Text (Blanks)

/-! ## Digits -/

theorem digit?_of_isDigit {c : Char} (h : c.isDigit = true) : digit? c = some (c.toNat - 48) := by
  have hc : 48 ≤ c.toNat ∧ c.toNat ≤ 57 := by
    simpa [Char.isDigit, UInt32.le_iff_toNat_le] using h
  unfold digit?
  rw [if_pos (by omega), if_pos h]

/-- The digits of the scripts leave room for the blanks between them. -/
theorem zeros_avoid_blanks : ∀ z ∈ decimalZeros, z + 10 ≤ 0x85 ∨ 0xA0 < z ∧ z + 10 ≤ 0x1680 ∨
    0x1680 < z ∧ z + 10 ≤ 0x2000 ∨ 0x205F < z ∧ z + 10 ≤ 0x3000 ∨ 0x3000 < z := by
  decide

/-- A blank is no digit. -/
theorem digit?_of_isBlank {c : Char} (h : Text.isBlank c = true) : digit? c = none := by
  simp only [Text.isBlank, Bool.or_eq_true, Bool.and_eq_true, decide_eq_true_eq, beq_iff_eq] at h
  unfold digit?
  split
  · have hdigit : ¬ (48 ≤ c.toNat ∧ c.toNat ≤ 57) := by omega
    rw [if_neg]
    intro hc
    exact hdigit (by simpa [Char.isDigit, UInt32.le_iff_toNat_le] using hc)
  · rw [Option.map_eq_none_iff, List.find?_eq_none]
    intro z hz
    have := zeros_avoid_blanks z hz
    rw [Bool.and_eq_true, decide_eq_true_eq, decide_eq_true_eq]
    omega

theorem isBlank_of_digit? {c : Char} {d : Nat} (h : digit? c = some d) : Text.isBlank c = false := by
  rw [← Bool.not_eq_true]
  intro hblank
  rw [digit?_of_isBlank hblank] at h
  cases h

/-- A run of digits, single underscores between them, and the values of the digits. -/
inductive Digits : List Char → List Nat → Prop where
  | last {c : Char} {d : Nat} (h : digit? c = some d) : Digits [c] [d]
  | next {c : Char} {d : Nat} {cs : List Char} {ds : List Nat} (h : digit? c = some d)
      (more : Digits cs ds) : Digits (c :: cs) (d :: ds)
  | apart {c : Char} {d : Nat} {cs : List Char} {ds : List Nat} (h : digit? c = some d)
      (more : Digits cs ds) : Digits (c :: '_' :: cs) (d :: ds)

theorem Digits.head? {cs : List Char} {ds : List Nat} (h : Digits cs ds) :
    ∃ c d, cs.head? = some c ∧ digit? c = some d := by
  cases h with
  | last h => exact ⟨_, _, rfl, h⟩
  | next h _ => exact ⟨_, _, rfl, h⟩
  | apart h _ => exact ⟨_, _, rfl, h⟩

theorem Digits.getLast? {cs : List Char} {ds : List Nat} (h : Digits cs ds) :
    ∃ c d, cs.getLast? = some c ∧ digit? c = some d := by
  induction h with
  | last h => exact ⟨_, _, rfl, h⟩
  | next _ _ ih =>
    obtain ⟨c, d, hc, hd⟩ := ih
    exact ⟨c, d, by rw [List.getLast?_cons, hc]; rfl, hd⟩
  | apart _ _ ih =>
    obtain ⟨c, d, hc, hd⟩ := ih
    exact ⟨c, d, by rw [List.getLast?_cons, List.getLast?_cons, hc]; rfl, hd⟩

theorem digits?_of_digits {cs : List Char} {ds : List Nat} (h : Digits cs ds) :
    digits? cs = some ds := by
  induction h with
  | last h => rw [digits?, h, Option.map_some]
  | @next c d cs ds h more ih =>
    -- an underscore is no digit, so the rest does not begin with one
    obtain ⟨first, _, hfirst, hdigit⟩ := more.head?
    obtain ⟨rest, rfl⟩ := List.head?_eq_some_iff.mp hfirst
    have hne : first ≠ '_' := by
      rintro rfl
      cases hdigit
    rw [digits?, h, ih] <;> simp [hne]
  | apart h _ ih => rw [digits?, h, ih]; rfl

theorem digits?_eq_some_iff {cs : List Char} {ds : List Nat} :
    digits? cs = some ds ↔ Digits cs ds := by
  refine ⟨fun h => ?_, digits?_of_digits⟩
  fun_induction digits? cs generalizing ds with
  | case1 => cases h
  | case2 c =>
    obtain ⟨d, hd, rfl⟩ := Option.map_eq_some_iff.mp h
    exact .last hd
  | case3 c rest ih =>
    obtain ⟨d, hd, h⟩ := Option.bind_eq_some_iff.mp h
    obtain ⟨more, hmore, h⟩ := Option.bind_eq_some_iff.mp h
    cases h
    exact .apart hd (ih hmore)
  | case4 c rest _ _ ih =>
    obtain ⟨d, hd, h⟩ := Option.bind_eq_some_iff.mp h
    obtain ⟨more, hmore, h⟩ := Option.bind_eq_some_iff.mp h
    cases h
    exact .next hd (ih hmore)

/-! ## Signs -/

/-- A sign, or none, and whether it makes a number negative. -/
inductive Sign : List Char → Bool → Prop where
  | none : Sign [] false
  | plus : Sign ['+'] false
  | minus : Sign ['-'] true

theorem sign_splitSign (cs : List Char) :
    ∃ sign, Sign sign (splitSign cs).1 ∧ cs = sign ++ (splitSign cs).2 := by
  unfold splitSign
  split
  · exact ⟨['-'], .minus, rfl⟩
  · exact ⟨['+'], .plus, rfl⟩
  · exact ⟨[], .none, rfl⟩

theorem splitSign_append {sign cs : List Char} {negative : Bool} {ds : List Nat}
    (hsign : Sign sign negative) (hdigits : Digits cs ds) :
    splitSign (sign ++ cs) = (negative, cs) := by
  cases hsign with
  | plus => rfl
  | minus => rfl
  | none =>
    obtain ⟨c, d, hc, hd⟩ := hdigits.head?
    obtain ⟨rest, rfl⟩ := List.head?_eq_some_iff.mp hc
    unfold splitSign
    split
    · next h =>
      cases h
      cases hd
    · next h =>
      cases h
      cases hd
    · rfl

/-- A sign is no blank. -/
theorem head?_sign {sign cs : List Char} {negative : Bool} {ds : List Nat}
    (hsign : Sign sign negative) (hdigits : Digits cs ds) :
    ∃ c, (sign ++ cs).head? = some c ∧ Text.isBlank c = false := by
  cases hsign with
  | plus => exact ⟨'+', rfl, by decide⟩
  | minus => exact ⟨'-', rfl, by decide⟩
  | none =>
    obtain ⟨c, d, hc, hd⟩ := hdigits.head?
    exact ⟨c, hc, isBlank_of_digit? hd⟩

/-! ## Integers -/

/-- A text that writes an integer: digits, of which there are not too many, behind a sign or none,
with blanks around. -/
inductive WritesInteger : List Char → Int → Prop where
  | intro {before sign digits after : List Char} {negative : Bool} {ds : List Nat}
      (hbefore : Blanks before) (hsign : Sign sign negative) (hdigits : Digits digits ds)
      (hafter : Blanks after) (hlength : ds.length ≤ maxDigits) :
      WritesInteger (before ++ (sign ++ digits) ++ after)
        (if negative then -(ofDigits 10 ds : Int) else ofDigits 10 ds)

/-- **What is read as an integer is what writes it.** -/
theorem int?_eq_some_iff {s : String} {n : Int} : int? s = some n ↔ WritesInteger s.toList n := by
  unfold int?
  constructor
  · intro h
    obtain ⟨before, after, heq, hbefore, hafter⟩ := Text.exists_trim s.toList
    obtain ⟨sign, hsign, htrim⟩ := sign_splitSign (Text.trim s.toList)
    rw [heq, htrim]
    generalize splitSign (Text.trim s.toList) = found at h hsign
    obtain ⟨negative, digits⟩ := found
    dsimp only at h hsign ⊢
    split at h
    · next ds hdigits =>
      split at h
      · cases h
      · next hlength =>
        cases h
        exact .intro hbefore hsign (digits?_eq_some_iff.mp hdigits) hafter (Nat.not_lt.mp hlength)
    · cases h
  · intro h
    generalize s.toList = cs at h
    cases h with
    | @intro before sign digits after negative ds hbefore hsign hdigits hafter hlength =>
      -- neither end of the number is a blank, so trimming stops at both
      obtain ⟨first, hfirst, hblank⟩ := head?_sign hsign hdigits
      obtain ⟨last, _, hlast, hdigit⟩ := hdigits.getLast?
      have hlast : (sign ++ digits).getLast? = some last := by
        rw [List.getLast?_append, hlast, Option.some_or]
      rw [Text.trim_append hbefore hafter hfirst hlast hblank (isBlank_of_digit? hdigit),
        splitSign_append hsign hdigits]
      dsimp only
      rw [digits?_of_digits hdigits]
      exact if_neg (Nat.not_lt.mpr hlength)

theorem digits_of_isDigit {cs : List Char} (hne : cs ≠ []) (h : ∀ c ∈ cs, c.isDigit = true) :
    Digits cs (cs.map fun c => c.toNat - 48) := by
  induction cs with
  | nil => exact absurd rfl hne
  | cons c rest ih =>
    have hc := digit?_of_isDigit (h c List.mem_cons_self)
    cases rest with
    | nil => exact .last hc
    | cons c' rest =>
      exact .next hc (ih (List.cons_ne_nil _ _) fun x hx => h x (List.mem_cons_of_mem _ hx))

/-- The digits of a natural number are digits, and write it. -/
theorem digits_toDigits (n : Nat) :
    ∃ ds, Digits (Nat.toDigits 10 n) ds ∧ ds.length = (Nat.toDigits 10 n).length
      ∧ ofDigits 10 ds = n := by
  refine ⟨_, digits_of_isDigit Nat.toDigits_ne_nil fun c => Nat.isDigit_of_mem_toDigits (by decide)
    (by decide), List.length_map _, ?_⟩
  unfold ofDigits
  rw [List.foldl_map]
  exact (Nat.ofDigitChars_eq_foldl (b := 10)).symm.trans Nat.ofDigitChars_ten_toDigits

/-- **The decimal form of a natural number** is read as the number, unless it is too long. -/
theorem int?_toString (n : Nat) :
    int? (toString n) = if (toString n).length ≤ maxDigits then some (n : Int) else none := by
  obtain ⟨ds, hdigits, hlength, hvalue⟩ := digits_toDigits n
  obtain ⟨first, hfirst, hblank⟩ := head?_sign .none hdigits
  obtain ⟨last, _, hlast, hdigit⟩ := hdigits.getLast?
  have htext : (toString n).toList = Nat.toDigits 10 n := by
    rw [Nat.toString_eq_ofList_toDigits, String.toList_ofList]
  have htrim : Text.trim (Nat.toDigits 10 n) = [] ++ Nat.toDigits 10 n := by
    have hnone : Blanks [] := nofun
    have := Text.trim_append hnone hnone hfirst hlast hblank (isBlank_of_digit? hdigit)
    rwa [List.append_nil, List.nil_append] at this
  have hlong : maxDigits < ds.length ↔ ¬ (toString n).length ≤ maxDigits := by
    rw [← String.length_toList, htext, hlength, Nat.not_le]
  unfold int?
  rw [htext, htrim, splitSign_append .none hdigits]
  dsimp only
  rw [digits?_of_digits hdigits]
  dsimp only
  rw [hvalue, if_congr hlong rfl rfl, ite_not]
  rfl

/-! ## Lengths -/

theorem digit?_lt {c : Char} {d : Nat} (h : digit? c = some d) : d < 10 := by
  unfold digit? at h
  split at h
  · obtain ⟨hdigit, h⟩ := Option.ite_none_right_eq_some.mp h
    have hc : 48 ≤ c.toNat ∧ c.toNat ≤ 57 := by
      simpa [Char.isDigit, UInt32.le_iff_toNat_le] using hdigit
    cases h
    omega
  · obtain ⟨z, hz, rfl⟩ := Option.map_eq_some_iff.mp h
    have hbounds := List.find?_some hz
    rw [Bool.and_eq_true, decide_eq_true_eq, decide_eq_true_eq] at hbounds
    omega

theorem Digits.ne_nil {cs : List Char} {ds : List Nat} (h : Digits cs ds) : ds ≠ [] := by
  cases h <;> exact List.cons_ne_nil _ _

theorem Digits.lt {cs : List Char} {ds : List Nat} (h : Digits cs ds) : ∀ d ∈ ds, d < 10 := by
  induction h with
  | last h => exact fun d hd => List.mem_singleton.mp hd ▸ digit?_lt h
  | next h _ ih => exact List.forall_mem_cons.mpr ⟨digit?_lt h, ih⟩
  | apart h _ ih => exact List.forall_mem_cons.mpr ⟨digit?_lt h, ih⟩

/-- Each further digit makes a number at most ten times as long. -/
theorem foldl_digits_lt {ds : List Nat} (h : ∀ d ∈ ds, d < 10) {n k : Nat} (hn : n < 10 ^ k) :
    ds.foldl (fun n d => 10 * n + d) n < 10 ^ (k + ds.length) := by
  induction ds generalizing n k with
  | nil => exact hn
  | cons d rest ih =>
    obtain ⟨hd, hrest⟩ := List.forall_mem_cons.mp h
    have hnext : 10 * n + d < 10 ^ (k + 1) := by
      rw [Nat.pow_succ]
      omega
    have := ih hrest hnext
    rwa [Nat.add_right_comm, Nat.add_assoc] at this

/-- **What some digits write** has no more digits than them. -/
theorem Digits.length_le {cs : List Char} {ds : List Nat} (h : Digits cs ds) :
    (toString (ofDigits 10 ds)).length ≤ ds.length := by
  have hlt : ofDigits 10 ds < 10 ^ ds.length := by
    have := foldl_digits_lt h.lt (n := 0) (k := 0) Nat.one_pos
    rwa [Nat.zero_add] at this
  rw [Nat.toString_eq_ofList_toDigits, ← String.length_toList, String.toList_ofList]
  exact (Nat.length_toDigits_le_iff (by decide) (List.length_pos_iff.mpr h.ne_nil)).mpr hlt

/-- An integer that is read has no more digits than are read. -/
theorem length_of_int? {s : String} {n : Int} (h : int? s = some n) :
    (toString n.natAbs).length ≤ maxDigits := by
  have hwrites := int?_eq_some_iff.mp h
  generalize s.toList = cs at hwrites
  cases hwrites with
  | @intro before sign digits after negative ds _ _ hdigits _ hlength =>
    have hvalue : (if negative then -(ofDigits 10 ds : Int) else ofDigits 10 ds).natAbs
        = ofDigits 10 ds := by
      split <;> omega
    rw [hvalue]
    exact hdigits.length_le.trans hlength

end Number

end ApiContract
