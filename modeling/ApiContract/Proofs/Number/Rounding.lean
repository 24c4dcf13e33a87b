import ApiContract.Number.Double
import ApiContract.Number.Shortest
import Mathlib.Algebra.Order.Field.Power
import Mathlib.Algebra.Order.Field.Rat
import Mathlib.Algebra.Ring.Parity
import Mathlib.Data.Rat.Cast.Order
import Mathlib.Tactic.Linarith
import Mathlib.Tactic.NormNum
import Mathlib.Tactic.Ring

/-!
# The values of binary64 numbers

A finite number stands for a rational one. Since its significand is odd or zero, numbers with one
value that is not an integer are one term, and the integer that is read off a number is its value.

Every finite binary64 number has an interval of reals that round to it. `Double.rounding` computes the
interval, and `Double.ofRatio` rounds: what lies in the interval of a number becomes the number.

* **`toInt?_eq_some_iff`** — the integers among the values.
* **`eq_of_value?_eq`** — the other values.
* **`lastPlace_eq`** — the exponent of the last place, from the bounds that it has.
* **`roundHalfEven_eq`** — rounding to a natural number.
* **`ofRatio_of_contains`** — the headline.
* **`isCanonical_ofRatio`** — the form of what is rounded.
-/

namespace ApiContract.Double

/-- A number in its one form: the significand is odd, or significand and exponent are zero. -/
def IsExact : Double → Prop
  | .nan => False
  | .infinite _ => True
  | .finite _ significand exponent => significand % 2 = 1 ∨ significand = 0 ∧ exponent = 0

/-- The significand with its sign. -/
def signed (negative : Bool) (significand : Nat) : Int :=
  if negative then -significand else significand

/-- The value of a finite number. -/
def value? : Double → Option ℚ
  | .finite negative significand exponent => some (signed negative significand * 2 ^ exponent)
  | .nan | .infinite _ => none

theorem signed_mul (negative : Bool) (m k : Nat) :
    signed negative (m * k) = signed negative m * k := by
  cases negative <;> simp [signed]

theorem odd_signed {negative : Bool} {m : Nat} (h : m % 2 = 1) : signed negative m % 2 = 1 := by
  unfold signed
  split <;> omega

theorem signed_inj {s t : Bool} {m n : Nat} (hm : m ≠ 0) (h : signed s m = signed t n) :
    s = t ∧ m = n := by
  unfold signed at h
  cases s <;> cases t <;> simp at h ⊢ <;> omega

/-- A factor of two is seen in the significand. -/
theorem even_of_eq_mul_two_pow {a b : Int} {k : Nat} (h : a = b * 2 ^ (k + 1)) : a % 2 = 0 := by
  rw [h, pow_succ, ← mul_assoc]
  exact Int.mul_emod_left _ _

/-- Values with different exponents have significands that differ by a power of two. -/
theorem eq_mul_of_value_eq {a b : Int} {e : Int} {k : Nat}
    (h : (a : ℚ) * 2 ^ e = b * 2 ^ (e + k)) : a = b * 2 ^ k := by
  have htwo : (2 : ℚ) ^ e ≠ 0 := zpow_ne_zero e two_ne_zero
  rw [zpow_add₀ two_ne_zero, zpow_natCast, mul_comm ((2 : ℚ) ^ e), ← mul_assoc] at h
  exact_mod_cast mul_right_cancel₀ htwo h

/-- Odd significands are told apart by their values. -/
theorem odd_value_inj {a b e f : Int} (ha : a % 2 = 1) (hb : b % 2 = 1)
    (h : (a : ℚ) * 2 ^ e = b * 2 ^ f) : a = b ∧ e = f := by
  wlog hle : e ≤ f generalizing a b e f
  · obtain ⟨hab, hef⟩ := this hb ha h.symm (Int.le_of_not_le hle)
    exact ⟨hab.symm, hef.symm⟩
  obtain ⟨k, rfl⟩ := Int.le.dest hle
  have hmul := eq_mul_of_value_eq h
  cases k with
  | zero => exact ⟨by simpa using hmul, by simp⟩
  | succ k =>
    rw [even_of_eq_mul_two_pow hmul] at ha
    cases ha

theorem toInt?_finite (s : Bool) (m : Nat) (e : Int) :
    (finite s m e).toInt? = if e < 0 then none else some (signed s (m <<< e.natAbs)) := rfl

/-- A number that is no integer has an odd significand. -/
theorem odd_of_toInt?_eq_none {s : Bool} {m : Nat} {e : Int} (h : (finite s m e).IsExact)
    (hint : (finite s m e).toInt? = none) : m % 2 = 1 := by
  rw [toInt?_finite] at hint
  rcases h with hodd | ⟨-, rfl⟩
  · exact hodd
  · cases hint

/-- **The integer of a number is its value.** -/
theorem toInt?_eq_some_iff {x : Double} (h : x.IsExact) {n : Int} :
    x.toInt? = some n ↔ x.value? = some (n : ℚ) := by
  cases x with
  | nan => cases h
  | infinite s => simp [toInt?, value?]
  | finite s m e =>
    rw [toInt?_finite, value?]
    by_cases he : e < 0
    · -- the value is a fraction with an odd numerator
      rw [if_pos he]
      refine iff_of_false (by simp) fun hvalue => ?_
      obtain ⟨k, hk⟩ : ∃ k : Nat, e + ((k + 1 : Nat) : Int) = 0 := ⟨e.natAbs - 1, by omega⟩
      have hsigned : signed s m = n * 2 ^ (k + 1) := by
        refine eq_mul_of_value_eq (e := e) ?_
        rw [hk, zpow_zero, mul_one]
        exact Option.some.inj hvalue
      rcases h with hodd | ⟨-, hzero⟩
      · have heven := even_of_eq_mul_two_pow hsigned
        rw [odd_signed hodd] at heven
        cases heven
      · omega
    · rw [if_neg he]
      obtain ⟨k, rfl⟩ := Int.eq_ofNat_of_zero_le (Int.not_lt.mp he)
      rw [Int.natAbs_natCast, Nat.shiftLeft_eq, signed_mul, Option.some.injEq, Option.some.injEq,
        zpow_natCast]
      exact_mod_cast Iff.rfl

/-- **Numbers with one value that is not an integer are equal.** -/
theorem eq_of_value?_eq {x y : Double} (hx : x.IsExact) (hy : y.IsExact)
    (hxint : x.toInt? = none) (hyint : y.toInt? = none) {q : ℚ} (hxq : x.value? = some q)
    (hyq : y.value? = some q) : x = y := by
  cases x with
  | nan => cases hxq
  | infinite s => cases hxq
  | finite s m e =>
    cases y with
    | nan => cases hyq
    | infinite t => cases hyq
    | finite t n f =>
      have hm := odd_of_toInt?_eq_none hx hxint
      have hn := odd_of_toInt?_eq_none hy hyint
      have hvalue := Option.some.inj (hxq.trans hyq.symm)
      obtain ⟨hsigned, rfl⟩ := odd_value_inj (odd_signed hm) (odd_signed hn) hvalue
      obtain ⟨rfl, rfl⟩ := signed_inj (by omega) hsigned
      rfl

/-! ## Rounding -/

/-- A finite binary64 number in its one form: an odd significand of at most 53 bits, or zero. -/
def IsBinary64 : Double → Prop
  | .finite _ m e => m = 0 ∧ e = 0 ∨ m % 2 = 1 ∧ m.log2 ≤ 52 ∧ -1074 ≤ e ∧ e + m.log2 ≤ 1023
  | .nan | .infinite _ => False

/-- A significand filled up to 53 bits where the range of exponents allows it. -/
structure Filled (m : Nat) (e : Int) : Prop where
  pos : 0 < m
  lt : m < 2 * leastSignificand
  low : -1074 ≤ e
  high : e ≤ 971
  full : leastSignificand ≤ m ∨ e = -1074

/-! ## Powers of two -/

variable {num den : Nat}

theorem two_zpow_pos (e : Int) : (0 : ℚ) < 2 ^ e := zpow_pos two_pos e

/-- Moving a power of two into a fraction. -/
theorem scaleRatio_eq (num den : Nat) (e : Int) :
    ((scaleRatio num den e).1 : ℚ) / (scaleRatio num den e).2 = num / den / 2 ^ e := by
  unfold scaleRatio
  split
  · rename_i he
    obtain ⟨k, rfl⟩ : ∃ k : Nat, e = -k := ⟨e.natAbs, by omega⟩
    rw [Int.natAbs_neg, Int.natAbs_natCast, Nat.shiftLeft_eq, zpow_neg, zpow_natCast, div_inv_eq_mul]
    push_cast
    ring
  · rename_i he
    obtain ⟨k, rfl⟩ : ∃ k : Nat, e = k := ⟨e.natAbs, by omega⟩
    rw [Int.natAbs_natCast, Nat.shiftLeft_eq, zpow_natCast]
    push_cast
    rw [div_div]

theorem scaleRatio_pos (hden : 0 < den) (e : Int) : 0 < (scaleRatio num den e).2 := by
  unfold scaleRatio
  split
  · exact hden
  · rw [Nat.shiftLeft_eq]
    exact Nat.mul_pos hden (Nat.two_pow_pos _)

/-- A fraction lies between the powers of two that the lengths of its parts give. -/
theorem ratio_bounds (hnum : 0 < num) (hden : 0 < den) :
    (2 : ℚ) ^ ((num.log2 : Int) - den.log2 - 1) < num / den
      ∧ (num : ℚ) / den < 2 ^ ((num.log2 : Int) - den.log2 + 1) := by
  have hlow : (2 : ℚ) ^ num.log2 ≤ num := by exact_mod_cast Nat.log2_self_le hnum.ne'
  have hhigh : (num : ℚ) < 2 ^ (num.log2 + 1) := by exact_mod_cast Nat.lt_log2_self
  have hlow' : (2 : ℚ) ^ den.log2 ≤ den := by exact_mod_cast Nat.log2_self_le hden.ne'
  have hhigh' : (den : ℚ) < 2 ^ (den.log2 + 1) := by exact_mod_cast Nat.lt_log2_self
  have hden' : (0 : ℚ) < den := by exact_mod_cast hden
  constructor
  · rw [lt_div_iff₀ hden']
    calc (2 : ℚ) ^ ((num.log2 : Int) - den.log2 - 1) * den
        < 2 ^ ((num.log2 : Int) - den.log2 - 1) * 2 ^ (den.log2 + 1) :=
          mul_lt_mul_of_pos_left hhigh' (two_zpow_pos _)
      _ = 2 ^ num.log2 := by
          rw [← zpow_natCast, ← zpow_natCast, ← zpow_add₀ two_ne_zero]
          congr 1
          push_cast
          ring
      _ ≤ num := hlow
  · rw [div_lt_iff₀ hden']
    calc (num : ℚ) < 2 ^ (num.log2 + 1) := hhigh
      _ = 2 ^ ((num.log2 : Int) - den.log2 + 1) * 2 ^ den.log2 := by
          rw [← zpow_natCast, ← zpow_natCast, ← zpow_add₀ two_ne_zero]
          congr 1
          push_cast
          ring
      _ ≤ 2 ^ ((num.log2 : Int) - den.log2 + 1) * den :=
          mul_le_mul_of_nonneg_left hlow' (two_zpow_pos _).le

/-! ## The last place -/

/-- The bounds that the exponent of the last place has. -/
structure IsLastPlace (v : ℚ) (e : Int) : Prop where
  low : -1074 ≤ e
  lt : v < 2 ^ (e + 53)
  full : e = -1074 ∨ 2 ^ (e + 52) ≤ v

theorem two_zpow_le {a b : Int} (h : a ≤ b) : (2 : ℚ) ^ a ≤ 2 ^ b :=
  zpow_le_zpow_right₀ one_le_two h

/-- There is one exponent with these bounds. -/
theorem IsLastPlace.unique {v : ℚ} {e f : Int} (he : IsLastPlace v e) (hf : IsLastPlace v f) :
    e = f := by
  wlog hlt : e < f generalizing e f
  · rcases Int.lt_trichotomy e f with h | h | h
    · exact absurd h hlt
    · exact h
    · exact (this hf he h).symm
  have hlow := he.low
  rcases hf.full with hbottom | hfull
  · omega
  · have hpow : (2 : ℚ) ^ (e + 53) ≤ 2 ^ (f + 52) := two_zpow_le (by omega)
    exact absurd (he.lt.trans_le (hpow.trans hfull)) (lt_irrefl _)

theorem natDiv_lt_iff (hden : 0 < den) (k : Nat) : num / den < k ↔ (num : ℚ) / den < k := by
  rw [Nat.div_lt_iff_lt_mul hden, div_lt_iff₀ (by exact_mod_cast hden)]
  exact_mod_cast Iff.rfl

theorem isLastPlace_lastPlace (hnum : 0 < num) (hden : 0 < den) :
    IsLastPlace ((num : ℚ) / den) (lastPlace num den) := by
  obtain ⟨hlow, hhigh⟩ := ratio_bounds hnum hden
  unfold lastPlace
  dsimp only
  set guess : Int := max ((num.log2 : Int) - (den.log2 : Int) - 52) (-1074) with hguess
  have hbelow : (num : ℚ) / den < 2 ^ (guess + 53) :=
    hhigh.trans_le (two_zpow_le (by omega))
  have hcompare : (scaleRatio num den guess).1 / (scaleRatio num den guess).2 < leastSignificand
      ↔ (num : ℚ) / den < 2 ^ (guess + 52) := by
    have hleast : ((leastSignificand : Nat) : ℚ) = 2 ^ (52 : Int) := by
      norm_num [leastSignificand]
    rw [natDiv_lt_iff (scaleRatio_pos hden guess), scaleRatio_eq, div_lt_iff₀ (two_zpow_pos _),
      hleast, ← zpow_add₀ two_ne_zero, add_comm]
  by_cases hsmall : (scaleRatio num den guess).1 / (scaleRatio num den guess).2 < leastSignificand
  · rw [if_pos hsmall]
    have hsmall' := hcompare.mp hsmall
    by_cases hbottom : guess = -1074
    · have hmax : max (guess - 1) (-1074) = guess := by omega
      rw [hmax]
      exact ⟨by omega, hbelow, .inl hbottom⟩
    · have hmax : max (guess - 1) (-1074) = guess - 1 := by omega
      rw [hmax]
      refine ⟨by omega, hsmall'.trans_le (two_zpow_le (by omega)), .inr ?_⟩
      exact (two_zpow_le (by omega)).trans hlow.le
  · rw [if_neg hsmall]
    exact ⟨by omega, hbelow, .inr (not_lt.mp (mt hcompare.mpr hsmall))⟩

/-- **The exponent of the last place** is the one with its bounds. -/
theorem lastPlace_eq (hnum : 0 < num) (hden : 0 < den) {e : Int}
    (h : IsLastPlace ((num : ℚ) / den) e) : lastPlace num den = e :=
  (isLastPlace_lastPlace hnum hden).unique h

/-! ## Rounding to a natural number -/

/-- **Rounding to a natural number**: the distance is less than a half, or a half and the number is
even. -/
theorem roundHalfEven_eq {m : Nat} (hden : 0 < den)
    (h : 2 * m * den < 2 * num + den ∧ 2 * num < 2 * m * den + den
      ∨ m % 2 = 0 ∧ 2 * m * den ≤ 2 * num + den ∧ 2 * num ≤ 2 * m * den + den) :
    roundHalfEven num den = m := by
  have hsplit : den * (num / den) + num % den = num := Nat.div_add_mod num den
  have hlt : num % den < den := Nat.mod_lt num hden
  unfold roundHalfEven
  dsimp only
  generalize num / den = q at hsplit ⊢
  generalize num % den = r at hsplit hlt ⊢
  -- the number is the lower neighbour or the upper one
  have htwice : 2 * m * den = 2 * (m * den) := Nat.mul_assoc 2 m den
  have hupper : m ≤ q + 1 := by
    by_contra hgt
    have hproduct : (q + 2) * den ≤ m * den := Nat.mul_le_mul_right den (by omega)
    have hdistrib : (q + 2) * den = den * q + 2 * den := by ring
    omega
  have hlower : q ≤ m := by
    by_contra hlt'
    have hproduct : (m + 1) * den ≤ q * den := Nat.mul_le_mul_right den (by omega)
    have hdistrib : (m + 1) * den = m * den + den := by ring
    have hcomm : q * den = den * q := Nat.mul_comm q den
    omega
  obtain rfl | rfl : m = q ∨ m = q + 1 := by omega
  · have hproduct : 2 * m * den = 2 * (den * m) := by ring
    split
    · rfl
    · split
      · omega
      · split
        · rfl
        · omega
  · have hproduct : 2 * (q + 1) * den = 2 * (den * q) + 2 * den := by ring
    split
    · omega
    · split
      · rfl
      · split
        · omega
        · rfl

/-- The same with the quotient in place of its parts. -/
theorem roundHalfEven_of_bounds {m : Nat} (hden : 0 < den) {q : ℚ} (hq : (num : ℚ) / den = q)
    (h : (m : ℚ) - 1 / 2 < q ∧ q < m + 1 / 2
      ∨ m % 2 = 0 ∧ (m : ℚ) - 1 / 2 ≤ q ∧ q ≤ m + 1 / 2) :
    roundHalfEven num den = m := by
  have hden' : (0 : ℚ) < den := by exact_mod_cast hden
  have hnum : (num : ℚ) = q * den := by
    rw [← hq, div_mul_cancel₀ _ hden'.ne']
  refine roundHalfEven_eq hden (h.imp ?_ ?_)
  · rintro ⟨hlow, hhigh⟩
    have hlow' : (2 * m * den : ℚ) < 2 * num + den := by rw [hnum]; nlinarith
    have hhigh' : (2 * num : ℚ) < 2 * m * den + den := by rw [hnum]; nlinarith
    exact ⟨by exact_mod_cast hlow', by exact_mod_cast hhigh'⟩
  · rintro ⟨heven, hlow, hhigh⟩
    have hlow' : (2 * m * den : ℚ) ≤ 2 * num + den := by rw [hnum]; nlinarith
    have hhigh' : (2 * num : ℚ) ≤ 2 * m * den + den := by rw [hnum]; nlinarith
    exact ⟨heven, by exact_mod_cast hlow', by exact_mod_cast hhigh'⟩

/-! ## Intervals -/

/-- Whether a rational number lies in the interval. -/
def Rounding.Contains (r : Rounding) (v : ℚ) : Prop :=
  if r.closed then (r.low : ℚ) / r.den ≤ v ∧ v ≤ r.high / r.den
  else (r.low : ℚ) / r.den < v ∧ v < r.high / r.den

/-- The lower end is nearer below a power of two. -/
def IsNarrow (m : Nat) (e : Int) : Prop := m = leastSignificand ∧ e ≠ -1074

instance (m : Nat) (e : Int) : Decidable (IsNarrow m e) := inferInstanceAs (Decidable (_ ∧ _))

theorem rounding_den_pos (m : Nat) (e : Int) : 0 < (rounding m e).den := by
  unfold rounding
  dsimp only
  split
  · rw [Nat.one_shiftLeft]
    exact Nat.two_pow_pos _
  · exact Nat.one_pos

/-- Quarters of the last place over the denominator of the interval. -/
theorem quarters_eq (n : Nat) (e : Int) :
    (if e - 2 < 0 then (n : ℚ) / (1 <<< (e - 2).natAbs : Nat)
      else ((n * (1 <<< (e - 2).natAbs) : Nat) : ℚ) / (1 : Nat)) = n / 4 * 2 ^ e := by
  have hquarter : (n : ℚ) / 4 * 2 ^ e = n * 2 ^ (e - 2) := by
    rw [zpow_sub₀ two_ne_zero]
    norm_num
    ring
  rw [hquarter, Nat.one_shiftLeft]
  split
  · obtain ⟨k, hk⟩ : ∃ k : Nat, e - 2 = -k := ⟨(e - 2).natAbs, by omega⟩
    rw [hk, Int.natAbs_neg, Int.natAbs_natCast, zpow_neg, zpow_natCast]
    push_cast
    rfl
  · obtain ⟨k, hk⟩ : ∃ k : Nat, e - 2 = k := ⟨(e - 2).natAbs, by omega⟩
    rw [hk, Int.natAbs_natCast, zpow_natCast]
    push_cast
    rw [div_one]

variable {m : Nat} {e : Int}

theorem rounding_value (m : Nat) (e : Int) :
    ((rounding m e).value : ℚ) / (rounding m e).den = m * 2 ^ e := by
  have h := quarters_eq (4 * m) e
  have hfour : ((4 * m : Nat) : ℚ) / 4 = m := by
    push_cast
    ring
  rw [hfour] at h
  rw [← h]
  unfold rounding
  dsimp only
  split <;> rfl

theorem rounding_high (m : Nat) (e : Int) :
    ((rounding m e).high : ℚ) / (rounding m e).den = (m + 1 / 2) * 2 ^ e := by
  have h := quarters_eq (4 * m + 2) e
  have hhalf : ((4 * m + 2 : Nat) : ℚ) / 4 = m + 1 / 2 := by
    push_cast
    ring
  rw [hhalf] at h
  rw [← h]
  unfold rounding
  dsimp only
  split <;> rfl

/-- The distance of the lower end, in units of the last place. -/
def lowerGap (m : Nat) (e : Int) : ℚ := if IsNarrow m e then 1 / 4 else 1 / 2

theorem rounding_low (hm : 0 < m) (e : Int) :
    ((rounding m e).low : ℚ) / (rounding m e).den = (m - lowerGap m e) * 2 ^ e := by
  have hnarrow : (m == leastSignificand && e != -1074) = decide (IsNarrow m e) := by
    rw [Bool.eq_iff_iff, decide_eq_true_iff]
    simp [IsNarrow]
  have h := quarters_eq (if IsNarrow m e then 4 * m - 1 else 4 * m - 2) e
  have hgap : ((if IsNarrow m e then 4 * m - 1 else 4 * m - 2 : Nat) : ℚ) / 4
      = m - lowerGap m e := by
    unfold lowerGap
    split
    · rw [Nat.cast_sub (by omega)]
      push_cast
      ring
    · rw [Nat.cast_sub (by omega)]
      push_cast
      ring
  rw [hgap] at h
  rw [← h]
  unfold rounding
  dsimp only
  rw [hnarrow]
  simp only [decide_eq_true_eq]
  split <;> rfl

theorem rounding_closed (m : Nat) (e : Int) : (rounding m e).closed = (m % 2 == 0) := by
  unfold rounding
  dsimp only
  split <;> rfl

/-- The interval of a number, in units of the last place. -/
theorem contains_iff (hm : 0 < m) {v : ℚ} :
    (rounding m e).Contains v
      ↔ (m : ℚ) - lowerGap m e < v / 2 ^ e ∧ v / 2 ^ e < m + 1 / 2
        ∨ m % 2 = 0 ∧ (m : ℚ) - lowerGap m e ≤ v / 2 ^ e ∧ v / 2 ^ e ≤ m + 1 / 2 := by
  unfold Rounding.Contains
  rw [rounding_closed, rounding_low hm, rounding_high, lt_div_iff₀ (two_zpow_pos e),
    div_lt_iff₀ (two_zpow_pos e), le_div_iff₀ (two_zpow_pos e), div_le_iff₀ (two_zpow_pos e)]
  by_cases heven : m % 2 = 0
  · rw [if_pos (by simp [heven])]
    exact ⟨fun h => .inr ⟨heven, h⟩, fun h => h.elim (fun h => ⟨h.1.le, h.2.le⟩) And.right⟩
  · rw [if_neg (by simp [heven])]
    exact ⟨.inl, fun h => h.elim id fun h => absurd h.1 heven⟩

/-! ## Rounding to binary64 -/

theorem lowerGap_le (m : Nat) (e : Int) : lowerGap m e ≤ 1 / 2 := by
  unfold lowerGap
  split <;> norm_num

/-- Within a half of a significand with nothing between it and the last place. -/
theorem ofRatio_of_lastPlace (hnum : 0 < num) (hden : 0 < den)
    (hplace : IsLastPlace ((num : ℚ) / den) e)
    (hround : (m : ℚ) - 1 / 2 < num / den / 2 ^ e ∧ (num : ℚ) / den / 2 ^ e < m + 1 / 2
      ∨ m % 2 = 0 ∧ (m : ℚ) - 1 / 2 ≤ num / den / 2 ^ e ∧ (num : ℚ) / den / 2 ^ e ≤ m + 1 / 2)
    (hrange : ¬(2 * leastSignificand ≤ m ∧ 971 ≤ e ∨ 972 ≤ e)) (negative : Bool) :
    ofRatio negative num den = ofScaled negative m e := by
  unfold ofRatio
  rw [if_neg hnum.ne']
  dsimp only
  rw [lastPlace_eq hnum hden hplace,
    roundHalfEven_of_bounds (scaleRatio_pos hden e) (scaleRatio_eq num den e) hround, if_neg hrange]

/-- A factor of two may stand in the significand or in the exponent. -/
theorem ofScaled_double (negative : Bool) {m : Nat} (hm : 0 < m) (e : Int) :
    ofScaled negative (2 * m) (e - 1) = ofScaled negative m e := by
  have hlog : (2 * m).log2 = m.log2 + 1 := by
    rw [Nat.log2_two_mul hm.ne']
  unfold ofScaled
  rw [if_neg (by omega), if_neg hm.ne', hlog, reduceTwos, if_pos (by omega),
    Nat.mul_div_cancel_left m two_pos, Int.sub_add_cancel]

/-- **What lies in the interval of a number is rounded to it.** -/
theorem ofRatio_of_contains (hnum : 0 < num) (hden : 0 < den) (h : Filled m e)
    (hv : (rounding m e).Contains ((num : ℚ) / den)) (negative : Bool) :
    ofRatio negative num den = ofScaled negative m e := by
  have hbounds := (contains_iff h.pos).mp hv
  have hlow : (m : ℚ) - lowerGap m e ≤ num / den / 2 ^ e :=
    hbounds.elim (fun h => h.1.le) fun h => h.2.1
  have hhigh : (num : ℚ) / den / 2 ^ e ≤ m + 1 / 2 :=
    hbounds.elim (fun h => h.2.le) fun h => h.2.2
  have hgap := lowerGap_le m e
  have hleast : ((leastSignificand : Nat) : ℚ) = 2 ^ (52 : Int) := by norm_num [leastSignificand]
  have hm : (m : ℚ) + 1 ≤ 2 * 2 ^ (52 : Int) := by
    rw [← hleast]
    exact_mod_cast h.lt
  -- the number is below the power of two above its significand
  have hbelow : (num : ℚ) / den < 2 ^ (e + 53) := by
    have hpow : (2 : ℚ) ^ (e + 53) = 2 * 2 ^ (52 : Int) * 2 ^ e := by
      rw [zpow_add₀ two_ne_zero, mul_comm]
      norm_num
    rw [hpow, ← div_lt_iff₀ (two_zpow_pos e)]
    linarith
  by_cases hfull : e = -1074 ∨ (2 : ℚ) ^ (e + 52) ≤ num / den
  · refine ofRatio_of_lastPlace hnum hden ⟨h.low, hbelow, hfull⟩ ?_ ?_ negative
    · refine hbounds.imp ?_ ?_
      · exact fun hstrict => ⟨by linarith, hstrict.2⟩
      · exact fun hclosed => ⟨hclosed.1, by linarith, hclosed.2.2⟩
    · have := h.lt
      have := h.high
      omega
  · -- just below a power of two the last place is one lower
    obtain ⟨hbottom, hsmall⟩ := not_or.mp hfull
    rw [not_le] at hsmall
    have hless : (num : ℚ) / den / 2 ^ e < 2 ^ (52 : Int) := by
      rw [div_lt_iff₀ (two_zpow_pos e), ← zpow_add₀ two_ne_zero, add_comm]
      exact hsmall
    obtain rfl : m = leastSignificand := by
      refine le_antisymm ?_ (h.full.resolve_right hbottom)
      have hclose : (m : ℚ) < (leastSignificand + 1 : Nat) := by
        push_cast
        rw [hleast]
        linarith
      exact Nat.le_of_lt_succ (by exact_mod_cast hclose)
    have hquarter : lowerGap leastSignificand e = 1 / 4 := if_pos ⟨rfl, hbottom⟩
    rw [hquarter, hleast] at hlow
    have hhalved : (num : ℚ) / den / 2 ^ (e - 1) = 2 * (num / den / 2 ^ e) := by
      rw [zpow_sub_one₀ two_ne_zero, div_mul_eq_div_div_swap]
      ring
    have hplace : IsLastPlace ((num : ℚ) / den) (e - 1) := by
      have hlowest := h.low
      refine ⟨by omega, ?_, .inr ?_⟩
      · exact hsmall.trans_le (two_zpow_le (by omega))
      · have hpow : (2 : ℚ) ^ (e - 1 + 52) = 1 / 2 * 2 ^ (52 : Int) * 2 ^ e := by
          rw [zpow_add₀ two_ne_zero, zpow_sub_one₀ two_ne_zero]
          ring
        rw [hpow, ← le_div_iff₀ (two_zpow_pos e)]
        have hlarge : (1 : ℚ) ≤ 2 ^ (52 : Int) := by norm_num
        linarith
    rw [← ofScaled_double negative h.pos]
    refine ofRatio_of_lastPlace hnum hden hplace (.inr ⟨by decide, ?_, ?_⟩) ?_ negative
    · rw [hhalved]
      push_cast
      rw [hleast]
      linarith
    · rw [hhalved]
      push_cast
      rw [hleast]
      linarith
    · have := h.high
      omega

/-! ## Filled significands -/

theorem ofScaled_shift (negative : Bool) (hm : 0 < m) (e : Int) (k : Nat) :
    ofScaled negative (m * 2 ^ k) (e - k) = ofScaled negative m e := by
  induction k with
  | zero => simp
  | succ k ih =>
    have hproduct : m * 2 ^ (k + 1) = 2 * (m * 2 ^ k) := by ring
    have hexponent : e - (k + 1 : Nat) = e - k - 1 := by
      push_cast
      ring
    rw [hproduct, hexponent, ofScaled_double negative (Nat.mul_pos hm (Nat.two_pow_pos k)), ih]

/-- An odd significand stays as it is. -/
theorem ofScaled_odd (negative : Bool) (hm : m % 2 = 1) (e : Int) :
    ofScaled negative m e = .finite negative m e := by
  have hkept : ∀ fuel, reduceTwos fuel m e = (m, e) := by
    intro fuel
    cases fuel with
    | zero => rfl
    | succ fuel =>
      rw [reduceTwos, if_neg]
      omega
  unfold ofScaled
  rw [if_neg (by omega), hkept]

theorem log2_mul_two_pow (hm : 0 < m) (k : Nat) : (m * 2 ^ k).log2 = m.log2 + k := by
  induction k with
  | zero => rw [pow_zero, mul_one, add_zero]
  | succ k ih =>
    have hproduct : m * 2 ^ (k + 1) = 2 * (m * 2 ^ k) := by ring
    rw [hproduct, Nat.log2_two_mul (Nat.mul_pos hm (Nat.two_pow_pos k)).ne', ih, add_assoc]

/-- **A number with its significand filled up**: the same value, and the form that `ofRatio` rounds
to. -/
theorem filled_spec (hodd : m % 2 = 1) (hbits : m.log2 ≤ 52) (hlow : -1074 ≤ e)
    (hhigh : e + m.log2 ≤ 1023) :
    Filled (filled m e).1 (filled m e).2
      ∧ ∀ negative, ofScaled negative (filled m e).1 (filled m e).2 = .finite negative m e := by
  have hpos : 0 < m := by omega
  obtain ⟨k, hk⟩ : ∃ k : Nat, min (52 - (m.log2 : Int)) (e + 1074) = k :=
    ⟨(min (52 - (m.log2 : Int)) (e + 1074)).toNat, by omega⟩
  have hfilled : filled m e = (m * 2 ^ k, e - k) := by
    unfold filled
    dsimp only
    rw [hk, if_pos (by omega), Int.toNat_natCast, Nat.shiftLeft_eq]
  have hlog := log2_mul_two_pow hpos k
  have hpos' : 0 < m * 2 ^ k := Nat.mul_pos hpos (Nat.two_pow_pos k)
  rw [hfilled]
  refine ⟨⟨hpos', ?_, by omega, by omega, ?_⟩, fun negative => ?_⟩
  · have htwice : 2 * leastSignificand = 2 ^ 53 := by decide
    rw [htwice, ← Nat.log2_lt hpos'.ne', hlog]
    omega
  · by_cases hbottom : (k : Int) = e + 1074
    · exact .inr (by omega)
    · left
      have hleast : leastSignificand = 2 ^ 52 := by decide
      rw [hleast, ← Nat.le_log2 hpos'.ne', hlog]
      omega
  · rw [ofScaled_shift negative hpos, ofScaled_odd negative hodd]

/-! ## What rounding gives -/

/-- A number in the form that rounding gives it: a finite one is a binary64 number. -/
def IsCanonical : Double → Prop
  | .nan | .infinite _ => True
  | .finite negative m e => (finite negative m e).IsBinary64

/-- Moving the factors of two out leaves an odd significand and the same value. -/
theorem reduceTwos_spec {fuel : Nat} (hm : 0 < m) (hfuel : m.log2 ≤ fuel) (e : Int) :
    ∃ n k : Nat, reduceTwos fuel m e = (n, e + k) ∧ m = n * 2 ^ k ∧ n % 2 = 1 := by
  induction fuel generalizing m e with
  | zero =>
    have hone : m < 2 ^ 1 := (Nat.log2_lt hm.ne').mp (by omega)
    exact ⟨m, 0, by simp [reduceTwos], by simp, by omega⟩
  | succ fuel ih =>
    rw [reduceTwos]
    split
    · rename_i heven
      obtain ⟨half, rfl⟩ : ∃ half, m = 2 * half := ⟨m / 2, by omega⟩
      have hhalf : 0 < half := by omega
      rw [Nat.log2_two_mul hhalf.ne'] at hfuel
      obtain ⟨n, k, hreduce, hvalue, hodd⟩ := ih hhalf (by omega) (e + 1)
      rw [Nat.mul_div_cancel_left half two_pos, hreduce]
      refine ⟨n, k + 1, ?_, ?_, hodd⟩
      · push_cast
        rw [Prod.mk.injEq]
        exact ⟨rfl, by ring⟩
      · rw [hvalue]
        ring
    · exact ⟨m, 0, by simp, by simp, by omega⟩

/-- A significand of at most 53 bits, or the next power of two, with an exponent in range. -/
theorem isBinary64_ofScaled (hm : m ≤ 2 * leastSignificand) (hlow : -1074 ≤ e)
    (hrange : ¬(2 * leastSignificand ≤ m ∧ 971 ≤ e ∨ 972 ≤ e)) (negative : Bool) :
    (ofScaled negative m e).IsBinary64 := by
  unfold ofScaled
  split
  · exact .inl ⟨rfl, rfl⟩
  · rename_i hzero
    have hpos := Nat.pos_of_ne_zero hzero
    obtain ⟨n, k, hreduce, hvalue, hodd⟩ := reduceTwos_spec hpos le_rfl e
    rw [hreduce]
    have hlog : m.log2 = n.log2 + k := by
      rw [hvalue]
      exact log2_mul_two_pow (by omega) k
    have htwice : 2 * leastSignificand = 2 ^ 53 := by decide
    rw [htwice] at hm hrange
    -- the power of two itself is even, so its odd part is shorter
    have hbits : m.log2 ≤ 52 ∨ m.log2 = 53 ∧ e ≤ 970 ∧ 1 ≤ k := by
      rcases Nat.lt_or_eq_of_le hm with hlt | rfl
      · have := (Nat.log2_lt hzero).mpr hlt
        exact .inl (by omega)
      · refine .inr ⟨Nat.log2_two_pow, by omega, ?_⟩
        rcases Nat.eq_zero_or_pos k with rfl | hk
        · omega
        · exact hk
    refine .inr ⟨hodd, ?_, ?_, ?_⟩ <;> omega

theorem roundHalfEven_le (num den : Nat) : roundHalfEven num den ≤ num / den + 1 := by
  unfold roundHalfEven
  dsimp only
  split
  · omega
  split
  · omega
  split <;> omega

/-- **Rounding gives a binary64 number**, or an infinite one. -/
theorem isCanonical_ofRatio (hden : 0 < den) (negative : Bool) :
    (ofRatio negative num den).IsCanonical := by
  unfold ofRatio
  split
  · exact .inl ⟨rfl, rfl⟩
  · rename_i hzero
    have hplace := isLastPlace_lastPlace (Nat.pos_of_ne_zero hzero) hden
    dsimp only
    generalize lastPlace num den = e at hplace
    split
    · exact trivial
    · rename_i hrange
      have hquotient : (scaleRatio num den e).1 / (scaleRatio num den e).2 < 2 * leastSignificand := by
        have htwice : ((2 * leastSignificand : Nat) : ℚ) = 2 ^ (53 : Int) := by
          norm_num [leastSignificand]
        rw [natDiv_lt_iff (scaleRatio_pos hden e), scaleRatio_eq, div_lt_iff₀ (two_zpow_pos _),
          htwice, ← zpow_add₀ two_ne_zero, add_comm]
        exact hplace.lt
      have hround := roundHalfEven_le (scaleRatio num den e).1 (scaleRatio num den e).2
      have hbinary := isBinary64_ofScaled (by omega) hplace.low hrange negative
      generalize ofScaled negative _ e = x at hbinary
      cases x with
      | nan => exact hbinary.elim
      | infinite s => exact hbinary.elim
      | finite s m e => exact hbinary

theorem isCanonical_ofInt (n : Int) : (ofInt n).IsCanonical := isCanonical_ofRatio one_pos _

theorem isCanonical_ofDecimal (negative : Bool) (digits : Nat) (exponent : Int) :
    (ofDecimal negative digits exponent).IsCanonical := by
  unfold ofDecimal
  split
  · exact .inl ⟨rfl, rfl⟩
  split
  · exact trivial
  split
  · exact .inl ⟨rfl, rfl⟩
  split
  · exact isCanonical_ofRatio one_pos negative
  · exact isCanonical_ofRatio (Nat.pow_pos (by decide)) negative

end ApiContract.Double
