import ApiContract.Proofs.Number.Rounding
import Mathlib.Data.Nat.Digits.Defs

/-!
# The shortest digits read back

The digits that `Double.shortestDigits` finds lie in the interval of the number, so rounding them
gives the number again. Seventeen digits are always enough: their grid is finer than the interval.

* **`holds_iff`** / **`neighbours_bounds`** — the interval and the grids as rational numbers.
* **`shortestDigits_contains`** — the digits that are found.
* **`ofDecimal_of_contains`** — a decimal in the interval is read as the number.
-/

namespace ApiContract.Double

/-! ## Powers of ten -/

variable {num den : Nat} {c : Nat} {k : Int}

theorem ten_zpow_pos (k : Int) : (0 : ℚ) < 10 ^ k := zpow_pos (by norm_num) k

/-- Below one, a power of ten is smaller than that of two. -/
theorem zpow_le_zpow_left_of_nonpos {k : Int} (hk : k ≤ 0) : (10 : ℚ) ^ k ≤ 2 ^ k := by
  obtain ⟨n, rfl⟩ : ∃ n : Nat, k = -n := ⟨k.natAbs, by omega⟩
  rw [zpow_neg, zpow_neg, zpow_natCast, zpow_natCast]
  exact inv_anti₀ (by positivity) (pow_le_pow_left₀ two_pos.le (by norm_num) n)

/-- A power of ten over a denominator. -/
theorem decimal_eq (c : Nat) (k : Int) :
    ((if k < 0 then c else c * Nat.pow 10 k.natAbs : Nat) : ℚ)
      / (if k < 0 then Nat.pow 10 k.natAbs else 1 : Nat) = c * 10 ^ k := by
  split
  · obtain ⟨n, rfl⟩ : ∃ n : Nat, k = -n := ⟨k.natAbs, by omega⟩
    rw [Int.natAbs_neg, Int.natAbs_natCast, zpow_neg, zpow_natCast, Nat.pow_eq]
    push_cast
    rfl
  · obtain ⟨n, rfl⟩ : ∃ n : Nat, k = n := ⟨k.natAbs, by omega⟩
    rw [Int.natAbs_natCast, zpow_natCast, Nat.pow_eq]
    push_cast
    rw [div_one]

theorem unit_pos (k : Int) : 0 < (if k < 0 then Nat.pow 10 k.natAbs else 1 : Nat) := by
  split
  · exact Nat.pow_pos (by decide)
  · exact Nat.one_pos

/-- **The test of the interval** is the one on rational numbers. -/
theorem holds_iff {r : Rounding} (hden : 0 < r.den) :
    r.holds c k = true ↔ r.Contains (c * 10 ^ k) := by
  have hunit := unit_pos k
  have hden' : (0 : ℚ) < r.den := by exact_mod_cast hden
  have hunit' : (0 : ℚ) < (if k < 0 then Nat.pow 10 k.natAbs else 1 : Nat) := by
    exact_mod_cast hunit
  unfold Rounding.holds Rounding.Contains
  dsimp only
  rw [← decimal_eq, div_le_div_iff₀ hden' hunit', div_le_div_iff₀ hunit' hden',
    div_lt_div_iff₀ hden' hunit', div_lt_div_iff₀ hunit' hden']
  split
  · rw [Bool.and_eq_true, decide_eq_true_iff, decide_eq_true_iff]
    exact_mod_cast Iff.rfl
  · rw [Bool.and_eq_true, decide_eq_true_iff, decide_eq_true_iff]
    exact_mod_cast Iff.rfl

/-- **The lower neighbour** is at most one step of the grid below the value. -/
theorem neighbours_bounds {r : Rounding} (hden : 0 < r.den) (k : Int) :
    ((r.neighbours k).1 : ℚ) * 10 ^ k ≤ r.value / r.den
      ∧ (r.value : ℚ) / r.den < ((r.neighbours k).1 + 1) * 10 ^ k := by
  have hratio : ((if k < 0 then r.value * Nat.pow 10 k.natAbs else r.value : Nat) : ℚ)
      / (if k < 0 then r.den else r.den * Nat.pow 10 k.natAbs : Nat) = r.value / r.den / 10 ^ k := by
    split
    · obtain ⟨n, rfl⟩ : ∃ n : Nat, k = -n := ⟨k.natAbs, by omega⟩
      rw [Int.natAbs_neg, Int.natAbs_natCast, zpow_neg, zpow_natCast, Nat.pow_eq, div_inv_eq_mul]
      push_cast
      ring
    · obtain ⟨n, rfl⟩ : ∃ n : Nat, k = n := ⟨k.natAbs, by omega⟩
      rw [Int.natAbs_natCast, zpow_natCast, Nat.pow_eq, div_div]
      push_cast
      rfl
  have hpos : 0 < (if k < 0 then r.den else r.den * Nat.pow 10 k.natAbs : Nat) := by
    split
    · exact hden
    · exact Nat.mul_pos hden (Nat.pow_pos (by decide))
  have hpos' : (0 : ℚ) < (if k < 0 then r.den else r.den * Nat.pow 10 k.natAbs : Nat) := by
    exact_mod_cast hpos
  unfold Rounding.neighbours
  dsimp only
  constructor
  · rw [← le_div_iff₀ (ten_zpow_pos k), ← hratio, le_div_iff₀ hpos']
    exact_mod_cast Nat.div_mul_le_self _ _
  · rw [← div_lt_iff₀ (ten_zpow_pos k), ← hratio, div_lt_iff₀ hpos']
    exact_mod_cast (Nat.lt_mul_div_succ _ hpos).trans_eq (Nat.mul_comm _ _)

/-! ## The search -/

theorem holds_of_pick? {r : Rounding} (h : r.pick? k = some c) : r.holds c k = true := by
  unfold Rounding.pick? at h
  dsimp only at h
  generalize (if (r.neighbours k).2 then (r.neighbours k).1 + 1 else (r.neighbours k).1) = first at h
  generalize (if (r.neighbours k).2 then (r.neighbours k).1 else (r.neighbours k).1 + 1) = second
    at h
  split at h
  · rename_i hfirst
    cases h
    exact hfirst
  · split at h
    · rename_i hsecond
      cases h
      exact hsecond
    · cases h

/-- One of two neighbours is picked if the lower one lies in the interval. -/
theorem exists_pick? {r : Rounding} (h : r.holds (r.neighbours k).1 k = true) :
    ∃ c, r.pick? k = some c := by
  unfold Rounding.pick?
  dsimp only
  cases (r.neighbours k).2 with
  | false =>
    simp only [Bool.false_eq_true, if_false]
    exact ⟨_, if_pos h⟩
  | true =>
    simp only [if_true]
    by_cases hupper : r.holds ((r.neighbours k).1 + 1) k = true
    · exact ⟨_, if_pos hupper⟩
    · rw [if_neg hupper]
      exact ⟨_, if_pos h⟩

/-- **The search ends on a point of the interval** if there is one on a grid that it tries. -/
theorem holds_search {r : Rounding} {grids j : Nat} (hj : j < grids)
    (h : r.holds (r.neighbours (k - j)).1 (k - j) = true) :
    r.holds (r.search grids k).1 (r.search grids k).2 = true := by
  induction grids generalizing k j with
  | zero => exact absurd hj (Nat.not_lt_zero j)
  | succ grids ih =>
    rw [Rounding.search]
    split
    · rename_i hpick
      exact holds_of_pick? hpick
    · rename_i hnone
      cases j with
      | zero =>
        rw [Nat.cast_zero, sub_zero] at h
        obtain ⟨c, hpick⟩ := exists_pick? h
        cases hnone.symm.trans hpick
      | succ j =>
        refine ih (Nat.lt_of_succ_lt_succ hj) ?_
        have hgrid : k - 1 - (j : Int) = k - (j + 1 : Nat) := by
          push_cast
          ring
        rw [hgrid]
        exact h

/-! ## The decimal exponent -/

theorem reaches_iff (num : Nat) (hden : 0 < den) (k : Int) :
    (if k < 0 then decide (den ≤ num * Nat.pow 10 k.natAbs)
      else decide (den * Nat.pow 10 k.natAbs ≤ num)) = true ↔ (10 : ℚ) ^ k ≤ num / den := by
  have hden' : (0 : ℚ) < den := by exact_mod_cast hden
  rw [le_div_iff₀ hden']
  split
  · obtain ⟨n, rfl⟩ : ∃ n : Nat, k = -n := ⟨k.natAbs, by omega⟩
    have hpos : (0 : ℚ) < 10 ^ n := by positivity
    rw [decide_eq_true_iff, Int.natAbs_neg, Int.natAbs_natCast, zpow_neg, zpow_natCast, Nat.pow_eq,
      inv_mul_le_iff₀ hpos, mul_comm]
    exact_mod_cast Iff.rfl
  · obtain ⟨n, rfl⟩ : ∃ n : Nat, k = n := ⟨k.natAbs, by omega⟩
    rw [decide_eq_true_iff, Int.natAbs_natCast, zpow_natCast, Nat.pow_eq, mul_comm]
    exact_mod_cast Iff.rfl

/-- A number of so many digits lies between the powers of ten. -/
theorem digits_bounds {n : Nat} (hn : 0 < n) :
    (10 : ℚ) ^ (((Nat.toDigits 10 n).length : Int) - 1) ≤ n
      ∧ (n : ℚ) < 10 ^ ((Nat.toDigits 10 n).length : Int) := by
  have hlength : 0 < (Nat.toDigits 10 n).length := Nat.length_toDigits_pos
  constructor
  · obtain ⟨len, hlen⟩ : ∃ len, (Nat.toDigits 10 n).length = len + 1 :=
      ⟨_, (Nat.succ_pred_eq_of_pos hlength).symm⟩
    have hle : 10 ^ len ≤ n := by
      cases len with
      | zero => exact hn
      | succ len =>
        refine Nat.le_of_not_lt fun hlt => ?_
        have := (Nat.length_toDigits_le_iff (by decide) (Nat.succ_pos len)).mpr hlt
        omega
    rw [hlen, Nat.cast_succ, add_sub_cancel_right, zpow_natCast]
    exact_mod_cast hle
  · rw [zpow_natCast]
    exact_mod_cast (Nat.length_toDigits_le_iff (by decide) hlength).mp le_rfl

/-- The estimate of the decimal exponent is not too high. -/
theorem decimalExponent_le (hnum : 0 < num) (hden : 0 < den) :
    (10 : ℚ) ^ decimalExponent num den ≤ num / den := by
  have hreaches := reaches_iff num hden
    ((Nat.toDigits 10 num).length - (Nat.toDigits 10 den).length)
  unfold decimalExponent
  dsimp only
  by_cases hguess : (10 : ℚ) ^ (((Nat.toDigits 10 num).length : Int) - (Nat.toDigits 10 den).length)
      ≤ num / den
  · rw [if_pos (hreaches.mpr hguess)]
    exact hguess
  · rw [if_neg (mt hreaches.mp hguess)]
    obtain ⟨hlow, -⟩ := digits_bounds hnum
    obtain ⟨-, hhigh⟩ := digits_bounds hden
    have hden' : (0 : ℚ) < den := by exact_mod_cast hden
    rw [le_div_iff₀ hden']
    refine le_trans ?_ hlow
    have hsplit : ((Nat.toDigits 10 num).length : Int) - 1
        = (Nat.toDigits 10 num).length - (Nat.toDigits 10 den).length - 1
          + (Nat.toDigits 10 den).length := by
      ring
    rw [hsplit, zpow_add₀ (by norm_num)]
    exact mul_le_mul_of_nonneg_left hhigh.le (ten_zpow_pos _).le

/-! ## Shortest digits -/

variable {m : Nat} {e : Int}

theorem le_lowerGap (m : Nat) (e : Int) : 1 / 4 ≤ lowerGap m e := by
  unfold lowerGap
  split <;> norm_num

/-- **A grid of seventeen digits is fine enough**: the lower neighbour lies in the interval. -/
theorem contains_neighbour (h : Filled m e) (hk : (10 : ℚ) ^ (k + 17) ≤ m * 2 ^ e) :
    (rounding m e).Contains (((rounding m e).neighbours k).1 * 10 ^ k) := by
  obtain ⟨hle, hlt⟩ := neighbours_bounds (rounding_den_pos m e) k
  rw [rounding_value] at hle hlt
  have hgap := le_lowerGap m e
  have hpow := two_zpow_pos e
  have hbits : (m : ℚ) < 2 * 2 ^ (52 : Int) := by
    have hleast : ((leastSignificand : Nat) : ℚ) = 2 ^ (52 : Int) := by norm_num [leastSignificand]
    rw [← hleast]
    exact_mod_cast h.lt
  -- one step of the grid is less than a quarter of the last place
  have hstep : (10 : ℚ) ^ k < 1 / 4 * 2 ^ e := by
    rw [zpow_add₀ (by norm_num)] at hk
    have hscaled : (m : ℚ) * 2 ^ e < 2 * 2 ^ (52 : Int) * 2 ^ e := mul_lt_mul_of_pos_right hbits hpow
    norm_num at hk hscaled
    linarith
  refine (contains_iff h.pos).mpr (.inl ⟨?_, ?_⟩)
  · rw [lt_div_iff₀ hpow]
    have hgap' : 1 / 4 * 2 ^ e ≤ lowerGap m e * 2 ^ e := mul_le_mul_of_nonneg_right hgap hpow.le
    linarith
  · rw [div_lt_iff₀ hpow]
    linarith

/-- Dropping zeros keeps the value. -/
theorem dropZeros_value (fuel c : Nat) (k : Int) :
    ((dropZeros fuel c k).1 : ℚ) * 10 ^ (dropZeros fuel c k).2 = c * 10 ^ k := by
  induction fuel generalizing c k with
  | zero => rfl
  | succ fuel ih =>
    rw [dropZeros]
    split
    · rename_i hzero
      rw [ih, zpow_add_one₀ (by norm_num)]
      have hten : ((10 * (c / 10) : Nat) : ℚ) = c := by
        exact_mod_cast Nat.mul_div_cancel' (Nat.dvd_of_mod_eq_zero hzero.2)
      rw [← hten]
      push_cast
      ring
    · rfl

/-- **The shortest digits** lie in the interval of the number with its significand filled up. -/
theorem shortestDigits_contains (h : Filled (filled m e).1 (filled m e).2) :
    (rounding (filled m e).1 (filled m e).2).Contains
      ((shortestDigits m e).1 * 10 ^ (shortestDigits m e).2) := by
  have hden := rounding_den_pos (filled m e).1 (filled m e).2
  have hvalue := rounding_value (filled m e).1 (filled m e).2
  have hpos : (0 : ℚ) < (filled m e).1 * 2 ^ (filled m e).2 :=
    mul_pos (by exact_mod_cast h.pos) (two_zpow_pos _)
  have hnum : 0 < (rounding (filled m e).1 (filled m e).2).value := by
    refine Nat.pos_of_ne_zero fun hzero => ?_
    rw [hzero, Nat.cast_zero, zero_div] at hvalue
    exact hpos.ne hvalue
  unfold shortestDigits
  dsimp only
  rw [dropZeros_value]
  refine (holds_iff hden).mp (holds_search (j := 17) (by decide) ((holds_iff hden).mpr ?_))
  refine contains_neighbour h ?_
  have hgrid : ∀ k : Int, k - (17 : Nat) + 17 = k := by
    intro k
    push_cast
    ring
  rw [hgrid, ← hvalue]
  exact decimalExponent_le hnum hden

/-! ## Reading a decimal -/

/-- What lies in the interval of a number is neither too small nor too large for `ofDecimal`. -/
theorem bounds_of_contains (h : Filled m e) {v : ℚ} (hv : (rounding m e).Contains v) :
    (2 : ℚ) ^ (-1075 : Int) ≤ v ∧ v ≤ 2 ^ (1024 : Int) := by
  have hpow := two_zpow_pos e
  have hbounds := (contains_iff h.pos).mp hv
  have hlow : (m : ℚ) - lowerGap m e ≤ v / 2 ^ e :=
    hbounds.elim (fun h => h.1.le) fun h => h.2.1
  have hhigh : v / 2 ^ e ≤ m + 1 / 2 := hbounds.elim (fun h => h.2.le) fun h => h.2.2
  rw [le_div_iff₀ hpow] at hlow
  rw [div_le_iff₀ hpow] at hhigh
  have hgap := lowerGap_le m e
  have hone : (1 : ℚ) ≤ m := by exact_mod_cast h.pos
  constructor
  · have hhalf : (2 : ℚ) ^ (-1074 - 1 : Int) = 1 / 2 * 2 ^ (-1074 : Int) := by
      rw [zpow_sub_one₀ two_ne_zero]
      ring
    calc (2 : ℚ) ^ (-1075 : Int) = 1 / 2 * 2 ^ (-1074 : Int) := hhalf
      _ ≤ 1 / 2 * 2 ^ e := mul_le_mul_of_nonneg_left (two_zpow_le h.low) (by norm_num)
      _ ≤ (m - lowerGap m e) * 2 ^ e := mul_le_mul_of_nonneg_right (by linarith) hpow.le
      _ ≤ v := hlow
  · have hbits : (m : ℚ) + 1 / 2 ≤ 2 ^ (53 : Int) := by
      have hm : (m : ℚ) + 1 ≤ 2 ^ (53 : Int) := by
        have htwice : ((2 * leastSignificand : Nat) : ℚ) = 2 ^ (53 : Int) := by
          norm_num [leastSignificand]
        rw [← htwice]
        exact_mod_cast h.lt
      linarith
    calc v ≤ (m + 1 / 2) * 2 ^ e := hhigh
      _ ≤ 2 ^ (53 : Int) * 2 ^ e := mul_le_mul_of_nonneg_right hbits hpow.le
      _ ≤ 2 ^ (53 : Int) * 2 ^ (971 : Int) :=
          mul_le_mul_of_nonneg_left (two_zpow_le h.high) (two_zpow_pos _).le
      _ = 2 ^ (1024 : Int) := by rw [← zpow_add₀ two_ne_zero]; norm_num

/-- **A decimal in the interval is read as the number.** -/
theorem ofDecimal_of_contains (h : Filled m e) {digits : Nat} {exponent : Int}
    (hv : (rounding m e).Contains (digits * 10 ^ exponent)) (negative : Bool) :
    ofDecimal negative digits exponent = ofScaled negative m e := by
  obtain ⟨hlow, hhigh⟩ := bounds_of_contains h hv
  have hdigits : 0 < digits := by
    refine Nat.pos_of_ne_zero fun hzero => ?_
    rw [hzero, Nat.cast_zero, zero_mul] at hlow
    exact absurd hlow (not_le.mpr (two_zpow_pos _))
  have hone : (1 : ℚ) ≤ digits := by exact_mod_cast hdigits
  -- the exponents that are settled at once are out of the range
  have hlarge : ¬400 < exponent := by
    intro hexponent
    have hten : (2 : ℚ) ^ (1024 : Int) < 10 ^ (400 : Int) :=
      calc (2 : ℚ) ^ (1024 : Int) < 2 ^ ((3 : Int) * 400) :=
            zpow_lt_zpow_right₀ one_lt_two (by norm_num)
        _ = (2 ^ (3 : Int)) ^ (400 : Int) := zpow_mul 2 3 400
        _ ≤ 10 ^ (400 : Int) := zpow_le_zpow_left₀ (by norm_num) (by norm_num) (by norm_num)
    have hmono : (10 : ℚ) ^ (400 : Int) ≤ 10 ^ exponent :=
      zpow_le_zpow_right₀ (by norm_num) hexponent.le
    have hscaled : (10 : ℚ) ^ exponent ≤ digits * 10 ^ exponent :=
      le_mul_of_one_le_left (ten_zpow_pos _).le hone
    exact absurd hhigh (not_le.mpr (hten.trans_le (hmono.trans hscaled)))
  have hsmall : ¬exponent + (digits.log2 : Int) < -1200 := by
    intro hexponent
    have hnegative : exponent ≤ 0 := by omega
    have hbits : (digits : ℚ) < 2 ^ ((digits.log2 : Int) + 1) := by
      have hlog : (digits : ℚ) < 2 ^ (digits.log2 + 1) := by exact_mod_cast Nat.lt_log2_self
      rw [← zpow_natCast] at hlog
      exact_mod_cast hlog
    have hten : (10 : ℚ) ^ exponent ≤ 2 ^ exponent := zpow_le_zpow_left_of_nonpos hnegative
    have hproduct : (digits : ℚ) * 10 ^ exponent ≤ 2 ^ ((digits.log2 : Int) + 1) * 2 ^ exponent :=
      mul_le_mul hbits.le hten (ten_zpow_pos _).le (two_zpow_pos _).le
    rw [← zpow_add₀ two_ne_zero] at hproduct
    have hlast : (2 : ℚ) ^ ((digits.log2 : Int) + 1 + exponent) < 2 ^ (-1075 : Int) :=
      zpow_lt_zpow_right₀ one_lt_two (by omega)
    exact absurd hlow (not_le.mpr (hproduct.trans_lt hlast))
  unfold ofDecimal
  rw [if_neg hdigits.ne', if_neg hlarge, if_neg hsmall]
  split
  · rename_i hexponent
    obtain ⟨n, rfl⟩ : ∃ n : Nat, exponent = n := ⟨exponent.toNat, by omega⟩
    have hnum : 0 < digits * Nat.pow 10 n := Nat.mul_pos hdigits (Nat.pow_pos (by decide))
    refine ofRatio_of_contains hnum Nat.one_pos h ?_ negative
    rw [Nat.pow_eq]
    push_cast
    rw [div_one, ← zpow_natCast]
    exact hv
  · obtain ⟨n, rfl⟩ : ∃ n : Nat, exponent = -n := ⟨exponent.natAbs, by omega⟩
    rw [Int.natAbs_neg, Int.natAbs_natCast]
    refine ofRatio_of_contains hdigits (Nat.pow_pos (by decide)) h ?_ negative
    have hpower : ((10 ^ n : Nat) : ℚ) = 10 ^ (n : Int) := by
      rw [zpow_natCast]
      push_cast
      rfl
    rw [hpower, div_eq_mul_inv, ← zpow_neg]
    exact hv

end ApiContract.Double
