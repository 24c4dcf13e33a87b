import ApiContract.Text.Blank
import Mathlib.Data.List.Basic
import Mathlib.Data.List.Infix
import Mathlib.Tactic.Common

/-!
# Marks in texts, and texts as keys

Texts are closed, cut and escaped at pairs of characters, so it counts where one stands right behind
another: `[a, b] <:+: xs`. A key is taken apart at the last occurrence of a mark, which a number behind
the mark does not have. Entries that are sorted by keys of their own come out in one order, however
they stood before.

* **`pair_infix_cons`** / **`pair_infix_separated`** — the pairs of a text put together from others;
* **`pair_infix_of_append`** / **`pair_infix_of_append_right`** — a text beside which there can be none;
* **`length_replacePair_lt`** / **`replacePair_of_not_infix`** — what replacing a pair does;
* **`append_cons_inj_of_last`** — the two parts of a list around the last occurrence of a term;
* **`pairwise_mergeSort_lt`** / **`mergeSort_eq_of_perm`** — sorting by key.
-/

namespace ApiContract.Text

section Pairs

variable {α : Type} {a b c : α}

theorem pair_infix_cons {xs : List α} :
    [a, b] <:+: c :: xs ↔ (a = c ∧ xs.head? = some b) ∨ [a, b] <:+: xs := by
  rw [List.infix_cons_iff, List.cons_prefix_cons]
  cases xs with
  | nil => simp
  | cons x rest => simp [List.cons_prefix_cons, eq_comm]

/-- A character that is not of the pair keeps what stands before it from what stands after it. -/
theorem pair_infix_separated (ha : a ≠ c) (hb : b ≠ c) {xs ys : List α} :
    [a, b] <:+: xs ++ c :: ys ↔ [a, b] <:+: xs ∨ [a, b] <:+: ys := by
  induction xs with
  | nil => simp [pair_infix_cons, ha]
  | cons x rest ih =>
    rw [List.cons_append, pair_infix_cons, pair_infix_cons, ih, or_assoc]
    cases rest with
    | nil => simp [hb.symm]
    | cons y more => simp

/-- Pieces that each end in such a character are searched one by one. -/
theorem pair_infix_flatMap (ha : a ≠ c) (hb : b ≠ c) {pieces : List (List α)} {ys : List α} :
    [a, b] <:+: pieces.flatMap (· ++ [c]) ++ ys ↔
      (∃ piece ∈ pieces, [a, b] <:+: piece) ∨ [a, b] <:+: ys := by
  induction pieces with
  | nil => simp
  | cons piece rest ih =>
    rw [List.flatMap_cons, List.append_assoc, List.append_assoc, List.singleton_append,
      pair_infix_separated ha hb, ih, ← or_assoc]
    simp

theorem pair_infix_of_append {xs ys : List α} (ha : a ∉ xs) (h : [a, b] <:+: xs ++ ys) :
    [a, b] <:+: ys := by
  induction xs with
  | nil => exact h
  | cons x rest ih =>
    refine ih (fun hmem => ha (List.mem_cons_of_mem x hmem)) ((pair_infix_cons.mp h).resolve_left ?_)
    rintro ⟨rfl, -⟩
    exact ha List.mem_cons_self

/-- What follows a text adds no such pair, if it has none of the first characters and does not begin
with the second one. -/
theorem pair_infix_of_append_right {xs ys : List α} (ha : a ∉ ys) (hb : ys.head? ≠ some b)
    (h : [a, b] <:+: xs ++ ys) : [a, b] <:+: xs := by
  induction xs with
  | nil => exact absurd (h.subset List.mem_cons_self) ha
  | cons x rest ih =>
    refine pair_infix_cons.mpr ((pair_infix_cons.mp h).imp (fun ⟨hx, hsecond⟩ => ⟨hx, ?_⟩) ih)
    cases rest with
    | nil => exact absurd hsecond hb
    | cons y more => exact hsecond

theorem pair_infix_of_map {f : α → α} {xs : List α} (ha : ∀ x, f x = a → x = a)
    (hb : ∀ x, f x = b → x = b) (h : [a, b] <:+: xs.map f) : [a, b] <:+: xs := by
  induction xs with
  | nil => exact h
  | cons x rest ih =>
    refine pair_infix_cons.mpr ((pair_infix_cons.mp h).imp (fun ⟨hx, hsecond⟩ => ?_) ih)
    rw [List.head?_map, Option.map_eq_some_iff] at hsecond
    obtain ⟨y, hy, heq⟩ := hsecond
    exact ⟨(ha x hx.symm).symm, hb y heq ▸ hy⟩

end Pairs

/-! ## Replacing two characters by one -/

variable {a b c x y : Char} {cs : List Char}

theorem replacePair_pair (a b c : Char) (rest : List Char) :
    replacePair a b c (a :: b :: rest) = c :: replacePair a b c rest := by
  rw [replacePair, if_pos ⟨rfl, rfl⟩]

theorem replacePair_cons_of_ne (h : x ≠ a) (rest : List Char) :
    replacePair a b c (x :: rest) = x :: replacePair a b c rest := by
  cases rest with
  | nil => rfl
  | cons y rest => rw [replacePair, if_neg fun hxy => h hxy.1]

theorem replacePair_cons_cons_of_ne (h : y ≠ b) (rest : List Char) :
    replacePair a b c (x :: y :: rest) = x :: replacePair a b c (y :: rest) := by
  rw [replacePair, if_neg fun hxy => h hxy.2]

theorem length_replacePair_le (a b c : Char) (cs : List Char) :
    (replacePair a b c cs).length ≤ cs.length := by
  fun_induction replacePair a b c cs with
  | case1 => exact Nat.le_refl 0
  | case2 => exact Nat.le_refl 1
  | case3 x y rest _ ih =>
    simp only [List.length_cons]
    omega
  | case4 x y rest _ ih => exact Nat.succ_le_succ ih

/-- Where the two characters stand one after the other, the text gets shorter. -/
theorem length_replacePair_lt (h : [a, b] <:+: cs) : (replacePair a b c cs).length < cs.length := by
  fun_induction replacePair a b c cs with
  | case1 => exact absurd h (by simp)
  | case2 x =>
    have := h.length_le
    simp only [List.length_cons, List.length_nil] at this
    omega
  | case3 x y rest _ _ =>
    have := length_replacePair_le a b c rest
    simp only [List.length_cons]
    omega
  | case4 x y rest hxy ih =>
    refine Nat.succ_lt_succ (ih ((pair_infix_cons.mp h).resolve_left ?_))
    rintro ⟨hx, hy⟩
    exact hxy ⟨hx.symm, Option.some.inj hy⟩

/-- Where they do not, nothing is replaced. -/
theorem replacePair_of_not_infix (h : ¬ [a, b] <:+: cs) : replacePair a b c cs = cs := by
  fun_induction replacePair a b c cs with
  | case1 => rfl
  | case2 x => rfl
  | case3 x y rest hxy _ =>
    obtain ⟨rfl, rfl⟩ := hxy
    exact absurd ⟨[], rest, rfl⟩ h
  | case4 x y rest _ ih => rw [ih fun hinfix => h (pair_infix_cons.mpr (.inr hinfix))]

end ApiContract.Text

namespace ApiContract.Text

/-- What stands in a text that is put together of others, with a separator between them. -/
theorem mem_intercalate {α : Type} {separator : List α} {a : α} {parts : List (List α)}
    (h : a ∈ separator.intercalate parts) : a ∈ separator ∨ ∃ part ∈ parts, a ∈ part := by
  induction parts with
  | nil => cases h
  | cons part rest ih =>
    cases rest with
    | nil =>
      rw [List.intercalate_singleton] at h
      exact .inr ⟨part, List.mem_cons_self, h⟩
    | cons next more =>
      rw [List.intercalate_cons_cons, List.mem_append, List.mem_append] at h
      rcases h with (h | h) | h
      · exact .inr ⟨part, List.mem_cons_self, h⟩
      · exact .inl h
      · exact (ih h).imp_right fun ⟨other, hother, ha⟩ => ⟨other, List.mem_cons_of_mem part hother, ha⟩

/-- What stands behind the last occurrence of a term determines what stands before it. -/
theorem append_cons_inj_of_last {α : Type} {x : α} {a b s t : List α} (hs : x ∉ s) (ht : x ∉ t)
    (h : a ++ x :: s = b ++ x :: t) : a = b ∧ s = t := by
  obtain ⟨c, rfl, hc⟩ | ⟨c, rfl, hc⟩ := List.append_eq_append_iff.mp h
  · cases c with
    | nil =>
      rw [List.nil_append, List.cons.injEq] at hc
      exact ⟨(List.append_nil a).symm, hc.2⟩
    | cons y c =>
      obtain ⟨-, rfl⟩ := List.cons.inj hc
      exact absurd (by simp) hs
  · cases c with
    | nil =>
      rw [List.nil_append, List.cons.injEq] at hc
      exact ⟨List.append_nil b, hc.2.symm⟩
    | cons y c =>
      obtain ⟨-, rfl⟩ := List.cons.inj hc
      exact absurd (by simp) ht

theorem isDigit_of_mem_repr {n : Nat} {c : Char} (h : c ∈ n.repr.toList) : c.isDigit = true := by
  rw [Nat.toList_repr] at h
  exact Nat.isDigit_of_mem_toDigits (by decide) (by decide) h

theorem mem_toString_int {n : Int} {c : Char} (h : c ∈ (toString n).toList) :
    c.isDigit = true ∨ c = '-' := by
  cases n with
  | ofNat k => exact .inl (isDigit_of_mem_repr h)
  | negSucc k =>
    have hneg : toString (Int.negSucc k) = "-" ++ (k + 1).repr := rfl
    rw [hneg, String.toList_append, List.mem_append] at h
    rcases h with h | h
    · exact .inr (by simpa using h)
    · exact .inl (isDigit_of_mem_repr h)

/-! ## Sorting -/

variable {α : Type} {f : α → String} {xs ys : List α}

theorem pairwise_mergeSort_le (f : α → String) (xs : List α) :
    (xs.mergeSort fun a b => decide (f a ≤ f b)).Pairwise fun a b => f a ≤ f b := by
  have htrans : ∀ a b c, decide (f a ≤ f b) = true → decide (f b ≤ f c) = true →
      decide (f a ≤ f c) = true := by
    intro a b c hab hbc
    rw [decide_eq_true_eq] at hab hbc ⊢
    exact String.le_trans hab hbc
  have htotal : ∀ a b, (decide (f a ≤ f b) || decide (f b ≤ f a)) = true := by
    intro a b
    rw [Bool.or_eq_true, decide_eq_true_eq, decide_eq_true_eq]
    exact String.le_total (f a) (f b)
  exact (List.pairwise_mergeSort htrans htotal xs).imp fun h => decide_eq_true_eq.mp h

/-- Where the keys differ, sorting goes strictly up. -/
theorem pairwise_mergeSort_lt (h : (xs.map f).Nodup) :
    (xs.mergeSort fun a b => decide (f a ≤ f b)).Pairwise fun a b => f a < f b := by
  have hne := List.pairwise_map.mp ((((List.mergeSort_perm xs fun a b => decide (f a ≤ f b)).map
    f).nodup_iff).mpr h)
  exact ((pairwise_mergeSort_le f xs).and hne).imp fun {a b} hab =>
    String.not_le.mp fun hba => hab.2 (String.le_antisymm hab.1 hba)

/-- **Where the keys differ, the order before sorting does not count.** -/
theorem mergeSort_eq_of_perm (h : (xs.map f).Nodup) (hperm : xs.Perm ys) :
    (xs.mergeSort fun a b => decide (f a ≤ f b)) = ys.mergeSort fun a b => decide (f a ≤ f b) :=
  List.Perm.eq_of_pairwise
    (fun _ _ _ _ hab hba => absurd (String.lt_trans hab hba) (String.lt_irrefl _))
    (pairwise_mergeSort_lt h) (pairwise_mergeSort_lt ((hperm.map f).nodup_iff.mp h))
    (((List.mergeSort_perm _ _).trans hperm).trans (List.mergeSort_perm _ _).symm)

end ApiContract.Text
