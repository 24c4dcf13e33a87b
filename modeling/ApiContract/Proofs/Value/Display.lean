import ApiContract.Value.Display
import Mathlib.Logic.Basic

/-!
# Texts of values

A value that counts as present reads as a text that is not empty, whatever its kind.

* **`text_ne_empty`** — the headline.
-/

namespace ApiContract

theorem append_ne_empty {a b : String} (h : a ≠ "" ∨ b ≠ "") : a ++ b ≠ "" := by
  rw [Ne, String.append_eq_empty_iff, not_and_or]
  exact h

namespace Double

theorem positional_ne_nil {digits : List Char} {point : Int} (h : digits ≠ []) :
    positional digits point true ≠ [] := by
  unfold positional
  split
  · simp
  · split
    · simp
    · simp [h]

theorem scientific_ne_nil {digits : List Char} {exponent : Int} (h : digits ≠ []) :
    scientific digits exponent ≠ [] := by
  unfold scientific
  split
  · exact absurd rfl h
  · simp
  · simp

theorem text_ne_empty (x : Double) : x.text ≠ "" := by
  have hlayout : ∀ (negative : Bool) (digits : List Char) (exponent : Int), digits ≠ [] →
      String.ofList (signText negative ++
        if -4 ≤ exponent ∧ exponent < 16 then positional digits (exponent + 1) true
        else scientific digits exponent) ≠ "" := by
    intro negative digits exponent h heq
    have hlist := congrArg String.toList heq
    rw [String.toList_ofList] at hlist
    have hdigits := (List.append_eq_nil_iff.mp hlist).2
    split at hdigits
    · exact positional_ne_nil h hdigits
    · exact scientific_ne_nil h hdigits
  unfold text
  split
  · decide
  · split <;> decide
  · split <;> decide
  · rename_i negative m e _
    cases shortestDigits m e with
    | mk c k => exact hlayout negative _ _ Nat.toDigits_ne_nil

end Double

theorem Date.text_ne_empty (d : Date) : d.text ≠ "" :=
  append_ne_empty (.inl (append_ne_empty (.inr (by decide))))

namespace Value

/-- **A value that counts as present has a text.** -/
theorem text_ne_empty {v : Value} (h : v.isTruthy = true) : v.text ≠ "" := by
  cases v with
  | scalar leaf =>
    cases leaf with
    | null => cases h
    | bool b => cases b <;> decide
    | int n =>
      cases n with
      | ofNat n => exact Nat.repr_ne_empty
      | negSucc n => exact append_ne_empty (.inl (by decide))
    | float x => exact x.text_ne_empty
    | str s => simpa [isTruthy, String.isEmpty_iff] using h
    | date d => exact d.text_ne_empty
    | dateTime t =>
      exact append_ne_empty (.inl (append_ne_empty (.inl (append_ne_empty (.inl
        (append_ne_empty (.inl t.date.text_ne_empty)))))))
    | bytes b =>
      intro heq
      have hlist := congrArg String.toList heq
      rw [text, Scalar.text, Scalar.literal, Text.quotedBytes, String.toList_ofList] at hlist
      · cases hlist
      all_goals nofun
  | list items => exact append_ne_empty (.inr (by decide))
  | map members => exact append_ne_empty (.inr (by decide))
  | set items =>
    cases items with
    | nil => cases h
    | cons item rest => exact append_ne_empty (.inr (by decide))

end Value

end ApiContract
