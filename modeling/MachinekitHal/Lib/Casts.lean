import Mathlib.Data.Rat.Floor
import Mathlib.Tactic.Linarith

/-!
Casts of numbers to machine integers.

* `IntConversion`: the cast to an `int`; `IntConversion.toInt_of_nonneg`: it rounds down.
-/

namespace Casts

/-- The cast `(int)`: it drops the fraction. What it makes of a number that does not fit is
left to the machine. -/
structure IntConversion where
  toInt : ℚ → ℤ
  toInt_eq : ∀ x : ℚ, -(2 ^ 31) - 1 < x → x < 2 ^ 31 → toInt x = if 0 ≤ x then ⌊x⌋ else ⌈x⌉

/-- The cast on a machine that makes the lowest `int` of every number that does not fit. -/
def IntConversion.lowest : IntConversion where
  toInt x := if -(2 ^ 31) - 1 < x ∧ x < 2 ^ 31 then if 0 ≤ x then ⌊x⌋ else ⌈x⌉ else -(2 ^ 31)
  toInt_eq _ hlo hhi := if_pos ⟨hlo, hhi⟩

/-- A number that is not negative and fits is rounded down. -/
lemma IntConversion.toInt_of_nonneg (cv : IntConversion) {x : ℚ} (h0 : 0 ≤ x) (h : x < 2 ^ 31) :
    cv.toInt x = ⌊x⌋ := by
  rw [cv.toInt_eq x (by linarith) h, if_pos h0]

end Casts
