import Mathlib

/-!
Braking by a square root law.

A body that is `e` away from its goal moves in steps of the time `T`, and can change its velocity
by `a * T` in a step. It asks for the velocity `root a T e`.

* `root`: the law; `root_spec`: after a step at this velocity the way that is left is the one in
  which the body can stop.
* `Brakes`: the way `e` is enough to stop from the velocity `v`.
* `Brakes.root_ge`: the law does not ask for more braking than is possible.
* `Brakes.step`: a step that is no faster than the law leaves enough way to stop.
-/

namespace Braking

variable {a T e v v' : ℝ}

/-- The velocity at the distance `e`. -/
noncomputable def root (a T e : ℝ) : ℝ := -(a * T) + √(2 • (a * e) + a * T * (a * T))

/-- The way `e` is enough to stop from the velocity `v`. -/
def Brakes (a e v : ℝ) : Prop := v * v ≤ 2 • (a * e)

lemma root_eq (a T e : ℝ) : root a T e = -(a * T) + √(2 * a * e + a * T * (a * T)) := by
  rw [root, nsmul_eq_mul, Nat.cast_two, ← mul_assoc]

lemma brakes_iff : Brakes a e v ↔ v * v ≤ 2 * a * e := by
  rw [Brakes, nsmul_eq_mul, Nat.cast_two, ← mul_assoc]

lemma root_nonneg (ha : 0 < a) (hT : 0 ≤ T) (he : 0 ≤ e) : 0 ≤ root a T e := by
  have hq : 0 ≤ a * T := mul_nonneg ha.le hT
  have hle : a * T ≤ √(2 * a * e + a * T * (a * T)) := by
    refine Real.le_sqrt_of_sq_le ?_
    have h0 : 0 ≤ 2 * a * e := by positivity
    rw [sq]
    linarith
  rw [root_eq]
  linarith

/-- The distance is the way of the step, and the way to stop from there. -/
lemma root_spec (ha : 0 < a) (he : 0 ≤ e) :
    root a T e * root a T e = 2 * a * (e - root a T e * T) := by
  have h0 : 0 ≤ 2 * a * e + a * T * (a * T) :=
    add_nonneg (by positivity) (mul_self_nonneg _)
  have hs : √(2 * a * e + a * T * (a * T)) * √(2 * a * e + a * T * (a * T)) =
      2 * a * e + a * T * (a * T) := Real.mul_self_sqrt h0
  have hr : √(2 * a * e + a * T * (a * T)) = root a T e + a * T := by rw [root_eq]; ring
  rw [hr] at hs
  linarith

namespace Brakes

/-- There is some way left, unless the goal is reached. -/
lemma nonneg (h : Brakes a e v) (ha : 0 < a) : 0 ≤ e := by
  have h0 : 0 ≤ 2 * a * e := (mul_self_nonneg v).trans (brakes_iff.1 h)
  exact nonneg_of_mul_nonneg_right h0 (by linarith)

/-- The law does not ask for more braking than is possible. -/
lemma root_ge (h : Brakes a e v) : v - a * T ≤ root a T e := by
  have hle : v ≤ √(2 * a * e + a * T * (a * T)) := by
    refine Real.le_sqrt_of_sq_le ?_
    have h0 : 0 ≤ a * T * (a * T) := mul_self_nonneg _
    rw [sq]
    exact (brakes_iff.1 h).trans (by linarith)
  rw [root_eq]
  linarith

/-- A step that is no faster than the law leaves enough way to stop. -/
lemma step (ha : 0 < a) (hT : 0 ≤ T) (he : 0 ≤ e) (h0 : 0 ≤ v') (hle : v' ≤ root a T e) :
    Brakes a (e - v' * T) v' := by
  have hspec := root_spec (T := T) ha he
  have hsq : v' * v' ≤ root a T e * root a T e := mul_self_le_mul_self h0 hle
  have hway : v' * T ≤ root a T e * T := mul_le_mul_of_nonneg_right hle hT
  rw [brakes_iff]
  nlinarith

end Brakes

end Braking
