import Mathlib.Tactic
import Mathlib.Algebra.Order.Floor.Semiring

/-!
Braking in steps.

A body moves in steps of the time `T`: from the velocity `v` it takes a velocity `v'` with
`v - q ≤ v'` and moves by `v' * T`.  With full braking from `v` its velocities are `v - q`,
`v - 2 * q` and so on.

* `way`: what the body moves in `n` steps of full braking.
* `Room`: with full braking the body stays at or below `c`.
* `brakingDistance` and `room_iff`: the longest such way, by a formula.
* `Room.brake`, `Room.land`: steps that keep room.

The same for a floor is the case of the negated numbers.
-/

namespace Braking

variable {α : Type*} [Field α] [LinearOrder α] [IsStrictOrderedRing α]
  {q T c x x' v v' : α} {n : ℕ}

/-- What a body with the velocity `v` moves in `n` steps of full braking. -/
def way (q T v : α) (n : ℕ) : α := T * (n * v - (n * (n + 1) / 2 : ℕ) * q)

lemma way_eq (q T v : α) (n : ℕ) : way q T v n = T * (n * v - n * (n + 1) / 2 * q) := by
  rw [way, Nat.cast_div (Nat.even_mul_succ_self n).two_dvd two_ne_zero, Nat.cast_mul,
    Nat.cast_succ, Nat.cast_two]

@[simp] lemma way_zero (q T v : α) : way q T v 0 = 0 := by simp [way]

/-- The first step of the way, and the way from the velocity it leaves. -/
lemma way_succ (q T v : α) (n : ℕ) :
    way q T v (n + 1) = (v - q) * T + way q T (v - q) n := by
  simp only [way_eq]
  push_cast
  ring

lemma way_mono (hT : 0 ≤ T) (hv : v' ≤ v) : way q T v' n ≤ way q T v n := by
  have h : (n : α) * v' ≤ n * v := mul_le_mul_of_nonneg_left hv n.cast_nonneg
  exact mul_le_mul_of_nonneg_left (by linarith) hT

/-- A body no faster than one step of braking does not move on. -/
lemma way_nonpos (hq : 0 ≤ q) (hT : 0 ≤ T) (hv : v ≤ q) : way q T v n ≤ 0 := by
  rw [way_eq]
  refine mul_nonpos_of_nonneg_of_nonpos hT ?_
  cases n with
  | zero => simp
  | succ n =>
    have hn : (0 : α) ≤ n := n.cast_nonneg
    have h1 : ((n : α) + 1) * v ≤ (n + 1) * q := mul_le_mul_of_nonneg_left hv (by linarith)
    have h2 : 0 ≤ ((n : α) + 1) * n * q := by positivity
    push_cast
    linarith

/-! ### The longest way -/

section Distance

variable [FloorSemiring α]

/-- What a body with the velocity `v` moves up to its farthest place under full braking. -/
def brakingDistance (q T v : α) : α := way q T v ⌊v / q⌋₊

/-- No number of steps leads farther. -/
lemma way_le_brakingDistance (hq : 0 < q) (hT : 0 ≤ T) :
    way q T v n ≤ brakingDistance q T v := by
  set N := ⌊v / q⌋₊ with hN
  have hlt : v < (N + 1) * q := by
    have h := Nat.lt_floor_add_one (v / q)
    rwa [div_lt_iff₀ hq] at h
  rw [brakingDistance, way_eq, way_eq]
  refine mul_le_mul_of_nonneg_left ?_ hT
  have hdiff : (N * v - N * (N + 1) / 2 * q) - (n * v - n * (n + 1) / 2 * q) =
      ((N : α) - n) * (v - (N + n + 1) / 2 * q) := by ring
  have hprod : 0 ≤ ((N : α) - n) * (v - (N + n + 1) / 2 * q) := by
    rcases lt_trichotomy n N with h | h | h
    · -- not yet as far as the farthest place: the next velocity is still positive
      have hle : (n : α) + 1 ≤ N := by exact_mod_cast h
      have hv : N * q ≤ v := by
        have hpos : 1 ≤ v / q := Nat.floor_pos.1 (hN ▸ by omega)
        have hfloor : (N : α) ≤ v / q := Nat.floor_le (by linarith)
        rwa [le_div_iff₀ hq] at hfloor
      have hmid : (N + n + 1) / 2 * q ≤ N * q :=
        mul_le_mul_of_nonneg_right (by linarith) hq.le
      exact mul_nonneg (by linarith) (by linarith)
    · simp [h]
    · have hle : (N : α) + 1 ≤ n := by exact_mod_cast h
      have hmid : (N + 1) * q ≤ (N + n + 1) / 2 * q :=
        mul_le_mul_of_nonneg_right (by linarith) hq.le
      exact mul_nonneg_of_nonpos_of_nonpos (by linarith) (by linarith)
  linarith

end Distance

/-! ### Room to brake -/

/-- A body at `x` with the velocity `v` stays at or below `c` under full braking. -/
def Room (q T c x v : α) : Prop := ∀ n, x + way q T v n ≤ c

lemma room_iff [FloorSemiring α] (hq : 0 < q) (hT : 0 ≤ T) :
    Room q T c x v ↔ x + brakingDistance q T v ≤ c := by
  constructor
  · intro h
    exact h _
  · intro h n
    have hn := way_le_brakingDistance (v := v) (n := n) hq hT
    linarith

lemma Room.le (h : Room q T c x v) : x ≤ c := by simpa using h 0

lemma room_of_le (hq : 0 ≤ q) (hT : 0 ≤ T) (hv : v ≤ q) (hx : x ≤ c) : Room q T c x v := by
  intro n
  have h := way_nonpos (n := n) hq hT hv
  linarith

lemma Room.mono (hT : 0 ≤ T) (h : Room q T c x v) (hx : x' ≤ x) (hv : v' ≤ v) :
    Room q T c x' v' := by
  intro n
  have h1 := h n
  have h2 := way_mono (q := q) (n := n) hT hv
  linarith

lemma Room.brake (h : Room q T c x v) : Room q T c (x + (v - q) * T) (v - q) := by
  intro n
  have h1 := h (n + 1)
  rw [way_succ] at h1
  linarith

/-- A step that brakes at least so much that it ends no farther and no faster than a
place with room keeps it. -/
lemma Room.brake_or_back (hq : 0 ≤ q) (hT : 0 ≤ T) (h : Room q T c x v)
    (hv : v' ≤ v - q ∨ v' ≤ 0) : Room q T c (x + v' * T) v' := by
  rcases hv with hv | hv
  · have hmul : v' * T ≤ (v - q) * T := mul_le_mul_of_nonneg_right hv hT
    exact h.brake.mono hT (by linarith) hv
  · have hmul : v' * T ≤ 0 := mul_nonpos_of_nonpos_of_nonneg hv hT
    have hx := h.le
    exact room_of_le hq hT (hv.trans hq) (by linarith)

/-- A body that brakes in `n` equal steps to rest, by no more than `q` each, and whose way
ends at or below `c`, has room after the first of them. -/
lemma room_landing (hT : 0 ≤ T) (hn : 0 < n) (hv : 0 ≤ v) (hq : v / n ≤ q)
    (hway : x + v * (n - 1) / 2 * T ≤ c) :
    Room q T c (x + (v - v / n) * T) (v - v / n) := by
  intro k
  have hn' : (n : α) ≠ 0 := by exact_mod_cast hn.ne'
  -- full braking moves no farther than the equal steps do
  have hequal : way q T (v - v / n) k ≤ way (v / n) T (v - v / n) k := by
    have hk : (0 : α) ≤ k * (k + 1) / 2 := by positivity
    rw [way_eq, way_eq]
    exact mul_le_mul_of_nonneg_left (by nlinarith) hT
  have hsum : (v - v / n) * T + way (v / n) T (v - v / n) k =
      v * (n - 1) / 2 * T - v / n / 2 * T * ((n - (k + 1)) * (n - (k + 1) - 1)) := by
    simp only [way_eq]
    field_simp
    ring
  have hprod : (0 : α) ≤ (n - (k + 1)) * (n - (k + 1) - 1) := by
    rcases le_or_gt n (k + 1) with h | h
    · have hle : (n : α) ≤ k + 1 := by exact_mod_cast h
      exact mul_nonneg_of_nonpos_of_nonpos (by linarith) (by linarith)
    · have hle : (k : α) + 1 + 1 ≤ n := by exact_mod_cast h
      exact mul_nonneg (by linarith) (by linarith)
  have hrest : 0 ≤ v / n / 2 * T * ((n - (k + 1)) * (n - (k + 1) - 1)) := by positivity
  linarith

/-- A landing: braking in equal steps, but by no more than `q`, keeps room when the way of
the equal steps ends at or below `c`.  Here `w` is the velocity that is taken, and `u` the
lowest one that may be. -/
lemma Room.land {u w : α} (hq : 0 ≤ q) (hT : 0 ≤ T) (hn : 0 < n) (h : Room q T c x v)
    (hu : v - q ≤ u) (hbrake : u ≤ v - q ∨ u ≤ 0) (hw : w ≤ max u (v - v / n))
    (hway : 0 < v → x + v * (n - 1) / 2 * T ≤ c) : Room q T c (x + w * T) w := by
  rcases le_or_gt w u with hwu | hwu
  · exact h.brake_or_back hq hT (hbrake.imp hwu.trans hwu.trans)
  have hwn : w ≤ v - v / n := (le_max_iff.1 hw).resolve_left hwu.not_ge
  have hn1 : (1 : α) ≤ n := by exact_mod_cast hn
  rcases le_or_gt v 0 with hv | hv
  · -- the body moves back already
    have hle : v ≤ v / n := by
      have hmul : v * n ≤ v * 1 := mul_le_mul_of_nonpos_left hn1 hv
      rw [le_div_iff₀ (by linarith)]
      linarith
    exact h.brake_or_back hq hT (.inr (by linarith))
  · have hequal : v / n ≤ q := by linarith
    have hmul : w * T ≤ (v - v / n) * T := mul_le_mul_of_nonneg_right hwn hT
    exact (room_landing hT hn hv.le hequal (hway hv)).mono hT (by linarith) hwn

end Braking
