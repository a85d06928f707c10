import Mathlib.Tactic

/-!
Pulse trains, and a phase accumulator that makes them.

A pin is a sequence of levels, one for each period. A phase accumulator adds an increment to
an integer position in each period and makes a pulse when the position passes an edge, a
multiple of `M`.

* `Rise`, `Fall`, `NextPulse`: edges of a pin, and two pulses with none between them.
* `countdown`: a timer that was started some periods ago, if at all.
* `edgePos`: the position `y` beyond an edge, seen in the direction of the movement.
* `edge_passed_iff`: the parity of the quotient by `M` changes when an edge is passed.
* `slow_enough`: with increments of at most `A` the next edge is `M / A` periods away.
-/

namespace Pulses

/-! ### Pins -/

variable {pin : ℕ → Bool} {n m : ℕ}

/-- The pin goes up after period `n`, and down. -/
def Rise (pin : ℕ → Bool) (n : ℕ) : Prop := pin n = false ∧ pin (n + 1) = true
def Fall (pin : ℕ → Bool) (n : ℕ) : Prop := pin n = true ∧ pin (n + 1) = false

/-- A pulse ends after period `n`, and the next one begins after period `m`. -/
structure NextPulse (pin : ℕ → Bool) (n m : ℕ) : Prop where
  fall : Fall pin n
  rise : Rise pin m
  lt : n < m
  low : ∀ k, n < k → k ≤ m → pin k = false

/-- What stays the same during a pulse is the same at both ends of a part of it. -/
lemma eq_of_steady {β : Type*} {val : ℕ → β}
    (h : ∀ k, pin k = true → pin (k + 1) = true → val k = val (k + 1)) (hle : n ≤ m)
    (hpin : ∀ k, n ≤ k → k ≤ m → pin k = true) : val n = val m := by
  induction m, hle using Nat.le_induction with
  | base => rfl
  | succ m hle ih =>
    have hval : val n = val m := ih fun k h1 h2 => hpin k h1 (by omega)
    exact hval.trans (h m (hpin m hle (by omega)) (hpin (m + 1) (by omega) (le_refl _)))

/-! ### Timers -/

/-- What is left of `v` after `last` periods of length `P`; nothing if it was never started. -/
def countdown (last : Option ℕ) (P v : ℕ) : ℕ :=
  match last with
  | none => 0
  | some age => v - age * P

lemma countdown_zero (P v : ℕ) : countdown (some 0) P v = v := by
  rw [countdown, Nat.zero_mul, Nat.sub_zero]

lemma countdown_sub (last : Option ℕ) (P v : ℕ) :
    countdown last P v - P = countdown (last.map (· + 1)) P v := by
  cases last with
  | none => exact Nat.zero_sub _
  | some age =>
    show v - age * P - P = v - (age + 1) * P
    rw [Nat.sub_sub, Nat.succ_mul]

/-! ### Positions -/

variable {M d b y a : ℤ}

/-- The position `y` beyond the edge `b`, in the direction `d`: upwards the edge belongs to
what is beyond it. -/
def edgePos (M d b y : ℤ) : ℤ := if d = 1 then b * M + y else b * M - 1 - y

lemma edgePos_add (hd : d = 1 ∨ d = -1) :
    edgePos M d b y + a = edgePos M d b (y + d * a) := by
  rcases hd with rfl | rfl
  · rw [edgePos, edgePos, if_pos rfl, if_pos rfl]
    ring
  · rw [edgePos, edgePos, if_neg (by norm_num), if_neg (by norm_num)]
    ring

/-- The position beyond the next edge. -/
lemma edgePos_next (hd : d = 1 ∨ d = -1) :
    edgePos M d b y = edgePos M d (b + d) (y - M) := by
  rcases hd with rfl | rfl
  · rw [edgePos, edgePos, if_pos rfl, if_pos rfl]
    ring
  · rw [edgePos, edgePos, if_neg (by norm_num), if_neg (by norm_num)]
    ring

/-- The position beyond the same edge, back again. -/
lemma edgePos_back (hd : d = 1 ∨ d = -1) : edgePos M d b y = edgePos M (-d) b (-1 - y) := by
  rcases hd with rfl | rfl
  · rw [edgePos, edgePos, if_pos rfl, if_neg (by norm_num)]
    ring
  · rw [edgePos, edgePos, if_neg (by norm_num), if_pos (by norm_num)]
    ring

/-- The quotient of a position. -/
lemma edgePos_ediv (hM : 0 < M) (hd : d = 1 ∨ d = -1) :
    edgePos M d b y / M = if d = 1 then b + y / M else b - 1 - y / M := by
  have hr := Int.emod_nonneg y hM.ne'
  have hlt := Int.emod_lt_of_pos y hM
  have hy := Int.ediv_mul_add_emod y M
  rcases hd with rfl | rfl
  · rw [edgePos, if_pos rfl, if_pos rfl, Int.add_comm, Int.add_mul_ediv_right _ _ hM.ne']
    ring
  · rw [edgePos, if_neg (by norm_num), if_neg (by norm_num)]
    have hneg : b * M - 1 - y = (b - 1 - y / M) * M + (M - 1 - y % M) := by linarith
    rw [hneg, Int.add_comm, Int.add_mul_ediv_right _ _ hM.ne',
      Int.ediv_eq_zero_of_lt (by linarith) (by linarith)]
    ring

/-- An edge is passed when the parity of the quotient changes. -/
lemma edge_passed_iff (hM : 0 < M) (hd : d = 1 ∨ d = -1) (h0 : 0 ≤ y) (hlt : y < M)
    (hlo : -M ≤ y + a) (hhi : y + a < 2 * M) :
    edgePos M d b y / M % 2 ≠ edgePos M d b (y + a) / M % 2 ↔ y + a < 0 ∨ M ≤ y + a := by
  rw [edgePos_ediv hM hd, edgePos_ediv hM hd, Int.ediv_eq_zero_of_lt h0 hlt]
  by_cases hneg : y + a < 0
  · have hq : (y + a) / M = -1 := by
      rw [Int.ediv_eq_iff_of_pos hM]
      constructor <;> linarith
    rw [hq]
    split <;> omega
  · by_cases hge : M ≤ y + a
    · have hq : (y + a) / M = 1 := by
        rw [Int.ediv_eq_iff_of_pos hM]
        constructor <;> linarith
      rw [hq]
      split <;> omega
    · rw [Int.ediv_eq_zero_of_lt (not_lt.1 hneg) (not_le.1 hge)]
      simp [hneg, hge]

lemma elapsed_add {k n m P : ℕ} (h1 : k ≤ n) (h2 : n ≤ m) :
    (m - k) * P = (m - n) * P + (n - k) * P := by
  rw [← Nat.add_mul]
  congr 1
  omega

lemma elapsed_succ {k n P : ℕ} (h : k < n) : (n - 1 - k) * P + P = (n - k) * P := by
  rw [← Nat.succ_mul]
  congr 1
  omega

/-- A time below a multiple of the period is a period below it. -/
lemma succ_mul_le_of_dvd {P v n : ℕ} (hv : P ∣ v) (h : n * P < v) : (n + 1) * P ≤ v := by
  obtain ⟨k, rfl⟩ := hv
  rw [Nat.mul_comm P k] at h ⊢
  exact Nat.mul_le_mul_right P (Nat.lt_of_mul_lt_mul_right h)

/-- Increments of at most `A`, of which `q / P` take no more than `M`, need so many to get
from one edge beyond the next one. -/
lemma slow_enough {M A P q age : ℕ} (hA : A * q ≤ M * P) (hq : P ∣ q)
    (h : M < (age + 1) * A) : q ≤ age * P := by
  obtain ⟨k, rfl⟩ := hq
  rcases Nat.eq_zero_or_pos (P * k) with h0 | hpos
  · rw [h0]
    exact Nat.zero_le _
  · have h1 : M * P * k < M * P * (age + 1) :=
      calc M * P * k = M * (P * k) := by ring
        _ < (age + 1) * A * (P * k) := Nat.mul_lt_mul_of_pos_right h hpos
        _ = (age + 1) * (A * (P * k)) := by ring
        _ ≤ (age + 1) * (M * P) := Nat.mul_le_mul_left _ hA
        _ = M * P * (age + 1) := by ring
    have h2 : k < age + 1 := Nat.lt_of_mul_lt_mul_left h1
    calc P * k ≤ P * age := Nat.mul_le_mul_left _ (by omega)
      _ = age * P := by ring

end Pulses
