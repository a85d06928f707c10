import Mathlib.Tactic

/-!
Quadrature signals: two phases that go through the cycle `00, 10, 11, 01`.

* `edge`: the signed edge from one sample to the next; `net`: their sum.
* `cycleEdge`: the edges between `00` and `10`, once for each cycle; `netCycles`: their sum.
* `OneBit`: at most one phase changes; in such samples `netCycles` are the cycles that
  have begun (`netCycles_eq`).
* `edge_of_place`, `cycleEdge_of_place`: the edges between two samples of a source that has gone
  `n` and then `m` places.
* `turning`: a signal that goes forward all the time.
-/

namespace Quadrature

/-- The place of two phases in the cycle. -/
def place : Bool × Bool → ℤ
  | (false, false) => 0
  | (true, false) => 1
  | (true, true) => 2
  | (false, true) => 3

/-- At most one of the phases changes. -/
def OneBit (p q : Bool × Bool) : Prop := p.1 = q.1 ∨ p.2 = q.2
  deriving Decidable

/-- The edge from `p` to `q`: forward, backward, or none. -/
def edge (p q : Bool × Bool) : ℤ :=
  if (place p + 1) % 4 = place q then 1 else if (place q + 1) % 4 = place p then -1 else 0

/-- The edge from `p` to `q`, if it is the first one of a cycle. -/
def cycleEdge (p q : Bool × Bool) : ℤ :=
  if p = (false, false) ∧ q = (true, false) then 1
  else if p = (true, false) ∧ q = (false, false) then -1 else 0

/-- The net number of edges from `p` through the samples. -/
def net : Bool × Bool → List (Bool × Bool) → ℤ
  | _, [] => 0
  | p, q :: qs => edge p q + net q qs

/-- The net number of cycles from `p` through the samples. -/
def netCycles : Bool × Bool → List (Bool × Bool) → ℤ
  | _, [] => 0
  | p, q :: qs => cycleEdge p q + netCycles q qs

variable {p q : Bool × Bool} {qs : List (Bool × Bool)}

/-- If both phases change there is no edge. -/
lemma edge_of_not_oneBit (h : ¬ OneBit p q) : edge p q = 0 := by
  revert p q
  decide

lemma cycleEdge_of_not_oneBit (h : ¬ OneBit p q) : cycleEdge p q = 0 := by
  revert p q
  decide

/-- An edge leads to the next place, or to the one before. -/
lemma place_eq (h : OneBit p q) : place q = (place p + edge p q) % 4 := by
  revert p q
  decide

/-- The first edge of a cycle is the one from place 0 to place 1. -/
lemma cycleEdge_eq (h : OneBit p q) :
    cycleEdge p q = (place p + edge p q + 3) / 4 - (place p + 3) / 4 := by
  revert p q
  decide

/-- A source that goes at most one place from `n` to `m`: the edge is this way. -/
lemma edge_of_place {n m : ℤ} (hp : place p = n % 4) (hq : place q = m % 4) (hle : n - 1 ≤ m)
    (hge : m ≤ n + 1) : OneBit p q ∧ edge p q = m - n := by
  have hlaw : ∀ p q : Bool × Bool, ∀ d ∈ [-1, 0, 1], place q = (place p + d) % 4 →
      OneBit p q ∧ edge p q = d := by decide
  refine hlaw p q (m - n) ?_ ?_
  · simp only [List.mem_cons, List.not_mem_nil, or_false]
    omega
  · rw [hp, hq, Int.emod_add_emod]
    congr 1
    omega

/-- The cycles that it begins. -/
lemma cycleEdge_of_place {n m : ℤ} (hp : place p = n % 4) (hq : place q = m % 4)
    (hle : n - 1 ≤ m) (hge : m ≤ n + 1) : cycleEdge p q = (m + 3) / 4 - (n + 3) / 4 := by
  obtain ⟨hbit, hedge⟩ := edge_of_place hp hq hle hge
  rw [cycleEdge_eq hbit, hedge, hp]
  omega

/-- The samples in two parts. -/
lemma net_append (qs rs : List (Bool × Bool)) : net p (qs ++ rs) =
    net p qs + net ((p :: qs).getLast (List.cons_ne_nil _ _)) rs := by
  induction qs generalizing p with
  | nil => exact (zero_add _).symm
  | cons q qs ih => rw [List.cons_append, net, ih, net, List.getLast_cons_cons, Int.add_assoc]

/-- The net number of cycles: those that have begun. -/
lemma netCycles_eq (h : (p :: qs).IsChain OneBit) :
    netCycles p qs = (place p + net p qs + 3) / 4 - (place p + 3) / 4 := by
  induction qs generalizing p with
  | nil => rw [net, netCycles, Int.add_zero, Int.sub_self]
  | cons q qs ih =>
    rw [List.isChain_cons_cons] at h
    rw [netCycles, net, ih h.2, cycleEdge_eq h.1, place_eq h.1]
    omega

/-- From the start of a cycle: the ceiling of a quarter of the edges. -/
lemma netCycles_eq_ceil (h : ((false, false) :: qs).IsChain OneBit) :
    netCycles (false, false) qs = ⌈(net (false, false) qs : ℚ) / 4⌉ := by
  rw [netCycles_eq h, show place (false, false) = 0 from rfl, Int.zero_add,
    show ((net (false, false) qs : ℚ) / 4) =
      (net (false, false) qs : ℚ) / ((4 : ℕ) : ℚ) by norm_num,
    Rat.ceil_intCast_div_natCast]
  omega

/-! ### A signal that goes forward -/

/-- The phases after `n` edges forward. -/
def turn (n : ℕ) : Bool × Bool := (n % 4 = 1 ∨ n % 4 = 2, n % 4 = 2 ∨ n % 4 = 3)

/-- The `n` samples after sample `k` of a signal that goes forward all the time. -/
def turning (k : ℕ) : ℕ → List (Bool × Bool)
  | 0 => []
  | n + 1 => turn (k + 1) :: turning (k + 1) n

lemma turn_succ (k : ℕ) : OneBit (turn k) (turn (k + 1)) ∧ edge (turn k) (turn (k + 1)) = 1 := by
  have h : k % 4 = 0 ∨ k % 4 = 1 ∨ k % 4 = 2 ∨ k % 4 = 3 := by omega
  have hs : (k + 1) % 4 = (k % 4 + 1) % 4 := by omega
  rw [turn, turn, hs]
  rcases h with h | h | h | h <;> rw [h] <;> decide

lemma isChain_turning (k n : ℕ) : (turn k :: turning k n).IsChain OneBit := by
  induction n generalizing k with
  | zero => exact List.isChain_singleton _
  | succ n ih => exact List.isChain_cons_cons.2 ⟨(turn_succ k).1, ih (k + 1)⟩

lemma net_turning (k n : ℕ) : net (turn k) (turning k n) = n := by
  induction n generalizing k with
  | zero => rfl
  | succ n ih =>
    rw [turning, net, (turn_succ k).2, ih]
    push_cast
    ring

end Quadrature
