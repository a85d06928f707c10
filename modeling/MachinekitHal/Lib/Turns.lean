import Mathlib.Tactic

/-!
A circle of `n` entries that is gone through again and again.

The `k`-th element goes to entry `k % n`.

* `next`: the entry after an entry, by a comparison; `next_mod`: it is the one of the next element.
* `held`: the number of elements between two entries; `held_mod`: that of the elements `a` to `b`.
* `Latest`: the last one of the first `k` elements that went to an entry.
* `Quiet`: no element goes to an entry for a while; `Latest.of_quiet`: it then keeps its element.
-/

namespace Turns

variable {n e a b c i j k : ℕ}

/-! ### Entries -/

/-- Among `n` elements in a row each has an entry of its own. -/
lemma mod_ne_of_lt (hij : i < j) (hj : j < i + n) : i % n ≠ j % n := by
  intro heq
  have hdvd : n ∣ j - i := (Nat.modEq_iff_dvd' hij.le).1 heq
  have hle := Nat.le_of_dvd (by omega) hdvd
  omega

/-- Entries of `len` cells are apart. -/
lemma entries_apart {len : ℕ} (hij : i % n ≠ j % n) :
    i % n * len + len ≤ j % n * len ∨ j % n * len + len ≤ i % n * len := by
  rw [← Nat.succ_mul, ← Nat.succ_mul]
  rcases Nat.lt_or_gt_of_ne hij with hlt | hlt
  · exact .inl (Nat.mul_le_mul_right _ hlt)
  · exact .inr (Nat.mul_le_mul_right _ hlt)

/-- The entry after `i`. -/
def next (n i : ℕ) : ℕ := if n ≤ i + 1 then 0 else i + 1

lemma next_lt (hn : 0 < n) : next n i < n := by
  rw [next]
  split_ifs <;> omega

/-- The next element goes to the next entry. -/
lemma next_mod (hn : 0 < n) : next n (k % n) = (k + 1) % n := by
  have hlt := Nat.mod_lt k hn
  rw [next, ← Nat.mod_add_mod]
  split_ifs with hlast
  · rw [show k % n + 1 = n by omega, Nat.mod_self]
  · rw [Nat.mod_eq_of_lt (by omega : k % n + 1 < n)]

/-- The number of elements from the entry `first` to the one before `last`. -/
def held (n last first : ℕ) : ℕ := (last + n - first) % n

lemma held_mod (hab : a ≤ b) (hb : b < a + n) : held n (b % n) (a % n) = b - a := by
  obtain ⟨d, rfl⟩ := Nat.exists_eq_add_of_le hab
  have hlt : a % n < n := Nat.mod_lt a (by omega)
  rw [held, ← Nat.mod_add_mod, Nat.add_sub_cancel_left]
  rcases Nat.lt_or_ge (a % n + d) n with hin | hround
  · rw [Nat.mod_eq_of_lt hin, show a % n + d + n - a % n = d + n by omega, Nat.add_mod_right,
      Nat.mod_eq_of_lt (by omega)]
  · rw [Nat.mod_eq_sub_mod hround, Nat.mod_eq_of_lt (by omega : a % n + d - n < n),
      show a % n + d - n + n - a % n = d by omega, Nat.mod_eq_of_lt (by omega)]

/-! ### The element in an entry -/

/-- Of the first `a` elements, `k` is the last one that went to the entry `e`. -/
structure Latest (n e a k : ℕ) : Prop where
  entry : k % n = e
  lt : k < a
  le : a ≤ k + n

lemma Latest.unique (hj : Latest n e a j) (hk : Latest n e a k) : j = k := by
  have hmod : j % n = k % n := hj.entry.trans hk.entry.symm
  obtain ⟨-, hj1, hj2⟩ := hj
  obtain ⟨-, hk1, hk2⟩ := hk
  rcases Nat.lt_trichotomy j k with hlt | heq | hlt
  · exact absurd hmod (mod_ne_of_lt hlt (by omega))
  · exact heq
  · exact absurd hmod.symm (mod_ne_of_lt hlt (by omega))

/-- If some element went to the entry, there is a last one. -/
lemma exists_latest (hn : 0 < n) (hk : k % n = e) (hlt : k < a) :
    ∃ j, Latest n e a j ∧ k ≤ j := by
  refine ⟨k + n * ((a - 1 - k) / n), ⟨?_, ?_, ?_⟩, Nat.le_add_right _ _⟩
  · rw [Nat.add_mul_mod_self_left, hk]
  · have hle := Nat.mul_div_le (a - 1 - k) n
    omega
  · have hgt := Nat.lt_mul_div_succ (a - 1 - k) hn
    rw [Nat.mul_succ] at hgt
    omega

/-- No element from `a` to the one before `b` goes to the entry `e`. -/
def Quiet (n e a b : ℕ) : Prop := ∀ j < b, a ≤ j → j % n ≠ e

instance : Decidable (Quiet n e a b) :=
  inferInstanceAs (Decidable (∀ j < b, a ≤ j → j % n ≠ e))

lemma Quiet.mono (h : Quiet n e a b) (hca : a ≤ c) (hcb : i ≤ b) : Quiet n e c i :=
  fun j hj hcj => h j (hj.trans_le hcb) (hca.trans hcj)

lemma Quiet.trans (hab : Quiet n e a b) (hbc : Quiet n e b c) : Quiet n e a c := by
  intro j hj haj
  rcases Nat.lt_or_ge j b with hlt | hge
  · exact hab j hlt haj
  · exact hbc j hj hge

/-- In the meantime the entry keeps its element. -/
lemma Latest.of_quiet (h : Latest n e a k) (hab : a ≤ b) (hquiet : Quiet n e a b) :
    Latest n e b k where
  entry := h.entry
  lt := h.lt.trans_le hab
  le := by
    by_contra hgt
    exact hquiet (k + n) (by omega) h.le (by rw [Nat.add_mod_right, h.entry])

end Turns
