import Mathlib.Tactic

/-!
Counters that send the low bits of an unbounded position.

* `gray`, `decodeLoop`: Gray codes, and how they are decoded.
* `xor_two_pow`, `toInt_xor_sub`: sign extension by an exclusive or.
* `setWidth_ofInt`: a reading in a wider word.
* `bmod_sub_cases`: two readings and the move between them.
-/

namespace WrappedCounter

/-! ### Gray codes -/

section Gray

variable {w : ℕ}

/-- The Gray code of a number. -/
def gray (n : BitVec w) : BitVec w := n ^^^ n >>> 1

/-- `for (; mask; mask >>= 1) buff ^= mask;` -/
def decodeLoop : ℕ → BitVec w → BitVec w → BitVec w
  | 0, _, buff => buff
  | fuel + 1, mask, buff =>
    if mask = 0#w then buff else decodeLoop fuel (mask >>> 1) (buff ^^^ mask)

lemma gray_ushiftRight (n : BitVec w) (k : ℕ) : gray n >>> k = n >>> k ^^^ n >>> (k + 1) := by
  rw [gray, BitVec.ushiftRight_xor_distrib, ← BitVec.shiftRight_add, Nat.add_comm 1 k]

/-- Only zero is its own half. -/
lemma eq_zero_of_half {x : BitVec w} (h : x ^^^ x >>> 1 = 0#w) : x = 0#w := by
  have heq : x = x >>> 1 := by simpa using h
  have hnat := congrArg BitVec.toNat heq
  rw [BitVec.toNat_ushiftRight, Nat.shiftRight_eq_div_pow, pow_one] at hnat
  refine BitVec.eq_of_toNat_eq ?_
  rw [BitVec.toNat_zero]
  omega

lemma ushiftRight_eq_zero {n : BitVec w} {k : ℕ} (hk : w ≤ k) : n >>> k = 0#w := by
  refine BitVec.eq_of_toNat_eq ?_
  rw [BitVec.toNat_ushiftRight, BitVec.toNat_zero, Nat.shiftRight_eq_div_pow]
  exact Nat.div_eq_of_lt (n.isLt.trans_le (Nat.pow_le_pow_right (by norm_num) hk))

/-- Behind `k` turns, `n >> (k + 1)` is left to be cleared. -/
lemma decodeLoop_gray (n : BitVec w) {fuel k : ℕ} (hfuel : w ≤ k + 1 + fuel) :
    decodeLoop fuel (gray n >>> (k + 1)) (n ^^^ n >>> (k + 1)) = n := by
  induction fuel generalizing k with
  | zero => rw [decodeLoop, ushiftRight_eq_zero hfuel, BitVec.xor_zero]
  | succ fuel ih =>
    rw [decodeLoop]
    split_ifs with hmask
    · have hzero : n >>> (k + 1) = 0#w := by
        refine eq_zero_of_half ?_
        rwa [gray_ushiftRight, BitVec.shiftRight_add] at hmask
      rw [hzero, BitVec.xor_zero]
    · have hbuff : n ^^^ n >>> (k + 1) ^^^ gray n >>> (k + 1) = n ^^^ n >>> (k + 1 + 1) := by
        rw [gray_ushiftRight, BitVec.xor_assoc, ← BitVec.xor_assoc (n >>> (k + 1)),
          BitVec.xor_self, BitVec.zero_xor]
      rw [hbuff, ← BitVec.shiftRight_add]
      exact ih (by omega)

/-- The loop decodes a Gray code. -/
lemma decodeLoop_start (n : BitVec w) : decodeLoop w (gray n >>> 1) (gray n) = n :=
  @decodeLoop_gray w n w 0 (by omega)

end Gray

/-! ### Sign extension -/

/-- The exclusive or with the highest bit adds or subtracts it. -/
lemma xor_two_pow {k r : ℕ} (hr : r < 2 ^ (k + 1)) :
    r ^^^ 2 ^ k = if r < 2 ^ k then r + 2 ^ k else r - 2 ^ k := by
  have hk : 0 < 2 ^ k := Nat.two_pow_pos k
  have hmod : (r ^^^ 2 ^ k) % 2 ^ k = r % 2 ^ k := by
    rw [Nat.xor_mod_two_pow, Nat.mod_self, Nat.xor_zero]
  have hdiv : (r ^^^ 2 ^ k) / 2 ^ k = r / 2 ^ k ^^^ 1 := by
    rw [Nat.xor_div_two_pow, Nat.div_self hk]
  have hsum := Nat.div_add_mod (r ^^^ 2 ^ k) (2 ^ k)
  rw [hmod, hdiv] at hsum
  rw [pow_succ] at hr
  split_ifs with hlow
  · rw [Nat.div_eq_of_lt hlow, Nat.mod_eq_of_lt hlow, Nat.zero_xor, mul_one] at hsum
    omega
  · have hone : r / 2 ^ k = 1 := Nat.div_eq_of_lt_le (by omega) (by omega)
    have hrsum := Nat.div_add_mod r (2 ^ k)
    rw [hone, mul_one] at hrsum
    rw [hone, Nat.xor_self, mul_zero] at hsum
    omega

/-- `(x ^ m) - m`, for the sign bit `m` of a field of `k + 1` bits, is the signed number. -/
lemma toInt_xor_sub {w k : ℕ} (hw : k < w) (p : ℤ) :
    ((BitVec.ofInt w (p % 2 ^ (k + 1)) ^^^ BitVec.twoPow w k) - BitVec.twoPow w k).toInt
      = p.bmod (2 ^ (k + 1)) := by
  have hr0 : 0 ≤ p % 2 ^ (k + 1) := Int.emod_nonneg p (by positivity)
  have hrlt : p % 2 ^ (k + 1) < 2 ^ (k + 1) := Int.emod_lt_of_pos p (by positivity)
  obtain ⟨r, hr⟩ := Int.eq_ofNat_of_zero_le hr0
  rw [hr] at hrlt
  have hrlt' : r < 2 ^ (k + 1) := by exact_mod_cast hrlt
  have hpow : 2 ^ (k + 1) ≤ 2 ^ w := Nat.pow_le_pow_right (by norm_num) hw
  have htwo : (BitVec.twoPow w k).toNat = 2 ^ k := by
    rw [BitVec.toNat_twoPow]
    exact Nat.mod_eq_of_lt (Nat.pow_lt_pow_right (by norm_num) hw)
  have hxor : (BitVec.ofInt w (p % 2 ^ (k + 1)) ^^^ BitVec.twoPow w k).toNat = r ^^^ 2 ^ k := by
    rw [BitVec.toNat_xor, htwo, hr, BitVec.ofInt_natCast, BitVec.toNat_ofNat,
      Nat.mod_eq_of_lt (hrlt'.trans_le hpow)]
  have hbmod : p.bmod (2 ^ (k + 1)) = if r < 2 ^ k then (r : ℤ) else r - 2 ^ (k + 1) := by
    rw [Int.bmod_def]
    push_cast
    rw [hr]
    have hhalf : ((2 : ℤ) ^ (k + 1) + 1) / 2 = 2 ^ k := by
      rw [pow_succ]
      omega
    rw [hhalf]
    norm_cast
  rw [BitVec.toInt_sub, BitVec.toInt_eq_toNat_bmod, BitVec.toInt_eq_toNat_bmod, hxor, htwo,
    xor_two_pow hrlt', Int.bmod_sub_bmod, Int.sub_bmod_bmod, hbmod]
  have hpow' : (2 : ℤ) ^ k * 2 ≤ 2 ^ w := by exact_mod_cast pow_succ 2 k ▸ hpow
  have hk : (0 : ℤ) < 2 ^ k := by positivity
  rw [pow_succ] at hrlt
  split_ifs with hlow
  · have hlow' : (r : ℤ) < 2 ^ k := by exact_mod_cast hlow
    push_cast
    rw [add_sub_cancel_right]
    exact Int.bmod_eq_of_le_mul_two (by push_cast; omega) (by push_cast; omega)
  · have hlow' : (2 : ℤ) ^ k ≤ r := by exact_mod_cast not_lt.1 hlow
    rw [Nat.cast_sub (not_lt.1 hlow), pow_succ]
    push_cast
    have hval : (r : ℤ) - 2 ^ k - 2 ^ k = r - 2 ^ k * 2 := by ring
    rw [hval]
    exact Int.bmod_eq_of_le_mul_two (by push_cast; omega) (by push_cast; omega)

/-! ### Widening -/

/-- A register that is widened has its reading. -/
lemma setWidth_ofInt {w v : ℕ} (hle : w ≤ v) (x : ℤ) :
    (BitVec.ofInt w x).setWidth v = BitVec.ofInt v (x % 2 ^ w) := by
  have hpos : (0 : ℤ) < 2 ^ w := by positivity
  have hpow : (2 : ℤ) ^ w ≤ 2 ^ v := pow_le_pow_right₀ one_le_two hle
  have hlow := Int.emod_nonneg x hpos.ne'
  have hlt := (Int.emod_lt_of_pos x hpos).trans_le hpow
  refine BitVec.eq_of_toNat_eq ?_
  rw [BitVec.toNat_setWidth, BitVec.toNat_ofInt, BitVec.toNat_ofInt]
  push_cast
  rw [Int.emod_eq_of_lt hlow hlt]
  exact Nat.mod_eq_of_lt (by zify; rwa [Int.toNat_of_nonneg hlow])

lemma ofInt_sub_ofInt {w : ℕ} (x y : ℤ) :
    BitVec.ofInt w x - BitVec.ofInt w y = BitVec.ofInt w (x - y) := by
  rw [BitVec.sub_eq_iff_eq_add, ← BitVec.ofInt_add, sub_add_cancel]
/-! ### Moves -/

/-- The readings in front of and behind a move by less than a quarter of the range. -/
lemma bmod_sub_cases {q : ℕ} {p p' : ℤ} (h : |p' - p| < q) :
    p'.bmod (4 * q) - p.bmod (4 * q) = p' - p ∨
      p'.bmod (4 * q) - p.bmod (4 * q) = p' - p + 4 * q ∨
      p'.bmod (4 * q) - p.bmod (4 * q) = p' - p - 4 * q := by
  have hq : (0 : ℤ) < q := (abs_nonneg _).trans_lt h
  obtain ⟨k, hk⟩ : ∃ k, p'.bmod (4 * q) - p.bmod (4 * q) = p' - p + 4 * q * k := by
    refine ⟨p.bdiv (4 * q) - p'.bdiv (4 * q), ?_⟩
    rw [Int.bmod_eq_self_sub_mul_bdiv, Int.bmod_eq_self_sub_mul_bdiv]
    push_cast
    ring
  have hp := Int.le_bmod (x := p) (m := 4 * q) (by omega)
  have hp' := Int.le_bmod (x := p') (m := 4 * q) (by omega)
  have hlt := Int.bmod_lt (x := p) (m := 4 * q) (by omega)
  have hlt' := Int.bmod_lt (x := p') (m := 4 * q) (by omega)
  push_cast at hp hp' hlt hlt'
  rw [abs_lt] at h
  have hup : k < 2 := by
    by_contra hge
    have hmul : 4 * (q : ℤ) * 2 ≤ 4 * q * k := mul_le_mul_of_nonneg_left (by omega) (by omega)
    omega
  have hdown : -2 < k := by
    by_contra hge
    have hmul : 4 * (q : ℤ) * k ≤ 4 * q * (-2) := mul_le_mul_of_nonneg_left (by omega) (by omega)
    omega
  obtain rfl | rfl | rfl : k = 0 ∨ k = 1 ∨ k = -1 := by omega
  · exact .inl (by omega)
  · exact .inr (.inl (by omega))
  · exact .inr (.inr (by omega))

end WrappedCounter
