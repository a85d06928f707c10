import Mathlib.Tactic
import Mathlib.Data.Nat.Size

/-!
Unsigned 32-bit arithmetic on `ℕ`, and signed words on `ℤ`.

A machine word is a natural number below `2^32`; `wrap32` reduces a result to
one, `sub32` is the wrapping subtraction. Alignment to a power of two is done as
C code does it, by adding `-x & (boundary - 1)`.

* `alignUp`: `x + (-x & (boundary - 1))` on 32-bit words; `alignUp_eight` and
  `alignUp_sixtyFour` say when it rounds up and when it wraps to `0`.
* `smear`: the or-cascade that fills all bits below the highest one;
  `smear_eq`: on a 32-bit word it gives `2^size - 1`.
* `wrapInt`, `wrapLong`, `wrapSize`: what an `int`, a `long` and a `size_t` keep of
  an integer.
-/

namespace Word

/-- Reduction modulo `2^32`. -/
def wrap32 (n : ℕ) : ℕ := n % 4294967296

/-- Wrapping subtraction of 32-bit words. -/
def sub32 (a b : ℕ) : ℕ := (a + 4294967296 - b) % 4294967296

/-- `x + (-x & (boundary - 1))`: round up to a power of two, wrapping. -/
def alignUp (x boundary : ℕ) : ℕ := wrap32 (x + (sub32 0 x &&& (boundary - 1)))

lemma wrap32_lt (n : ℕ) : wrap32 n < 4294967296 := Nat.mod_lt _ (by norm_num)

lemma wrap32_of_lt {n : ℕ} (h : n < 4294967296) : wrap32 n = n := Nat.mod_eq_of_lt h

/-- Rounding up to a multiple of `8` wraps to `0` for the topmost words only. -/
lemma alignUp_eight {x : ℕ} (hx : x < 4294967296) :
    alignUp x 8 = if x ≤ 4294967288 then (x + 7) / 8 * 8 else 0 := by
  rw [alignUp, show 8 - 1 = 2 ^ 3 - 1 by norm_num, Nat.and_two_pow_sub_one_eq_mod]
  simp only [wrap32, sub32]
  split <;> omega

/-- Rounding up to a multiple of `64` wraps to `0` for the topmost words only. -/
lemma alignUp_sixtyFour {x : ℕ} (hx : x < 4294967296) :
    alignUp x 64 = if x ≤ 4294967232 then (x + 63) / 64 * 64 else 0 := by
  rw [alignUp, show 64 - 1 = 2 ^ 6 - 1 by norm_num, Nat.and_two_pow_sub_one_eq_mod]
  simp only [wrap32, sub32]
  split <;> omega

/-! ### Filling the bits below the highest one -/

/-- `v |= v >> 1; v |= v >> 2; …; v |= v >> 16`. -/
def smear (v : ℕ) : ℕ :=
  let v := v ||| v >>> 1
  let v := v ||| v >>> 2
  let v := v ||| v >>> 4
  let v := v ||| v >>> 8
  v ||| v >>> 16

/-- One stage of the cascade doubles the reach of every bit: if `v` has bit `i`
when `u` has one of the `w` bits from `i` up, then `v ||| v >>> w` does so for
`2 * w` bits. -/
lemma testBit_or_shiftRight {u v w : ℕ}
    (h : ∀ i, v.testBit i = true ↔ ∃ j < w, u.testBit (i + j) = true) (i : ℕ) :
    (v ||| v >>> w).testBit i = true ↔ ∃ j < 2 * w, u.testBit (i + j) = true := by
  rw [Nat.testBit_or, Nat.testBit_shiftRight, Bool.or_eq_true, h i, h (w + i)]
  constructor
  · rintro (⟨j, hj, hb⟩ | ⟨j, hj, hb⟩)
    · exact ⟨j, by omega, hb⟩
    · exact ⟨w + j, by omega, by rwa [show i + (w + j) = w + i + j by omega]⟩
  · rintro ⟨j, hj, hb⟩
    by_cases hjw : j < w
    · exact Or.inl ⟨j, hjw, hb⟩
    · exact Or.inr ⟨j - w, by omega, by rwa [show w + i + (j - w) = i + j by omega]⟩

/-- A bit of the cascade is set if one of the `32` bits from it up was. -/
lemma testBit_smear (v i : ℕ) :
    (smear v).testBit i = true ↔ ∃ j < 32, v.testBit (i + j) = true := by
  have h1 : ∀ i, v.testBit i = true ↔ ∃ j < 1, v.testBit (i + j) = true := fun i => by simp
  have h2 := testBit_or_shiftRight h1
  have h4 := testBit_or_shiftRight h2
  have h8 := testBit_or_shiftRight h4
  have h16 := testBit_or_shiftRight h8
  exact testBit_or_shiftRight h16 i

/-- On a 32-bit word the cascade fills all bits below the highest one. -/
lemma smear_eq {v : ℕ} (hv : v < 2 ^ 32) : smear v = 2 ^ v.size - 1 := by
  apply Nat.eq_of_testBit_eq
  intro i
  have hsize : v.size ≤ 32 := Nat.size_le.mpr hv
  rw [Nat.testBit_two_pow_sub_one, Bool.eq_iff_iff, testBit_smear, decide_eq_true_iff]
  constructor
  · rintro ⟨j, _, hb⟩
    by_contra hi
    have hlt : v < 2 ^ (i + j) := Nat.size_le.mp (by omega)
    rw [Nat.testBit_lt_two_pow hlt] at hb
    exact absurd hb (by decide)
  · intro hi
    -- the highest bit of `v` is at `v.size - 1`
    refine ⟨v.size - 1 - i, by omega, ?_⟩
    rw [show i + (v.size - 1 - i) = v.size - 1 by omega, Nat.testBit_eq_decide_div_mod_eq,
      decide_eq_true_iff]
    have hlo : 2 ^ (v.size - 1) ≤ v := Nat.lt_size.mp (by omega)
    have hhi : v < 2 ^ (v.size - 1) * 2 := by
      rw [← pow_succ, show v.size - 1 + 1 = v.size by omega]
      exact Nat.lt_size_self v
    have hdiv : v / 2 ^ (v.size - 1) = 1 :=
      Nat.div_eq_of_lt_le (by omega) (by omega)
    rw [hdiv]

/-! ### Signed words -/

/-- The value of an `int`, a `long` and a `size_t`. -/
def wrapInt (n : ℤ) : ℤ := n.bmod (2 ^ 32)
def wrapLong (n : ℤ) : ℤ := n.bmod (2 ^ 64)
def wrapSize (n : ℤ) : ℕ := (n % 2 ^ 64).toNat

lemma wrapInt_eq {n : ℤ} (h0 : -2 ^ 31 ≤ n) (hlt : n < 2 ^ 31) : wrapInt n = n :=
  Int.bmod_eq_of_le_mul_two (by omega) (by omega)

lemma le_wrapInt (n : ℤ) : -2 ^ 31 ≤ wrapInt n := by
  have h := Int.le_bmod (x := n) (m := 2 ^ 32) (by norm_num)
  rw [wrapInt]
  omega

lemma wrapInt_lt (n : ℤ) : wrapInt n < 2 ^ 31 := by
  have h := Int.bmod_lt (x := n) (m := 2 ^ 32) (by norm_num)
  rw [wrapInt]
  omega

lemma wrapLong_eq {n : ℤ} (h0 : -2 ^ 63 ≤ n) (hlt : n < 2 ^ 63) : wrapLong n = n :=
  Int.bmod_eq_of_le_mul_two (by omega) (by omega)

lemma wrapSize_eq {n : ℤ} (h0 : 0 ≤ n) (hlt : n < 2 ^ 64) : (wrapSize n : ℤ) = n := by
  rw [wrapSize]
  omega

/-- Wrapping again changes nothing, and a sum can be wrapped once for all. -/
lemma wrapInt_wrapInt (n : ℤ) : wrapInt (wrapInt n) = wrapInt n := Int.bmod_bmod

lemma wrapInt_add (n m : ℤ) : wrapInt (wrapInt n + m) = wrapInt (n + m) :=
  Int.bmod_add_bmod

lemma wrapLong_add (n m : ℤ) : wrapLong (wrapLong n + m) = wrapLong (n + m) :=
  Int.bmod_add_bmod

/-- A wrapped value is off by a multiple of the modulus, and such multiples do not matter. -/
lemma exists_wrapInt_eq (n : ℤ) : ∃ k, wrapInt n = n + 2 ^ 32 * k := by
  refine ⟨-n.bdiv (2 ^ 32), ?_⟩
  rw [wrapInt, Int.bmod_eq_self_sub_mul_bdiv]
  push_cast
  ring

lemma wrapInt_add_mul (n k : ℤ) : wrapInt (n + 2 ^ 32 * k) = wrapInt n :=
  Int.add_mul_bmod_self_left n (2 ^ 32) k

lemma wrapInt_modEq (n : ℤ) : wrapInt n ≡ n [ZMOD 2 ^ 32] := by
  obtain ⟨k, hk⟩ := exists_wrapInt_eq n
  exact (Int.modEq_iff_add_fac.2 ⟨k, hk⟩).symm

lemma wrapInt_congr {n m : ℤ} (h : n ≡ m [ZMOD 2 ^ 32]) : wrapInt n = wrapInt m := by
  obtain ⟨k, hk⟩ := Int.modEq_iff_add_fac.1 h
  rw [hk, wrapInt_add_mul]

lemma exists_wrapLong_eq (n : ℤ) : ∃ k, wrapLong n = n + 2 ^ 64 * k := by
  refine ⟨-n.bdiv (2 ^ 64), ?_⟩
  rw [wrapLong, Int.bmod_eq_self_sub_mul_bdiv]
  push_cast
  ring

/-- The part of a word under a mask reads back after a store of this part. -/
lemma store_and_mask {w : ℕ} (old value m : BitVec w) :
    (old &&& ~~~ m ||| value &&& m) &&& m = value &&& m := by
  ext i hi
  simp only [BitVec.getElem_and, BitVec.getElem_or, BitVec.getElem_not]
  cases old[i] <;> cases value[i] <;> cases m[i] <;> rfl

/-! ### Powers of two -/

/-- `a & (a - 1)` is zero for the powers of two. -/
lemma and_sub_one_eq_zero {a : BitVec 64} (h0 : a ≠ 0) :
    a &&& (a - 1) = 0 ↔ ∃ k < 64, a.toNat = 2 ^ k := by
  have hlt := a.isLt
  have hpos : a.toNat ≠ 0 := fun h => h0 (BitVec.eq_of_toNat_eq h)
  have hsub : (a - 1).toNat = a.toNat - 1 := by
    rw [BitVec.toNat_sub_of_le]
    · rfl
    · rw [BitVec.le_def]
      exact Nat.one_le_iff_ne_zero.2 hpos
  rw [← BitVec.toNat_inj, BitVec.toNat_and, hsub]
  refine (Nat.and_sub_one_eq_zero_iff_isPowerOfTwo hpos).trans ⟨?_, ?_⟩
  · rintro ⟨k, hk⟩
    rw [hk] at hlt
    exact ⟨k, (Nat.pow_lt_pow_iff_right (by norm_num)).1 hlt, hk⟩
  · rintro ⟨k, _, hk⟩
    exact ⟨k, hk⟩

/-- The bits of `-2 ^ k` are those from `k` on. -/
lemma getLsbD_neg_twoPow {k i : ℕ} (hk : k < 64) :
    (-BitVec.twoPow 64 k).getLsbD i = (decide (i < 64) && decide (k ≤ i)) := by
  have h : (∃ j < i, (BitVec.twoPow 64 k).getLsbD j = true) ↔ k < i := by
    simp only [BitVec.getLsbD_twoPow, Bool.and_eq_true, decide_eq_true_eq]
    constructor
    · rintro ⟨j, hj, _, rfl⟩
      exact hj
    · exact fun hki => ⟨k, hki, hk, rfl⟩
  rw [BitVec.getLsbD_neg]
  simp only [h]
  rw [BitVec.getLsbD_twoPow]
  grind

/-- `x & -a` rounds down to a multiple of `a`, if this is a power of two. -/
lemma toNat_and_neg (x : BitVec 64) {a : BitVec 64} {k : ℕ} (ha : a.toNat = 2 ^ k) :
    (x &&& -a).toNat = x.toNat / 2 ^ k * 2 ^ k := by
  have hk : k < 64 := by
    have hlt := a.isLt
    rw [ha] at hlt
    exact (Nat.pow_lt_pow_iff_right (by norm_num)).1 hlt
  have htwo : a = BitVec.twoPow 64 k := by
    refine BitVec.eq_of_toNat_eq ?_
    rw [BitVec.toNat_twoPow, ← ha, Nat.mod_eq_of_lt a.isLt]
  have hshift : x &&& -a = (x >>> k) <<< k := by
    refine BitVec.eq_of_getLsbD_eq fun i hi => ?_
    rw [htwo, BitVec.getLsbD_and, getLsbD_neg_twoPow hk, BitVec.getLsbD_shiftLeft,
      BitVec.getLsbD_ushiftRight]
    by_cases h : k ≤ i
    · simp [hi, h, Nat.not_lt.2 h, Nat.add_sub_cancel' h]
    · simp [hi, h, Nat.lt_of_not_le h]
  rw [hshift, BitVec.toNat_shiftLeft, BitVec.toNat_ushiftRight, Nat.shiftRight_eq_div_pow,
    Nat.shiftLeft_eq, Nat.mod_eq_of_lt]
  exact lt_of_le_of_lt (Nat.div_mul_le_self _ _) x.isLt

end Word
