import Mathlib.Tactic
import MachinekitHal.Hostmot2.SserialFrame
import MachinekitHal.Hostmot2.SserialRead
import MachinekitHal.Lib.Casts

/-!
Scaled numbers of a smart-serial card, written and read back with exact arithmetic.

* `UintConversion`, `FloatArith.exact`: the write path over rational numbers.
* `scaledPins`, `fieldWord`: the pins of a number, and the bits that its field takes.
* `RoundTrip`: a number comes back within two steps, whatever the operations that C leaves open
  give.
* `roundTrip_unsigned`, `roundTrip_signed`: the numbers for which it does.
-/

namespace MachinekitHal.Sserial

open Casts

/-! ### The write path -/

/-- The cast to an `unsigned`: it truncates a number that fits. -/
structure UintConversion where
  toUint : ℚ → BitVec 32
  toUint_eq : ∀ x : ℚ, -1 < x → x < 2 ^ 32 → toUint x = BitVec.ofNat 32 ⌊x⌋₊

/-- A cast that makes `w` of every number that does not fit. -/
def UintConversion.otherwise (w : BitVec 32) : UintConversion where
  toUint x := if -1 < x ∧ x < 2 ^ 32 then BitVec.ofNat 32 ⌊x⌋₊ else w
  toUint_eq _ hlo hhi := if_pos ⟨hlo, hhi⟩

lemma UintConversion.otherwise_eq (w : BitVec 32) {x : ℚ} (h : x ≤ -1 ∨ 2 ^ 32 ≤ x) :
    (otherwise w).toUint x = w :=
  if_neg fun hfit => h.elim (not_le.2 hfit.1) (not_le.2 hfit.2)

/-- The same for an `int`. -/
def intOtherwise (w : ℤ) : IntConversion where
  toInt x := if -(2 ^ 31) - 1 < x ∧ x < 2 ^ 31 then if 0 ≤ x then ⌊x⌋ else ⌈x⌉ else w
  toInt_eq _ hlo hhi := if_pos ⟨hlo, hhi⟩

lemma intOtherwise_eq (w : ℤ) {x : ℚ} (h : x ≤ -(2 ^ 31) - 1 ∨ 2 ^ 31 ≤ x) :
    (intOtherwise w).toInt x = w :=
  if_neg fun hfit => h.elim (not_le.2 hfit.1) (not_le.2 hfit.2)

/-- Exact numbers. A float is not a number here. -/
def FloatArith.exact (U : UintConversion) (I : IntConversion) : FloatArith where
  Float64 := ℚ
  Float32 := ℚ
  toSingle := id
  gt val lim := decide ((lim : ℚ) < (val : ℚ))
  lt val lim := decide ((val : ℚ) < (lim : ℚ))
  unsigned val fullscale len := U.toUint (val / fullscale * (2 ^ len - 1))
  signed val fullscale := BitVec.ofInt 32 (I.toInt (val / fullscale * 2147483647))
  singleBits _ := 0
  doubleBits _ := 0

/-- The pins of a number. -/
def scaledPins (U : UintConversion) (I : IntConversion) (val maxlim minlim fullscale : ℚ) :
    Pins (FloatArith.exact U I) where
  u32Pin := 0
  floatPin := val
  bitPins _ := false
  invert _ := false
  boolean := false
  maxlim := maxlim
  minlim := minlim
  fullscale := fullscale

/-- The bits of a field that is written to clear registers at `start`, and read back. -/
def fieldWord (conf : Conf) (val : BitVec 64) (start : ℕ) : BitVec 64 :=
  getbits ((setbits ⟨0, 0, 0⟩ val start conf.dataLength).read (start + conf.dataLength)) start
    conf.dataLength

/-- A number within its limits comes back within two steps, whatever the conversions of numbers
that do not fit, the shifts by too many bits and the divisions by zero give, and wherever the field
lies. The field read back is not a Gray code. -/
def RoundTrip (conf : Conf) (val maxlim minlim fullscale : ℚ) : Prop :=
  ∀ (U : UintConversion) (I : IntConversion) (undefOne : ℤ → BitVec 32)
    (undefShl : BitVec 64 → ℤ → BitVec 64) (undefQuot : ℚ) (buff : BitVec 64) (start : ℕ)
    (s : Statics) (pin : InPins ℚ), start + conf.dataLength ≤ 96 → pin.fullscale = fullscale →
    pin.graycode = false → ∃ s' pin',
      readConf (.exact undefOne undefShl undefQuot) s conf pin
        (fieldWord conf (packConf conf (scaledPins U I val maxlim minlim fullscale) buff) start)
          = some (s', pin') ∧
      |pin'.floatPin - val| ≤ 2 * fullscale / 2 ^ (conf.dataLength - 1)

section Scaling

variable {conf : Conf} {val maxlim minlim fullscale : ℚ} {U : UintConversion} {I : IntConversion}
  {start len : ℕ}

/-- The low bits of a word come back. -/
lemma toNat_fieldWord (w : BitVec 64) (hend : start + conf.dataLength ≤ 96) :
    (fieldWord conf w start).toNat = w.toNat % 2 ^ conf.dataLength :=
  @getbits_writeFields ⟨conf.dataLength, w, conf.length_pos, conf.length_le⟩ [] start
    (start + conf.dataLength) ⟨0, 0, 0⟩ (fun p _ _ => bit_zero p) le_rfl hend

/-- A number within its limits is not changed. -/
lemma limited_scaledPins (hmin : minlim ≤ val) (hmax : val ≤ maxlim) :
    (scaledPins U I val maxlim minlim fullscale).limited = val := by
  have hgt : ¬ maxlim < val := not_lt.2 hmax
  have hlt : ¬ val < minlim := not_lt.2 hmin
  simp only [Pins.limited, scaledPins, FloatArith.exact, id, hgt, hlt, decide_false,
    Bool.false_eq_true, if_false]

/-- Two steps, in units of one. -/
lemma within_iff {m c q : ℚ} (hfs : 0 < fullscale) (hc : 0 < c) (hq : 0 < q) :
    |m * fullscale / c - val| ≤ 2 * fullscale / q ↔ |m - val / fullscale * c| * q ≤ 2 * c := by
  have hval : m * fullscale / c - val = (m - val / fullscale * c) * (fullscale / c) := by
    field_simp
  rw [hval, abs_mul, abs_of_pos (div_pos hfs hc), ← mul_div_assoc, div_le_div_iff₀ hc hq]
  constructor
  · intro h
    refine le_of_mul_le_mul_right ?_ hfs
    linarith
  · intro h
    have hmul := mul_le_mul_of_nonneg_right h hfs.le
    linarith

/-! ### Unsigned numbers -/

/-- The full scale of a field that is short enough. -/
lemma toInt_fullscale (hlen : len < 32) (hpos : 0 < len) :
    ((1 : BitVec 32) <<< len - 1).toInt = 2 ^ len - 1 ∧ (1 : BitVec 32) <<< len - 1 ≠ 0 := by
  revert len
  decide

/-- The word of an unsigned number. -/
lemma packConf_unsigned (htype : conf.dataType = .unsigned) (hmin : minlim ≤ val)
    (hmax : val ≤ maxlim) (buff : BitVec 64) :
    packConf conf (scaledPins U I val maxlim minlim fullscale) buff
      = (U.toUint (val / fullscale * (2 ^ conf.dataLength - 1))).setWidth 64 := by
  rw [packConf, htype]
  dsimp only
  rw [limited_scaledPins hmin hmax]
  rfl

/-- What an unsigned number comes back as. -/
def unsignedBack (U : UintConversion) (undefOne : ℤ → BitVec 32) (undefQuot : ℚ) (len : ℕ)
    (val fullscale : ℚ) : ℚ :=
  let divisor := (ReadArith.exact undefOne (fun _ _ => 0) undefQuot).one len - 1
  if divisor = 0 then undefQuot
  else ((U.toUint (val / fullscale * (2 ^ len - 1))).toNat % 2 ^ len : ℕ) * fullscale
    / divisor.toInt

lemma roundTrip_unsigned_back (htype : conf.dataType = .unsigned) (hmin : minlim ≤ val)
    (hmax : val ≤ maxlim) : RoundTrip conf val maxlim minlim fullscale ↔
      ∀ U undefOne undefQuot,
        |unsignedBack U undefOne undefQuot conf.dataLength val fullscale - val|
        ≤ 2 * fullscale / 2 ^ (conf.dataLength - 1) := by
  have hback : ∀ (U : UintConversion) (I : IntConversion) (undefOne : ℤ → BitVec 32)
      (undefShl : BitVec 64 → ℤ → BitVec 64) (undefQuot : ℚ) (buff : BitVec 64) (start : ℕ)
      (s : Statics) (pin : InPins ℚ), start + conf.dataLength ≤ 96 → pin.fullscale = fullscale →
      pin.graycode = false → ∃ pin', readConf (.exact undefOne undefShl undefQuot) s conf pin
        (fieldWord conf (packConf conf (scaledPins U I val maxlim minlim fullscale) buff) start)
          = some (s, pin') ∧
        pin'.floatPin = unsignedBack U undefOne undefQuot conf.dataLength val fullscale := by
    intro U I undefOne undefShl undefQuot buff start s pin hend hfs hgray
    refine ⟨_, readConf_unsigned htype, ?_⟩
    have hword := toNat_fieldWord
      (packConf conf (scaledPins U I val maxlim minlim fullscale) buff) hend
    rw [packConf_unsigned htype hmin hmax, BitVec.toNat_setWidth_of_le (by omega)] at hword
    rw [packConf_unsigned htype hmin hmax]
    simp only [InPins.decoded, hgray, Bool.false_eq_true, if_false, hfs]
    rw [unsignedBack, ← hword]
    rfl
  constructor
  · intro h U undefOne undefQuot
    obtain ⟨s', pin', hread, hle⟩ := h U .lowest undefOne (fun _ _ => 0) undefQuot 0 0 .start
      (.start 0 fullscale) (by have := conf.length_le; omega) rfl rfl
    obtain ⟨pin2, hread2, heq⟩ := hback U .lowest undefOne (fun _ _ => 0) undefQuot 0 0 .start
      (.start 0 fullscale) (by have := conf.length_le; omega) rfl rfl
    rw [hread] at hread2
    cases hread2
    rwa [heq] at hle
  · intro h U I undefOne undefShl undefQuot buff start s pin hend hfs hgray
    obtain ⟨pin', hread, heq⟩ :=
      hback U I undefOne undefShl undefQuot buff start s pin hend hfs hgray
    exact ⟨s, pin', hread, by rw [heq]; exact h U undefOne undefQuot⟩

/-- The number in steps is not negative, and within the field; or it is off by no more than two
in a field of one bit. -/
def FitsUnsigned (len : ℕ) (x : ℚ) : Prop :=
  (-1 < x ∧ x < 2 ^ len) ∨ (len = 1 ∧ (x = -1 ∨ x = 2 ∨ x = 3))

/-- In a short field the error is that of the truncation, unless the number does not fit. -/
lemma unsignedBack_iff (hfs : 0 < fullscale) (hlen : len + 1 < 32) (undefOne : ℤ → BitVec 32)
    (undefQuot : ℚ) :
    |unsignedBack U undefOne undefQuot (len + 1) val fullscale - val|
        ≤ 2 * fullscale / 2 ^ len ↔
      |(((U.toUint (val / fullscale * (2 ^ (len + 1) - 1))).toNat % 2 ^ (len + 1) : ℕ) : ℚ)
        - val / fullscale * (2 ^ (len + 1) - 1)| * 2 ^ len ≤ 2 * (2 ^ (len + 1) - 1) := by
  obtain ⟨hdiv, hne⟩ := toInt_fullscale hlen (Nat.succ_pos len)
  have hone : (ReadArith.exact undefOne (fun _ _ => 0) undefQuot).one (len + 1 : ℕ)
      = (1 : BitVec 32) <<< (len + 1) := ReadArith.one_of_lt _ (by omega) (by omega)
  have hpos : (0 : ℚ) < 2 ^ (len + 1) - 1 := by
    have h1 : (1 : ℚ) < 2 ^ (len + 1) := one_lt_pow₀ (by norm_num) (Nat.succ_ne_zero len)
    linarith
  rw [unsignedBack, hone, if_neg hne, hdiv]
  push_cast
  exact within_iff hfs hpos (by positivity)

/-- A number that fits is off by less than one step. -/
lemma fits_unsigned {x : ℚ} {k : ℕ} (hk : k + 1 < 32) (h : FitsUnsigned (k + 1) x) :
    |(((U.toUint x).toNat % 2 ^ (k + 1) : ℕ) : ℚ) - x| * 2 ^ k ≤ 2 * (2 ^ (k + 1) - 1) := by
  have hQ : (1 : ℚ) ≤ 2 ^ k := one_le_pow₀ (by norm_num)
  have hP : (2 : ℚ) ^ (k + 1) = 2 * 2 ^ k := by ring
  rcases h with ⟨hlo, hhi⟩ | ⟨hone, hx⟩
  · have h32 : (2 : ℕ) ^ (k + 1) < 2 ^ 32 := Nat.pow_lt_pow_right (by norm_num) hk
    have hfloor : ⌊x⌋₊ < 2 ^ (k + 1) := by
      rcases le_or_gt 0 x with h0 | h0
      · rw [Nat.floor_lt h0]
        exact_mod_cast hhi
      · rw [Nat.floor_of_nonpos h0.le]
        exact Nat.two_pow_pos _
    have hword : (U.toUint x).toNat % 2 ^ (k + 1) = ⌊x⌋₊ := by
      have h32' : (2 : ℚ) ^ (k + 1) < 2 ^ 32 := by exact_mod_cast h32
      rw [U.toUint_eq x hlo (hhi.trans h32'), BitVec.toNat_ofNat,
        Nat.mod_eq_of_lt (hfloor.trans h32), Nat.mod_eq_of_lt hfloor]
    have herr : |(⌊x⌋₊ : ℚ) - x| ≤ 1 := by
      rcases le_or_gt 0 x with h0 | h0
      · have h1 := Nat.floor_le h0
        have h2 := Nat.lt_floor_add_one x
        rw [abs_le]
        constructor <;> linarith
      · rw [Nat.floor_of_nonpos h0.le, Nat.cast_zero, zero_sub, abs_neg, abs_le]
        constructor <;> linarith
    rw [hword, hP]
    have hmul := mul_le_mul_of_nonneg_right herr (by linarith : (0 : ℚ) ≤ 2 ^ k)
    linarith
  · obtain rfl : k = 0 := by omega
    simp only [zero_add, pow_one, pow_zero, mul_one]
    have hlow : (U.toUint x).toNat % 2 < 2 := Nat.mod_lt _ (by norm_num)
    rcases hx with rfl | rfl | rfl
    · have hcast : (((U.toUint (-1)).toNat % 2 : ℕ) : ℚ) < 2 := by exact_mod_cast hlow
      have hnn : (0 : ℚ) ≤ (((U.toUint (-1)).toNat % 2 : ℕ) : ℚ) := Nat.cast_nonneg _
      have hle : (U.toUint (-1)).toNat % 2 ≤ 1 := by omega
      have hle' : (((U.toUint (-1)).toNat % 2 : ℕ) : ℚ) ≤ 1 := by exact_mod_cast hle
      rw [abs_le]
      constructor <;> linarith
    · rw [U.toUint_eq 2 (by norm_num) (by norm_num)]
      norm_num
    · rw [U.toUint_eq 3 (by norm_num) (by norm_num)]
      norm_num

/-- A number that comes back as one that is a whole range away is in a field of one bit. -/
lemma eq_zero_of_far {n x : ℚ} {k : ℕ} (hback : |n - x| * 2 ^ k ≤ 2 * (2 ^ (k + 1) - 1))
    (hfar : 2 * 2 ^ k ≤ |n - x|) : k = 0 := by
  by_contra hne
  have hP : (2 : ℚ) ^ (k + 1) = 2 * 2 ^ k := by ring
  have hQ : (2 : ℚ) ≤ 2 ^ k := by
    calc (2 : ℚ) = 2 ^ 1 := by norm_num
      _ ≤ 2 ^ k := pow_le_pow_right₀ (by norm_num) (by omega)
  have hmul := mul_le_mul_of_nonneg_right hfar (by linarith : (0 : ℚ) ≤ 2 ^ k)
  nlinarith

/-- The low bits of a word of ones. -/
lemma allOnes_mod {j : ℕ} (hj : j ≤ 32) : (BitVec.allOnes 32).toNat % 2 ^ j = 2 ^ j - 1 := by
  have hpos : 0 < 2 ^ j := Nat.two_pow_pos _
  obtain ⟨c, hc⟩ := Nat.pow_dvd_pow 2 hj
  rw [BitVec.toNat_allOnes, hc]
  obtain ⟨c, rfl⟩ : ∃ d, c = d + 1 := ⟨c - 1, by
    rcases c with _ | c
    · omega
    · rfl⟩
  rw [Nat.mul_succ, Nat.add_sub_assoc (by omega), Nat.mul_add_mod, Nat.mod_eq_of_lt (by omega)]

/-- Numbers up to -1 can come back as all ones. -/
lemma unfit_unsigned_low {x : ℚ} {k : ℕ} (hk : k + 1 < 32) (hlow : x ≤ -1)
    (h : ∀ U : UintConversion, |(((U.toUint x).toNat % 2 ^ (k + 1) : ℕ) : ℚ) - x| * 2 ^ k
      ≤ 2 * (2 ^ (k + 1) - 1)) : FitsUnsigned (k + 1) x := by
  have hQ : (1 : ℚ) ≤ 2 ^ k := one_le_pow₀ (by norm_num)
  have hP : (2 : ℚ) ^ (k + 1) = 2 * 2 ^ k := by ring
  have hones : ((UintConversion.otherwise (BitVec.allOnes 32)).toUint x).toNat % 2 ^ (k + 1)
      = 2 ^ (k + 1) - 1 := by
    rw [UintConversion.otherwise_eq _ (.inl hlow), allOnes_mod hk.le]
  have hU := h (.otherwise (BitVec.allOnes 32))
  have hcast : ((2 ^ (k + 1) - 1 : ℕ) : ℚ) = 2 ^ (k + 1) - 1 := by
    rw [Nat.cast_sub Nat.one_le_two_pow]
    push_cast
    rfl
  have habs : |((2 ^ (k + 1) - 1 : ℕ) : ℚ) - x| = 2 ^ (k + 1) - 1 - x := by
    rw [hcast, abs_of_nonneg (by linarith)]
  rw [hones] at hU
  obtain rfl := eq_zero_of_far hU (by rw [habs]; linarith)
  rw [habs] at hU
  norm_num at hU
  exact .inr ⟨rfl, .inl (by linarith)⟩

/-- Numbers of more bits than the field has lose the highest ones. -/
lemma unfit_unsigned_lost {x : ℚ} {k : ℕ} (hhigh : x < 2 ^ 32) (hlong : 2 ^ (k + 1) ≤ x)
    (h : ∀ U : UintConversion, |(((U.toUint x).toNat % 2 ^ (k + 1) : ℕ) : ℚ) - x| * 2 ^ k
      ≤ 2 * (2 ^ (k + 1) - 1)) : FitsUnsigned (k + 1) x := by
  have hP : (2 : ℚ) ^ (k + 1) = 2 * 2 ^ k := by ring
  have hpow : (0 : ℚ) < 2 ^ (k + 1) := by positivity
  have h0 : (0 : ℚ) ≤ x := by linarith
  have hm := Nat.floor_le h0
  have hle : 2 ^ (k + 1) ≤ ⌊x⌋₊ := Nat.le_floor (by push_cast; exact hlong)
  have hlt : ⌊x⌋₊ < 2 ^ 32 := (Nat.floor_lt h0).2 (by push_cast; exact hhigh)
  have hword : ((UintConversion.otherwise 0).toUint x).toNat % 2 ^ (k + 1)
      = ⌊x⌋₊ % 2 ^ (k + 1) := by
    rw [UintConversion.toUint_eq _ x (by linarith) hhigh, BitVec.toNat_ofNat,
      Nat.mod_eq_of_lt hlt]
  have hlost : ⌊x⌋₊ % 2 ^ (k + 1) + 2 ^ (k + 1) ≤ ⌊x⌋₊ := by
    have hdiv := Nat.div_add_mod ⌊x⌋₊ (2 ^ (k + 1))
    have hone : 1 ≤ ⌊x⌋₊ / 2 ^ (k + 1) := Nat.div_pos hle (Nat.two_pow_pos _)
    have hmul := Nat.mul_le_mul_left (2 ^ (k + 1)) hone
    omega
  have hlost' : ((⌊x⌋₊ % 2 ^ (k + 1) : ℕ) : ℚ) + 2 ^ (k + 1) ≤ ⌊x⌋₊ := by
    exact_mod_cast hlost
  have habs : |((⌊x⌋₊ % 2 ^ (k + 1) : ℕ) : ℚ) - x| = x - (⌊x⌋₊ % 2 ^ (k + 1) : ℕ) := by
    rw [abs_sub_comm, abs_of_nonneg (by linarith)]
  have hU := h (.otherwise 0)
  rw [hword] at hU
  obtain rfl := eq_zero_of_far hU (by rw [habs]; linarith)
  rw [habs] at hU
  norm_num at hU hlost'
  -- one bit: the number is 2 or 3
  have hx : x = ⌊x⌋₊ := le_antisymm (by linarith) hm
  have hn : ⌊x⌋₊ = ⌊x⌋₊ % 2 + 2 := by
    have hcast : (⌊x⌋₊ : ℚ) = ((⌊x⌋₊ % 2 + 2 : ℕ) : ℚ) := by
      push_cast
      linarith
    exact_mod_cast hcast
  have hlow2 := Nat.mod_lt ⌊x⌋₊ (by norm_num : 0 < 2)
  refine .inr ⟨rfl, .inr ?_⟩
  rcases (by omega : ⌊x⌋₊ = 2 ∨ ⌊x⌋₊ = 3) with h2 | h3
  · exact .inl (by rw [hx, h2]; norm_num)
  · exact .inr (by rw [hx, h3]; norm_num)

/-- A number that does not fit can come back as another one. -/
lemma unfit_unsigned {x : ℚ} {k : ℕ} (hk : k + 1 < 32)
    (h : ∀ U : UintConversion, |(((U.toUint x).toNat % 2 ^ (k + 1) : ℕ) : ℚ) - x| * 2 ^ k
      ≤ 2 * (2 ^ (k + 1) - 1)) : FitsUnsigned (k + 1) x := by
  rcases le_or_gt x (-1) with hlow | hlow
  · exact unfit_unsigned_low hk hlow h
  rcases le_or_gt (2 ^ 32) x with hhigh | hhigh
  · -- zero
    have hQ : (1 : ℚ) ≤ 2 ^ k := one_le_pow₀ (by norm_num)
    have hP : (2 : ℚ) ^ (k + 1) = 2 * 2 ^ k := by ring
    have hzero : ((UintConversion.otherwise 0).toUint x).toNat % 2 ^ (k + 1) = 0 := by
      rw [UintConversion.otherwise_eq _ (.inr hhigh)]
      exact Nat.zero_mod _
    have hU := h (.otherwise 0)
    rw [hzero, Nat.cast_zero, zero_sub, abs_neg, abs_of_nonneg (by linarith)] at hU
    nlinarith
  · rcases lt_or_ge x (2 ^ (k + 1)) with hfit | hlong
    · exact .inl ⟨hlow, hfit⟩
    · exact unfit_unsigned_lost hhigh hlong h

/-- Unsigned numbers come back, exactly if the field is shorter than 32 bits and they fit it. -/
lemma roundTrip_unsigned (htype : conf.dataType = .unsigned) (hfs : 0 < fullscale)
    (hmin : minlim ≤ val) (hmax : val ≤ maxlim) (hlen : conf.dataLength ≤ 32) :
    RoundTrip conf val maxlim minlim fullscale ↔ conf.dataLength < 32 ∧
      FitsUnsigned conf.dataLength (val / fullscale * (2 ^ conf.dataLength - 1)) := by
  rw [roundTrip_unsigned_back htype hmin hmax]
  obtain ⟨k, hk⟩ : ∃ k, conf.dataLength = k + 1 :=
    ⟨conf.dataLength - 1, by have := conf.length_pos; omega⟩
  rw [hk] at hlen ⊢
  rw [Nat.add_sub_cancel]
  rcases Nat.lt_or_ge (k + 1) 32 with hshort | hlong
  · constructor
    · intro h
      refine ⟨hshort, unfit_unsigned hshort fun U => ?_⟩
      exact (unsignedBack_iff hfs hshort (fun _ => 0) 0).1 (h U (fun _ => 0) 0)
    · rintro ⟨-, hfits⟩ U undefOne undefQuot
      exact (unsignedBack_iff hfs hshort undefOne undefQuot).2 (fits_unsigned hshort hfits)
  · -- the shift by 32 leaves the divisor open
    obtain rfl : k = 31 := by omega
    refine iff_of_false (fun h => ?_) fun h => absurd h.1 (by decide)
    have hout := h (.otherwise 0) (fun _ => 1) (val + 2 * fullscale / 2 ^ 31 + 1)
    have hone : (ReadArith.exact (fun _ => 1) (fun _ _ => 0)
        (val + 2 * fullscale / 2 ^ 31 + 1)).one ((31 + 1 : ℕ) : ℤ) = 1 := by
      rw [ReadArith.one, if_neg (by omega)]
      rfl
    rw [unsignedBack, hone, if_pos (by decide : (1 : BitVec 32) - 1 = 0), add_assoc,
      add_sub_cancel_left] at hout
    have hpos : 0 ≤ 2 * fullscale / 2 ^ 31 := by positivity
    rw [abs_of_nonneg (by linarith)] at hout
    linarith

/-! ### Signed numbers -/

lemma getLsbD_fieldWord (w : BitVec 64) (hend : start + conf.dataLength ≤ 96) (j : ℕ) :
    (fieldWord conf w start).getLsbD j = (decide (j < conf.dataLength) && w.getLsbD j) := by
  rw [← BitVec.testBit_toNat, toNat_fieldWord w hend, Nat.testBit_mod_two_pow,
    BitVec.testBit_toNat]

/-- The highest bits of the number come back at their places. -/
lemma signed_word (htype : conf.dataType = .signed) (hmin : minlim ≤ val) (hmax : val ≤ maxlim)
    (hlen : conf.dataLength ≤ 32) (hend : start + conf.dataLength ≤ 96) (buff : BitVec 64)
    (A : ReadArith ℚ) :
    (A.shl (fieldWord conf (packConf conf (scaledPins U I val maxlim minlim fullscale) buff) start
        &&& 0xFFFFFFFF) (32 - conf.dataLength)).setWidth 32
      = (BitVec.ofInt 32 (I.toInt (val / fullscale * 2147483647))).sshiftRight
          (32 - conf.dataLength) <<< (32 - conf.dataLength) := by
  have hpos := conf.length_pos
  have hword : packConf conf (scaledPins U I val maxlim minlim fullscale) buff
      = ((BitVec.ofInt 32 (I.toInt (val / fullscale * 2147483647))).sshiftRight
          (32 - conf.dataLength)).signExtend 64 &&& ones >>> (64 - conf.dataLength) := by
    rw [packConf, htype]
    dsimp only
    rw [limited_scaledPins hmin hmax]
    rfl
  have hshift : ((32 : ℤ) - conf.dataLength).toNat = 32 - conf.dataLength := by omega
  rw [ReadArith.shl, if_pos (by omega), hshift, hword]
  refine BitVec.eq_of_getLsbD_eq fun i hi => ?_
  rw [BitVec.getLsbD_setWidth, BitVec.getLsbD_shiftLeft, BitVec.getLsbD_shiftLeft,
    BitVec.getLsbD_and, getLsbD_fieldWord _ hend, getLsbD_highest _ hlen, getLsbD_word,
    BitVec.getLsbD_sshiftRight]
  by_cases hlow : i < 32 - conf.dataLength
  · simp [hlow]
  · have hin : i - (32 - conf.dataLength) < conf.dataLength := by omega
    have hin' : 32 - conf.dataLength + (i - (32 - conf.dataLength)) < 32 := by omega
    have h32 : i - (32 - conf.dataLength) < 32 := by omega
    have h64 : i < 64 := by omega
    simp [hlow, hi, h64, hin, hin', h32]

/-- The number without its lowest bits. -/
lemma toInt_highest (x : BitVec 32) {k : ℕ} (hk : k < 32) :
    (x.sshiftRight k <<< k).toInt = x.toInt / 2 ^ k * 2 ^ k := by
  obtain ⟨c, hc⟩ : ∃ c : ℤ, (2 : ℤ) ^ 31 = c * 2 ^ k :=
    ⟨2 ^ (31 - k), by rw [← pow_add, Nat.sub_add_cancel (by omega)]⟩
  have hpos : (0 : ℤ) < 2 ^ k := by positivity
  have hlo := BitVec.le_toInt x
  have hhi := BitVec.toInt_lt (x := x)
  have hle : x.toInt / 2 ^ k * 2 ^ k ≤ x.toInt := Int.ediv_mul_le _ hpos.ne'
  have hge : -c ≤ x.toInt / 2 ^ k := by
    rw [Int.le_ediv_iff_mul_le hpos, neg_mul, ← hc]
    exact hlo
  have hge' : -2 ^ 31 ≤ x.toInt / 2 ^ k * 2 ^ k := by
    rw [hc, ← neg_mul]
    exact mul_le_mul_of_nonneg_right hge hpos.le
  have hmod : (x.sshiftRight k <<< k).toInt = (x.toInt / 2 ^ k * 2 ^ k).bmod (2 ^ 32) := by
    have hdiv : (x.sshiftRight k).toInt = x.toInt / 2 ^ k := by
      rw [BitVec.toInt_sshiftRight, Int.shiftRight_eq_div_pow]
      push_cast
      rfl
    rw [← hdiv, BitVec.toInt_shiftLeft, BitVec.toInt_eq_toNat_bmod (x.sshiftRight k),
      Int.bmod_mul_bmod, Nat.shiftLeft_eq]
    push_cast
    rfl
  rw [hmod]
  exact Int.bmod_eq_of_le_mul_two (by omega) (by omega)

/-- What a signed number comes back as, in steps of `fullscale / 2147483647`. -/
def signedBack (I : IntConversion) (len : ℕ) (y : ℚ) : ℤ :=
  (BitVec.ofInt 32 (I.toInt y)).toInt / 2 ^ (32 - len) * 2 ^ (32 - len)

lemma roundTrip_signed_back (htype : conf.dataType = .signed) (hfs : 0 < fullscale)
    (hmin : minlim ≤ val) (hmax : val ≤ maxlim) (hlen : conf.dataLength ≤ 32) :
    RoundTrip conf val maxlim minlim fullscale ↔
      ∀ I, |(signedBack I conf.dataLength (val / fullscale * 2147483647) : ℚ)
        - val / fullscale * 2147483647| * 2 ^ (conf.dataLength - 1) ≤ 2 * 2147483647 := by
  have hpos := conf.length_pos
  have hback : ∀ (U : UintConversion) (I : IntConversion) (A : ReadArith ℚ) (buff : BitVec 64)
      (start : ℕ) (s : Statics) (pin : InPins ℚ), start + conf.dataLength ≤ 96 →
      pin.fullscale = fullscale → (∀ x f, A.signed x f = x.toInt / 2147483647 * f) →
      ∃ pin', readConf A s conf pin
        (fieldWord conf (packConf conf (scaledPins U I val maxlim minlim fullscale) buff) start)
          = some (s, pin') ∧
        pin'.floatPin = signedBack I conf.dataLength (val / fullscale * 2147483647) * fullscale
          / 2147483647 := by
    intro U I A buff start s pin hend hfs' hA
    refine ⟨_, readConf_signed htype, ?_⟩
    dsimp only
    rw [signed_word htype hmin hmax hlen hend, hA, toInt_highest _ (by omega), hfs',
      div_mul_eq_mul_div, signedBack]
  constructor
  · intro h I
    have hend : 0 + conf.dataLength ≤ 96 := by omega
    obtain ⟨s', pin', hread, hle⟩ := h (.otherwise 0) I (fun _ => 0) (fun _ _ => 0) 0 0 0 .start
      (.start 0 fullscale) hend rfl rfl
    obtain ⟨pin2, hread2, heq⟩ := hback (.otherwise 0) I
      (.exact (fun _ => 0) (fun _ _ => 0) 0) 0 0 .start (.start 0 fullscale) hend rfl
      fun _ _ => rfl
    rw [hread] at hread2
    cases hread2
    rw [heq] at hle
    exact (within_iff hfs (by norm_num) (by positivity)).1 hle
  · intro h U I undefOne undefShl undefQuot buff start s pin hend hfs' hgray
    obtain ⟨pin', hread, heq⟩ := hback U I (.exact undefOne undefShl undefQuot) buff start s pin
      hend hfs' fun _ _ => rfl
    refine ⟨s, pin', hread, ?_⟩
    rw [heq]
    exact (within_iff hfs (by norm_num) (by positivity)).2 (h I)

/-- The number fits an `int`; or it is off by no more than two steps in a field of one bit. -/
def FitsSigned (len : ℕ) (y : ℚ) : Prop :=
  (-(2 ^ 31) - 1 < y ∧ y < 2 ^ 31) ∨ (len = 1 ∧ -4294967294 ≤ y ∧ y ≤ -2147483649)

/-- The lowest bits are less than a step of the field. -/
lemma signedBack_near (I : IntConversion) (len : ℕ) (y : ℚ) :
    signedBack I len y ≤ (BitVec.ofInt 32 (I.toInt y)).toInt ∧
      (BitVec.ofInt 32 (I.toInt y)).toInt < signedBack I len y + 2 ^ (32 - len) := by
  have hpos : (0 : ℤ) < 2 ^ (32 - len) := by positivity
  rw [signedBack]
  constructor
  · exact Int.ediv_mul_le _ hpos.ne'
  · have hlt := Int.lt_ediv_add_one_mul_self (BitVec.ofInt 32 (I.toInt y)).toInt hpos
    rwa [add_mul, one_mul] at hlt

/-- Truncation of a number that fits. -/
lemma toInt_near (I : IntConversion) {y : ℚ} (hlo : -(2 ^ 31) - 1 < y) (hhi : y < 2 ^ 31) :
    |((BitVec.ofInt 32 (I.toInt y)).toInt : ℚ) - y| < 1 := by
  have htrunc : |(I.toInt y : ℚ) - y| < 1 ∧ -2 ^ 31 ≤ I.toInt y ∧ I.toInt y < 2 ^ 31 := by
    rw [I.toInt_eq y hlo hhi]
    split_ifs with h0
    · have h1 := Int.floor_le y
      have h2 := Int.lt_floor_add_one y
      refine ⟨by rw [abs_lt]; constructor <;> linarith, ?_, ?_⟩
      · have hnn := Int.floor_nonneg.2 h0
        omega
      · rw [Int.floor_lt]
        exact_mod_cast hhi
    · have h1 := Int.le_ceil y
      have h2 := Int.ceil_lt_add_one y
      refine ⟨by rw [abs_lt]; constructor <;> linarith, ?_, ?_⟩
      · have hlt : (-2 ^ 31 - 1 : ℤ) < ⌈y⌉ := by
          rw [Int.lt_ceil]
          push_cast
          linarith
        omega
      · have hle : ⌈y⌉ ≤ 0 := Int.ceil_le.2 (by push_cast; linarith)
        omega
  rw [BitVec.toInt_ofInt_eq_self (by norm_num) htrunc.2.1 htrunc.2.2]
  exact htrunc.1

/-- Signed numbers come back, exactly if they fit. -/
lemma roundTrip_signed (htype : conf.dataType = .signed) (hfs : 0 < fullscale)
    (hmin : minlim ≤ val) (hmax : val ≤ maxlim) (hlen : conf.dataLength ≤ 32) :
    RoundTrip conf val maxlim minlim fullscale ↔
      FitsSigned conf.dataLength (val / fullscale * 2147483647) := by
  rw [roundTrip_signed_back htype hfs hmin hmax hlen]
  generalize val / fullscale * 2147483647 = y
  obtain ⟨k, hk⟩ : ∃ k, conf.dataLength = k + 1 :=
    ⟨conf.dataLength - 1, by have := conf.length_pos; omega⟩
  rw [hk] at hlen ⊢
  rw [Nat.add_sub_cancel]
  have hQ : (1 : ℚ) ≤ 2 ^ k := one_le_pow₀ (by norm_num)
  have hprod : (2 : ℚ) ^ (32 - (k + 1)) * 2 ^ k = 2 ^ 31 := by
    rw [← pow_add]
    congr 1
    omega
  have hS : (1 : ℚ) ≤ 2 ^ (32 - (k + 1)) := one_le_pow₀ (by norm_num)
  constructor
  · intro h
    rcases le_or_gt (2 ^ 31) y with hhigh | hhigh
    · -- the lowest number
      have hle := (signedBack_near (intOtherwise (-2 ^ 31)) (k + 1) y).1
      rw [intOtherwise_eq _ (.inr hhigh), BitVec.toInt_ofInt_eq_self (by norm_num) (by norm_num)
        (by norm_num)] at hle
      have hle' : (signedBack (intOtherwise (-2 ^ 31)) (k + 1) y : ℚ) ≤ -2 ^ 31 := by
        exact_mod_cast hle
      have hI := h (intOtherwise (-2 ^ 31))
      rw [abs_sub_comm, abs_of_nonneg (by linarith)] at hI
      nlinarith
    rcases le_or_gt y (-(2 ^ 31) - 1) with hlow | hlow
    · -- the highest number
      have hlt := (signedBack_near (intOtherwise (2 ^ 31 - 1)) (k + 1) y).2
      have hI := h (intOtherwise (2 ^ 31 - 1))
      rw [intOtherwise_eq _ (.inl hlow), BitVec.toInt_ofInt_eq_self (by norm_num) (by norm_num)
        (by norm_num)] at hlt
      have hlt' : (2 : ℚ) ^ 31 ≤ signedBack (intOtherwise (2 ^ 31 - 1)) (k + 1) y
          + 2 ^ (32 - (k + 1)) := by
        have hle : (2 : ℤ) ^ 31 ≤ signedBack (intOtherwise (2 ^ 31 - 1)) (k + 1) y
          + 2 ^ (32 - (k + 1)) := by omega
        exact_mod_cast hle
      rcases Nat.eq_zero_or_pos k with rfl | hk0
      · have hzero : signedBack (intOtherwise (2 ^ 31 - 1)) (0 + 1) y = 0 := by
          rw [signedBack, intOtherwise_eq _ (.inl hlow)]
          decide
        rw [hzero, Int.cast_zero, zero_sub, abs_neg, abs_of_nonpos (by linarith)] at hI
        norm_num at hI hlow
        exact .inr ⟨rfl, by linarith, by linarith⟩
      · have hQ2 : (2 : ℚ) ≤ 2 ^ k := by
          calc (2 : ℚ) = 2 ^ 1 := by norm_num
            _ ≤ 2 ^ k := pow_le_pow_right₀ (by norm_num) hk0
        have hS2 : (2 : ℚ) ^ (32 - (k + 1)) ≤ 2 ^ 31 :=
          pow_le_pow_right₀ (by norm_num) (by omega)
        rw [abs_of_nonneg (by linarith)] at hI
        nlinarith
    · exact .inl ⟨hlow, hhigh⟩
  · rintro (⟨hlo, hhi⟩ | ⟨hone, hlo, hhi⟩) I
    · have hnear := abs_lt.1 (toInt_near I hlo hhi)
      obtain ⟨hle, hlt⟩ := signedBack_near I (k + 1) y
      have hle' : (signedBack I (k + 1) y : ℚ) ≤ (BitVec.ofInt 32 (I.toInt y)).toInt := by
        exact_mod_cast hle
      have hlt' : ((BitVec.ofInt 32 (I.toInt y)).toInt : ℚ) + 1
          ≤ signedBack I (k + 1) y + 2 ^ (32 - (k + 1)) := by exact_mod_cast hlt
      have habs : |(signedBack I (k + 1) y : ℚ) - y| ≤ 2 ^ (32 - (k + 1)) := by
        rw [abs_le]
        constructor <;> linarith
      have hmul := mul_le_mul_of_nonneg_right habs (by linarith : (0 : ℚ) ≤ 2 ^ k)
      linarith
    · obtain rfl : k = 0 := by omega
      have hcases : signedBack I (0 + 1) y = 0 ∨ signedBack I (0 + 1) y = -2 ^ 31 := by
        have h1 := BitVec.le_toInt (BitVec.ofInt 32 (I.toInt y))
        have h2 := BitVec.toInt_lt (x := BitVec.ofInt 32 (I.toInt y))
        rw [signedBack]
        norm_num at h1 h2 ⊢
        omega
      rw [pow_zero, mul_one]
      rcases hcases with hm | hm <;> rw [hm, abs_le] <;> push_cast <;> constructor <;> linarith

end Scaling

/-- **The scaling round trip.** A number within its limits comes back within two steps of its field,
exactly if it fits: an unsigned one a field that is shorter than 32 bits, a signed one an `int`. -/
theorem roundTrip_iff (conf : Conf) (val maxlim minlim fullscale : ℚ)
    (htype : conf.dataType = .unsigned ∨ conf.dataType = .signed) (hlen : conf.dataLength ≤ 32)
    (hfs : 0 < fullscale) (hmin : minlim ≤ val) (hmax : val ≤ maxlim) :
    RoundTrip conf val maxlim minlim fullscale ↔
      (conf.dataType = .unsigned → conf.dataLength < 32 ∧
        FitsUnsigned conf.dataLength (val / fullscale * (2 ^ conf.dataLength - 1))) ∧
      (conf.dataType = .signed →
        FitsSigned conf.dataLength (val / fullscale * 2147483647)) := by
  rcases htype with htype | htype
  · rw [roundTrip_unsigned htype hfs hmin hmax hlen, htype]
    simp
  · rw [roundTrip_signed htype hfs hmin hmax hlen, htype]
    simp

/-- A field of 16 bits. -/
theorem roundTrip_iff_short :
    RoundTrip ⟨16, .unsigned, DataDir.lbpIO, by decide, by decide⟩ (1 / 2) 1 0 1 := by
  refine (roundTrip_iff _ _ _ _ _ (.inl rfl) (by decide) one_pos (by norm_num)
    (by norm_num)).2 ⟨fun _ => ⟨by decide, .inl ⟨?_, ?_⟩⟩, fun h => by cases h⟩ <;> norm_num

/-- A field of 32 bits: the divisor is `(1 << 32) - 1`. -/
theorem roundTrip_long : ¬ ∀ (conf : Conf) (val maxlim minlim fullscale : ℚ),
    conf.dataType = .unsigned ∨ conf.dataType = .signed → conf.dataLength ≤ 32 →
    0 < fullscale → minlim ≤ val → val ≤ maxlim → RoundTrip conf val maxlim minlim fullscale := by
  intro h
  have hback := h ⟨32, .unsigned, DataDir.lbpIO, by decide, by decide⟩
    1 1 0 1 (.inl rfl) (by decide)
    one_pos zero_le_one le_rfl
  have hshort := ((roundTrip_unsigned rfl one_pos zero_le_one le_rfl (by decide)).1 hback).1
  exact absurd hshort (by decide)

end MachinekitHal.Sserial
