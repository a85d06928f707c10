import MachinekitHal.Hostmot2.SserialRead

/-!
The index of an encoder that is read by `hm2_sserial_read_pins`.

* `boundary`: the multiple of the counts per revolution that a move crosses.
* `IndexLaw`: a move that crosses one latches it and clears index-enable, any other does nothing.
* `Misindexed`: the moves at negative positions that the remainders of C take for others.
* `indexLaw_iff`: the law holds for the other moves, and for no one of these.
-/

namespace MachinekitHal.Sserial

open Word

/-- The boundary between the intervals of two positions, if these are next to each other. -/
def boundary (ppr previous accum : ℤ) : Option ℤ :=
  if accum / ppr = previous / ppr + 1 then some (accum / ppr * ppr)
  else if accum / ppr = previous / ppr - 1 then some (previous / ppr * ppr)
  else none

/-- Offset and index-enable behind a move. -/
def latched (ppr previous accum offset : ℤ) : ℤ × Bool :=
  match boundary ppr previous accum with
  | some b => (b, false)
  | none => (offset, true)

/-- The index is latched on its boundary, and only there. -/
def IndexLaw {F : Type} (pin pin' : InPins F) : Prop :=
  (pin'.offset, pin'.boolean)
    = latched pin.u32Param.toNat pin.accum pin'.accum pin.offset

/-- A move up to a negative position, from or over a multiple, or down to a negative multiple. -/
def Misindexed (ppr previous accum : ℤ) : Prop :=
  accum < 0 ∧ ((∃ k : ℤ, previous ≤ k * ppr ∧ k * ppr < accum) ∨ (accum < previous ∧ ppr ∣ accum))

section Index

variable {F : Type} {A : ReadArith F} {pin : InPins F} {ppr : BitVec 32}
  {n p a q r s offset : ℤ}

/-- The remainder has the sign of the position. -/
lemma divRem_eq (hlt : ppr.toNat < 2 ^ 31) (x : ℤ) :
    divRem x ppr = if 0 ≤ x ∨ x % ppr.toNat = 0 then x % ppr.toNat
      else x % ppr.toNat - ppr.toNat := by
  have hppr : ppr.toInt = ppr.toNat := BitVec.toInt_eq_toNat_of_lt (by omega)
  rw [divRem, hppr, Int.tmod_eq_emod, Int.natAbs_natCast]
  simp only [Int.dvd_iff_emod_eq_zero]
  split_ifs <;> simp

/-- Remainders of one sign do not overflow. -/
lemma indexed_iff (hlt : ppr.toNat < 2 ^ 31) (hr : |r| < ppr.toNat) (hs : |s| < ppr.toNat) :
    indexed ppr r s ↔ ppr.toNat / 2 < (r - s).natAbs ∨ (0 ≤ r ∧ s < 0) ∨ (r < 0 ∧ 0 ≤ s) := by
  rw [abs_lt] at hr hs
  rw [indexed]
  by_cases hsign : (0 ≤ r ∧ s < 0) ∨ (r < 0 ∧ 0 ≤ s)
  · simp only [hsign, or_true]
  · rw [wrapInt_eq (by omega) (by omega)]

/-- What index-enable and the offset become. -/
lemma index_latch (previous : ℤ) (henable : pin.boolean = true) (hppr : 0 < pin.u32Param.toNat) :
    ((pin.index previous).offset, (pin.index previous).boolean)
      = if indexed pin.u32Param (divRem previous pin.u32Param)
            (divRem pin.accum pin.u32Param) then
          (indexOffset pin.u32Param previous pin.accum (divRem pin.accum pin.u32Param), false)
        else (pin.offset, true) := by
  rw [InPins.index]
  dsimp only
  rw [if_pos ⟨henable, hppr⟩]
  split_ifs
  · rfl
  · rw [henable]

/-- Positions in intervals that are not farther apart than the next ones. -/
lemma quotient_next (hn : 0 < n) (hmove : |a - p| < n) :
    a / n = p / n ∨ a / n = p / n + 1 ∨ a / n = p / n - 1 := by
  have ha := Int.mul_ediv_add_emod a n
  have hp := Int.mul_ediv_add_emod p n
  have ha0 := Int.emod_nonneg a hn.ne'
  have hp0 := Int.emod_nonneg p hn.ne'
  have halt := Int.emod_lt_of_pos a hn
  have hplt := Int.emod_lt_of_pos p hn
  rw [abs_lt] at hmove
  have hup : a / n < p / n + 2 := by
    by_contra hge
    have hmul : n * (p / n + 2) ≤ n * (a / n) := mul_le_mul_of_nonneg_left (by omega) hn.le
    rw [mul_add] at hmul
    omega
  have hdown : p / n < a / n + 2 := by
    by_contra hge
    have hmul : n * (a / n + 2) ≤ n * (p / n) := mul_le_mul_of_nonneg_left (by omega) hn.le
    rw [mul_add] at hmul
    omega
  omega

/-- There is a multiple from `p` on and below `a`. -/
lemma exists_multiple (hn : 0 < n) : (∃ k : ℤ, p ≤ k * n ∧ k * n < a) ↔
    (p % n = 0 ∧ p < a) ∨ (p / n + 1) * n < a := by
  have hp := Int.mul_ediv_add_emod p n
  have hp0 := Int.emod_nonneg p hn.ne'
  have hplt := Int.emod_lt_of_pos p hn
  constructor
  · rintro ⟨k, hle, hlt⟩
    rcases le_or_gt k (p / n) with hk | hk
    · have hmul : k * n ≤ p / n * n := mul_le_mul_of_nonneg_right hk hn.le
      rw [mul_comm (p / n)] at hmul
      exact .inl ⟨by omega, by omega⟩
    · have hmul : (p / n + 1) * n ≤ k * n := mul_le_mul_of_nonneg_right hk hn.le
      exact .inr (by omega)
  · rintro (⟨hzero, hlt⟩ | hlt)
    · refine ⟨p / n, ?_, ?_⟩ <;> rw [mul_comm] <;> omega
    · refine ⟨p / n + 1, ?_, hlt⟩
      rw [add_mul, one_mul, mul_comm]
      omega

/-- The multiple below a position and the remainder, by the sign of the position. -/
lemma divRem_cases (hppr : 0 < ppr.toNat) (hlt : ppr.toNat < 2 ^ 31) (x : ℤ) :
    (0 ≤ x ∧ 0 ≤ (ppr.toNat : ℤ) * (x / ppr.toNat) ∧ divRem x ppr = x % ppr.toNat) ∨
      (x < 0 ∧ (ppr.toNat : ℤ) * (x / ppr.toNat) ≤ -ppr.toNat ∧ x % ppr.toNat = 0 ∧
        divRem x ppr = 0) ∨
      (x < 0 ∧ (ppr.toNat : ℤ) * (x / ppr.toNat) ≤ -ppr.toNat ∧ 0 < x % ppr.toNat ∧
        divRem x ppr = x % ppr.toNat - ppr.toNat) := by
  have hn : (0 : ℤ) < ppr.toNat := by omega
  have hrem := Int.emod_nonneg x hn.ne'
  rw [divRem_eq hlt]
  rcases le_or_gt 0 x with hx | hx
  · exact .inl ⟨hx, mul_nonneg hn.le (Int.ediv_nonneg hx hn.le), if_pos (.inl hx)⟩
  · have hmul : (ppr.toNat : ℤ) * (x / ppr.toNat) ≤ ppr.toNat * (-1) :=
      mul_le_mul_of_nonneg_left (by have := Int.ediv_neg_of_neg_of_pos hx hn; omega) hn.le
    rw [mul_neg_one] at hmul
    rcases hrem.eq_or_lt with hzero | hpos
    · exact .inr (.inl ⟨hx, hmul, hzero.symm, by rw [if_pos (.inr hzero.symm), ← hzero]⟩)
    · exact .inr (.inr ⟨hx, hmul, hpos, if_neg (by omega)⟩)

/-- A remainder is smaller than the divisor. -/
lemma abs_divRem_lt (hppr : 0 < ppr.toNat) (hlt : ppr.toNat < 2 ^ 31) (x : ℤ) :
    |divRem x ppr| < ppr.toNat := by
  have hlow := Int.emod_nonneg x (by omega : (ppr.toNat : ℤ) ≠ 0)
  have hhigh := Int.emod_lt_of_pos x (by omega : (0 : ℤ) < ppr.toNat)
  rw [divRem_eq hlt, abs_lt]
  split_ifs <;> omega

/-- The position of the index, by the direction of the move. -/
lemma indexOffset_cases (s : ℤ) :
    (a = 0 ∧ indexOffset ppr p a s = 0) ∨
      (a ≠ 0 ∧ (p < a ∨ a < 0) ∧ indexOffset ppr p a s = a - s) ∨
      (0 < a ∧ a ≤ p ∧ indexOffset ppr p a s = wrapLong (a - s + ppr.toNat)) := by
  rw [indexOffset]
  split_ifs <;> omega

/-- The offsets by the code and by the law. -/
lemma latched_iff (hppr : 0 < ppr.toNat) (hlt : ppr.toNat < 2 ^ 31)
    (hp : -2 ^ 63 ≤ p ∧ p < 2 ^ 63) (hmove : 2 * |a - p| < ppr.toNat) :
    (if indexed ppr (divRem p ppr) (divRem a ppr) then
        (indexOffset ppr p a (divRem a ppr), false) else (offset, true))
      = latched ppr.toNat p a offset ↔ ¬ Misindexed ppr.toNat p a := by
  have hn : (0 : ℤ) < ppr.toNat := by omega
  have hmove' : -(ppr.toNat : ℤ) < 2 * (a - p) ∧ 2 * (a - p) < ppr.toNat := by
    rcases abs_cases (a - p) with h | h <;> omega
  have hidx := indexed_iff hlt (abs_divRem_lt hppr hlt p) (abs_divRem_lt hppr hlt a)
  have hnext := quotient_next hn (by rw [abs_lt]; omega : |a - p| < ppr.toNat)
  have hoff := @indexOffset_cases ppr p a (divRem a ppr)
  have hmul' : (p / ppr.toNat + 1 : ℤ) * ppr.toNat = ppr.toNat * (p / ppr.toNat) + ppr.toNat := by
    ring
  rw [Misindexed, exists_multiple hn, latched, boundary, Int.dvd_iff_emod_eq_zero, hmul',
    mul_comm (a / _) _, mul_comm (p / _) _]
  generalize indexOffset ppr p a (divRem a ppr) = off at hoff ⊢
  clear hmove hmul'
  have hpq := Int.mul_ediv_add_emod p ppr.toNat
  have haq := Int.mul_ediv_add_emod a ppr.toNat
  have hp0 := Int.emod_nonneg p hn.ne'
  have ha0 := Int.emod_nonneg a hn.ne'
  have hpl := Int.emod_lt_of_pos p hn
  have hal := Int.emod_lt_of_pos a hn
  have hrp := divRem_cases hppr hlt p
  have hra := divRem_cases hppr hlt a
  rcases hnext with hq | hq | hq
  · -- the interval is not left
    have hM : (ppr.toNat : ℤ) * (a / ppr.toNat) = ppr.toNat * (p / ppr.toNat) := by rw [hq]
    have hup : ¬ a / (ppr.toNat : ℤ) = p / ppr.toNat + 1 := by
      rw [hq]
      exact (lt_add_one _).ne
    have hdown : ¬ a / (ppr.toNat : ℤ) = p / ppr.toNat - 1 := by
      rw [hq]
      exact (sub_one_lt _).ne'
    rw [if_neg hup, if_neg hdown]
    rw [hM] at haq hra
    clear hp hppr hlt hoff hq hM hup hdown
    generalize (ppr.toNat : ℤ) * (p / ppr.toNat) = m at *
    by_cases hi : indexed ppr (divRem p ppr) (divRem a ppr)
    · have hi' := hidx.1 hi
      rw [if_pos hi]
      simp only [Prod.mk.injEq, Bool.false_eq_true, and_false, false_iff, not_not]
      -- one of the positions is the negative multiple, the other above it
      clear hidx hi
      rcases hrp with ⟨hp, hm, hr⟩ | ⟨hp, hm, hz, hr⟩ | ⟨hp, hm, hz, hr⟩ <;>
        rcases hra with ⟨ha, hm', hr'⟩ | ⟨ha, hm', hz', hr'⟩ | ⟨ha, hm', hz', hr'⟩ <;>
        rw [hr, hr'] at hi' <;> clear hr hr' <;> omega
    · have hi' := (not_congr hidx).1 hi
      rw [if_neg hi]
      simp only [true_iff]
      clear hidx hi
      rcases hrp with ⟨hp, hm, hr⟩ | ⟨hp, hm, hz, hr⟩ | ⟨hp, hm, hz, hr⟩ <;>
        rcases hra with ⟨ha, hm', hr'⟩ | ⟨ha, hm', hz', hr'⟩ | ⟨ha, hm', hz', hr'⟩ <;>
        rw [hr, hr'] at hi' <;> clear hr hr' <;> omega
  · -- forward into the next one
    have hM : (ppr.toNat : ℤ) * (a / ppr.toNat) = ppr.toNat * (p / ppr.toNat) + ppr.toNat := by
      rw [hq]
      ring
    rw [if_pos hq]
    rw [hM] at haq hra ⊢
    clear hp hppr hlt hq hM
    generalize (ppr.toNat : ℤ) * (p / ppr.toNat) = m at *
    have hi : indexed ppr (divRem p ppr) (divRem a ppr) := by
      refine hidx.2 ?_
      clear hidx hoff
      rcases hrp with ⟨hp, hm, hr⟩ | ⟨hp, hm, hz, hr⟩ | ⟨hp, hm, hz, hr⟩ <;>
        rcases hra with ⟨ha, hm', hr'⟩ | ⟨ha, hm', hz', hr'⟩ | ⟨ha, hm', hz', hr'⟩ <;>
        rw [hr, hr'] <;> clear hr hr' <;> omega
    rw [if_pos hi]
    simp only [Prod.mk.injEq, and_true]
    clear hidx hi
    rcases hrp with ⟨hp, hm, -⟩ | ⟨hp, hm, hz, -⟩ | ⟨hp, hm, hz, -⟩ <;>
      rcases hra with ⟨ha, hm', hr'⟩ | ⟨ha, hm', hz', hr'⟩ | ⟨ha, hm', hz', hr'⟩ <;>
      rw [hr'] at hoff <;> clear hr' <;> omega
  · -- back into the one before
    have hM : (ppr.toNat : ℤ) * (a / ppr.toNat) = ppr.toNat * (p / ppr.toNat) - ppr.toNat := by
      rw [hq]
      ring
    have hup : ¬ a / (ppr.toNat : ℤ) = p / ppr.toNat + 1 := by
      rw [hq]
      exact ((sub_one_lt _).trans (lt_add_one _)).ne
    rw [if_neg hup, if_pos hq]
    rw [hM] at haq hra
    have hwrap : 0 < a → wrapLong (a - divRem a ppr + ppr.toNat)
        = a - divRem a ppr + ppr.toNat := by
      intro ha
      have hr : divRem a ppr = a % ppr.toNat := by rw [divRem_eq hlt, if_pos (.inl ha.le)]
      rw [hr]
      exact wrapLong_eq (by omega) (by omega)
    clear hp hppr hlt hq hM hup
    generalize (ppr.toNat : ℤ) * (p / ppr.toNat) = m at *
    have hi : indexed ppr (divRem p ppr) (divRem a ppr) := by
      refine hidx.2 ?_
      clear hidx hoff hwrap
      rcases hrp with ⟨hp, hm, hr⟩ | ⟨hp, hm, hz, hr⟩ | ⟨hp, hm, hz, hr⟩ <;>
        rcases hra with ⟨ha, hm', hr'⟩ | ⟨ha, hm', hz', hr'⟩ | ⟨ha, hm', hz', hr'⟩ <;>
        rw [hr, hr'] <;> clear hr hr' <;> omega
    rw [if_pos hi]
    simp only [Prod.mk.injEq, and_true]
    clear hidx hi
    rcases hrp with ⟨hp, hm, -⟩ | ⟨hp, hm, hz, -⟩ | ⟨hp, hm, hz, -⟩ <;>
      rcases hra with ⟨ha, hm', hr'⟩ | ⟨ha, hm', hz', hr'⟩ | ⟨ha, hm', hz', hr'⟩ <;>
      rw [hr'] at hoff hwrap <;> clear hr' <;> omega

/-- The law for a counted field. -/
lemma indexLaw_count (bitlength : ℕ) (buff : BitVec 64) (henable : pin.boolean = true)
    (hreset : pin.boolean2 = false) (hppr : 0 < pin.u32Param.toNat)
    (hlt : pin.u32Param.toNat < 2 ^ 31) (hs64 : -2 ^ 63 ≤ pin.accum ∧ pin.accum < 2 ^ 63)
    (hmove : 2 * |(pin.count A bitlength buff).accum - pin.accum| < pin.u32Param.toNat) :
    IndexLaw pin (pin.count A bitlength buff) ↔
      ¬ Misindexed pin.u32Param.toNat pin.accum (pin.count A bitlength buff).accum := by
  have hlatch := @index_latch F
    (pin.accumulate A bitlength (signExtend A bitlength (pin.decoded buff))) pin.accum henable hppr
  have hcount : ((pin.count A bitlength buff).offset, (pin.count A bitlength buff).boolean)
      = (((pin.accumulate A bitlength
            (signExtend A bitlength (pin.decoded buff))).index pin.accum).offset,
          ((pin.accumulate A bitlength
            (signExtend A bitlength (pin.decoded buff))).index pin.accum).boolean) := by
    simp only [InPins.count, InPins.publish]
    rw [if_neg (by simp [InPins.accumulate, hreset])]
  rw [InPins.count_accum] at hmove
  rw [IndexLaw, hcount, hlatch, InPins.count_accum]
  exact latched_iff hppr hlt hs64 hmove

/-- A field that is not counted stays. -/
lemma indexLaw_same (henable : pin.boolean = true) :
    IndexLaw pin pin ↔ ¬ Misindexed pin.u32Param.toNat pin.accum pin.accum := by
  refine iff_of_true ?_ ?_
  · rw [IndexLaw, latched, boundary, if_neg (by omega), if_neg (by omega), henable]
  · rintro ⟨-, ⟨k, hle, hlt⟩ | ⟨hlt, -⟩⟩ <;> omega

/-- **The index.** For a field of an encoder that is read with index-enable set and reset clear,
and two positions that are less than half a revolution apart: the law of the index holds, exactly
if the move is not one of those to a negative position that `Misindexed` names. The counts per
revolution are below `2^31`, as the divisor is signed. -/
theorem indexLaw_iff (A : ReadArith F) (regCsRead : BitVec 32) (regs : ReadRegs) (s s' : Statics)
    (chan chan' : InRemote F) (i : ℕ) (conf conf' : Conf) (pin pin' : InPins F)
    (hread : hm2SserialReadPins A regCsRead regs s chan = some (s', chan'))
    (hfield : chan.confs[i]? = some (conf, pin)) (hfield' : chan'.confs[i]? = some (conf', pin'))
    (hinput : conf.input = true)
    (htype : conf.dataType = .encoder ∨ conf.dataType = .encoderH)
    (henable : pin.boolean = true) (hreset : pin.boolean2 = false)
    (hppr : 0 < pin.u32Param.toNat) (hlt : pin.u32Param.toNat < 2 ^ 31)
    (hs64 : -2 ^ 63 ≤ pin.accum ∧ pin.accum < 2 ^ 63)
    (hmove : 2 * |pin'.accum - pin.accum| < pin.u32Param.toNat) :
    IndexLaw pin pin' ↔ ¬ Misindexed pin.u32Param.toNat pin.accum pin'.accum := by
  obtain ⟨⟨s2, confs⟩, hconfs, h⟩ := Option.bind_eq_some_iff.1 hread
  cases h
  obtain ⟨s1, s3, buff, hconf⟩ := readConfs_getElem hinput hconfs hfield hfield'
  rcases htype with htype | htype
  · rw [readConf_encoder htype] at hconf
    cases hconf
    exact indexLaw_count _ _ henable hreset hppr hlt hs64 hmove
  · rw [readConf_high htype] at hconf
    split_ifs at hconf
    · cases hconf
      exact indexLaw_count _ _ henable hreset hppr hlt hs64 hmove
    · cases hconf
      exact indexLaw_same henable

end Index

/-! ### Moves of a counter -/

/-- A counter of 100 counts per revolution at a position, with index-enable set. -/
def counterAt (accum : ℤ) : InPins ℚ :=
  { InPins.start 0 1 with boolean := true, u32Param := 100, oldval := accum, accum := accum }

/-- A field of 16 bits. -/
def counterConf : Conf := ⟨16, .encoder, .lbpIn, by decide, by decide⟩

/-- The counter is read at another position. -/
def counterRead (accum accum' : ℤ) : InPins ℚ :=
  (counterAt accum).count (.exact (fun _ => 0) (fun _ _ => 0) 0) 16
    (getbits ⟨some ((BitVec.ofInt 16 accum').setWidth 32), none, none⟩ 0 16)

/-- Forward over 300. -/
theorem indexLaw_iff_forward : IndexLaw (counterAt 290) (counterRead 290 310) :=
  (indexLaw_iff (.exact (fun _ => 0) (fun _ _ => 0) 0) 0
    ⟨some ((BitVec.ofInt 16 310).setWidth 32), none, none⟩ Statics.start Statics.start
    ⟨0, [(counterConf, counterAt 290)]⟩ ⟨0, [(counterConf, counterRead 290 310)]⟩ 0
    counterConf counterConf (counterAt 290) (counterRead 290 310) rfl rfl rfl rfl (.inl rfl) rfl rfl
    (by decide) (by decide) (by decide) (by decide)).2 fun h => absurd h.1 (by decide)

/-- Forward over -300: the offset becomes -200. -/
theorem indexLaw_negative : ¬ ∀ (F : Type) (A : ReadArith F) (regCsRead : BitVec 32)
    (regs : ReadRegs) (s s' : Statics) (chan chan' : InRemote F) (i : ℕ) (conf conf' : Conf)
    (pin pin' : InPins F), hm2SserialReadPins A regCsRead regs s chan = some (s', chan') →
    chan.confs[i]? = some (conf, pin) → chan'.confs[i]? = some (conf', pin') →
    conf.input = true → conf.dataType = .encoder ∨ conf.dataType = .encoderH →
    pin.boolean = true → pin.boolean2 = false → 0 < pin.u32Param.toNat →
    -2 ^ 63 ≤ pin.accum ∧ pin.accum < 2 ^ 63 →
    2 * |pin'.accum - pin.accum| < pin.u32Param.toNat → IndexLaw pin pin' := by
  intro h
  have hlaw := h ℚ (.exact (fun _ => 0) (fun _ _ => 0) 0) 0
    ⟨some ((BitVec.ofInt 16 (-290)).setWidth 32), none, none⟩ Statics.start Statics.start
    ⟨0, [(counterConf, counterAt (-310))]⟩ ⟨0, [(counterConf, counterRead (-310) (-290))]⟩ 0
    counterConf counterConf (counterAt (-310)) (counterRead (-310) (-290)) rfl rfl rfl rfl
    (.inl rfl) rfl rfl (by decide) (by decide) (by decide)
  have hoffset := congrArg Prod.fst hlaw
  exact absurd hoffset (by decide)

end MachinekitHal.Sserial
