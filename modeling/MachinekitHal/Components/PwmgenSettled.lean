import MachinekitHal.Components.Pwmgenv2
import MachinekitHal.Lib.Runs

/-!
What `update` of `pwmgen.c` computes once its pins do not change any more.

* `PwmPins.limited`, `PwmPins.periodCount`, `PwmPins.periodFor`, `PwmPins.shownFreq`: the limits,
  the rounded period and the corrected frequency for pins.
* `settled`: the parameters and the duty cycle for pins.
* `PwmPins.Plain`: no scale or frequency that has to be replaced.
* `Pwmgen.Kept`: what holds in every run; what is remembered fits the period and the scale.
* `Pwmgen.settles`: two calls with plain pins.
-/

namespace MachinekitHal

open Casts Runs

/-! ### Numbers -/

lemma Pwmgen.toLong_of_nonneg {x : ℚ} (h : 0 ≤ x) : Pwmgen.toLong x = ⌊x⌋ := if_pos h

@[simp] lemma Pwmgen.toLong_intCast (n : ℤ) : Pwmgen.toLong n = n := by
  rw [toLong, Int.floor_intCast, Int.ceil_intCast, ite_self]

lemma checkedDiv_of_ne {a b : ℚ} (h : b ≠ 0) : checkedDiv a b = some (a / b) := if_neg h

lemma checkedDiv_eq_some {a b c : ℚ} : checkedDiv a b = some c ↔ b ≠ 0 ∧ c = a / b := by
  rw [checkedDiv]
  split_ifs with h
  · simp [h]
  · simp [h, eq_comm]

/-- The limits after they have been validated. -/
lemma limitDc_spec (a b : ℚ) :
    0 ≤ (limitDc a b).1 ∧ (limitDc a b).1 ≤ (limitDc a b).2 ∧ (limitDc a b).2 ≤ 1 := by
  simp only [limitDc]
  split_ifs <;> refine ⟨?_, ?_, ?_⟩ <;> linarith

lemma limitDc_of_valid {a b : ℚ} (h0 : 0 ≤ a) (hab : a ≤ b) (h1 : b ≤ 1) :
    limitDc a b = (a, b) := by
  rw [limitDc, if_neg (not_lt.2 h1)]
  simp only [if_neg (not_lt.2 hab), if_neg (not_lt.2 h0)]

namespace PwmPins

/-- The pins with valid duty cycle limits. -/
def limited (q : PwmPins) : PwmPins :=
  { q with minDc := (limitDc q.minDc q.maxDc).1
           maxDc := (limitDc q.minDc q.maxDc).2 }

/-- The limits are valid. -/
structure Limited (q : PwmPins) : Prop where
  zero_le : 0 ≤ q.minDc
  le : q.minDc ≤ q.maxDc
  le_one : q.maxDc ≤ 1

lemma limited_limited (q : PwmPins) : q.limited.Limited :=
  ⟨(limitDc_spec _ _).1, (limitDc_spec _ _).2.1, (limitDc_spec _ _).2.2⟩

lemma Limited.limited_eq {q : PwmPins} (h : q.Limited) : q.limited = q := by
  rw [limited, limitDc_of_valid h.zero_le h.le h.le_one]

/-- The duty cycle without its sign. -/
def outDuty (outputType : ℕ) (scaleRecip : ℚ) (q : PwmPins) : ℚ :=
  if pwmDirection outputType scaleRecip q then -pwmDuty outputType scaleRecip q
  else pwmDuty outputType scaleRecip q

lemma Limited.outDuty {q : PwmPins} (h : q.Limited) (outputType : ℕ) (scaleRecip : ℚ) :
    0 ≤ q.outDuty outputType scaleRecip ∧ q.outDuty outputType scaleRecip ≤ 1 := by
  obtain ⟨h0, hle, h1⟩ := h
  simp only [PwmPins.outDuty, pwmDirection, pwmDuty, decide_eq_true_eq]
  split_ifs <;> constructor <;> grind

/-! ### What the pins ask for -/

section Period

variable (T : ℤ) (q : PwmPins)

/-- The number of base periods in a PWM cycle, rounded. -/
def periodCount : ℤ := ⌊1e9 / q.pwmFreq / T + 1 / 2⌋

/-- The length of the PWM period. -/
def periodFor : ℤ :=
  if q.pwmFreq = 0 then T
  else if q.mode = .pure then q.periodCount T * T
  else ⌊1e9 / q.pwmFreq⌋

/-- The frequency after rounding. -/
def shownFreq : ℚ :=
  if q.mode = .pure then 1e9 / (q.periodCount T * T : ℤ) else q.pwmFreq

/-- Nothing has to be replaced, and the period fits 32 bits. -/
structure Plain : Prop where
  scale : ¬ (q.scale < 1e-20 ∧ -1e-20 < q.scale)
  freq : q.pwmFreq = 0 ∨ (0.5 ≤ q.pwmFreq ∧ q.pwmFreq ≤ 1e9 / 2 / T)
  fits : q.mode = .pure → q.periodCount T * T < 2 ^ 31

end Period

section Plain

variable {T : ℤ} {q : PwmPins}

/-- Disabled is what `enable` says. -/
lemma mode_eq_disabled : q.mode = .disabled ↔ q.enable = false := by
  rw [mode]
  split_ifs with h <;> simp [h]

/-- The pure mode has a frequency. -/
lemma freq_ne_zero_of_pure (h : q.mode = .pure) : q.pwmFreq ≠ 0 := by
  intro h0
  rw [mode] at h
  split_ifs at h

/-- Another frequency that is not 0 either asks for the same mode. -/
lemma mode_of_freq {f : ℚ} (h : q.pwmFreq ≠ 0) (hf : f ≠ 0) :
    ({ q with pwmFreq := f } : PwmPins).mode = q.mode := by
  simp only [mode, if_neg h, if_neg hf]

lemma Plain.validScale_eq (h : q.Plain T) : validScale q.scale = q.scale := if_neg h.scale

lemma Plain.scale_ne_zero (h : q.Plain T) : q.scale ≠ 0 := by
  intro h0
  exact h.scale (by rw [h0]; constructor <;> norm_num)

/-- A frequency that is not 0 is positive, and its period has at least two base periods. -/
lemma Plain.length (h : q.Plain T) (hT : 0 < T) (h0 : q.pwmFreq ≠ 0) :
    0 < q.pwmFreq ∧ 2 * (T : ℚ) ≤ 1e9 / q.pwmFreq ∧ 1e9 / q.pwmFreq ≤ 2e9 := by
  obtain ⟨hlo, hhi⟩ := h.freq.resolve_left h0
  have hT' : (0 : ℚ) < T := Int.cast_pos.2 hT
  have hpos : 0 < q.pwmFreq := by linarith
  refine ⟨hpos, ?_, ?_⟩
  · rw [le_div_iff₀ hpos]
    rw [le_div_iff₀ hT'] at hhi
    linarith
  · rw [div_le_iff₀ hpos]
    linarith

/-- It has so many base periods. -/
lemma Plain.periodCount (h : q.Plain T) (hT : 0 < T) (h0 : q.pwmFreq ≠ 0) :
    2 ≤ q.periodCount T ∧ 0 ≤ 1e9 / q.pwmFreq / T + (0.5 : ℚ) ∧
      1e9 / q.pwmFreq / T + (0.5 : ℚ) < 2 ^ 31 := by
  obtain ⟨hpos, hlo, hhi⟩ := h.length hT h0
  have hT' : (1 : ℚ) ≤ T := by exact_mod_cast hT
  have hcount : 2 ≤ 1e9 / q.pwmFreq / (T : ℚ) := by
    rw [le_div_iff₀ (by linarith)]
    exact hlo
  have hcount' : 1e9 / q.pwmFreq / (T : ℚ) ≤ 2e9 := by
    rw [div_le_iff₀ (by linarith)]
    nlinarith
  refine ⟨Int.le_floor.2 ?_, ?_, ?_⟩
  · push_cast
    linarith
  · linarith
  · linarith

/-- With the rounded frequency the mode stays. -/
lemma Plain.mode_shownFreq (h : q.Plain T) (hT : 0 < T) :
    ({ q with pwmFreq := q.shownFreq T } : PwmPins).mode = q.mode := by
  rw [shownFreq]
  by_cases hp : q.mode = .pure
  · have h0 := freq_ne_zero_of_pure hp
    obtain ⟨hcount, -, -⟩ := h.periodCount hT h0
    rw [if_pos hp]
    refine mode_of_freq h0 (div_ne_zero (by norm_num) ?_)
    exact Int.cast_ne_zero.2 (mul_ne_zero (by omega) hT.ne')
  · rw [if_neg hp]

/-- The rounded frequency asks for the same number. -/
lemma periodCount_of_rounded {P : ℤ} (hT : T ≠ 0) (hP : P ≠ 0)
    (h : q.pwmFreq = 1e9 / (P * T : ℤ)) : q.periodCount T = P := by
  have hT' : (T : ℚ) ≠ 0 := Int.cast_ne_zero.2 hT
  have hP' : (P : ℚ) ≠ 0 := Int.cast_ne_zero.2 hP
  have hquot : 1e9 / q.pwmFreq / (T : ℚ) = P := by
    rw [h]
    push_cast
    field_simp
  rw [PwmPins.periodCount, hquot, Int.floor_eq_iff]
  constructor <;> linarith

end Plain

end PwmPins

section Settled

variable (cv : IntConversion) (outputType : ℕ) (T : ℤ)

/-- A channel that has computed everything for the pins `q`. -/
def settled (q : PwmPins) : Pwmgen :=
  ({ Pwmgen.init with
      pins := q
      scaleRecip := 1 / q.scale
      periods := ⟨q.periodCount T, 1 / q.periodCount T⟩
      params := ⟨q.periodFor T, 0, q.mode, false⟩ } : Pwmgen).updateDuty cv outputType T q.mode

end Settled

namespace Pwmgen

/-! ### One call -/

section Call

variable {cv : IntConversion} {outputType : ℕ} {T : ℤ} {g g' k h : Pwmgen} {mode : PwmMode}

/-- The period calcs are done. -/
def Stale (T : ℤ) (k : Pwmgen) : Prop :=
  (if k.pins.pwmFreq ≠ k.oldPwmFreq then .disabled else k.params.mode) ≠ k.pins.mode ∨
    T ≠ k.oldPeriodns
  deriving Decidable

/-- The state after the duty calcs. -/
def finish (cv : IntConversion) (outputType : ℕ) (T : ℤ) (mode : PwmMode) (h : Pwmgen) : Pwmgen :=
  let h := h.updateDuty cv outputType T mode
  { h with params := { h.params with mode }, oldPeriodns := T }

lemma update_eq : g.update cv outputType T = g.updateLimits.updateScale.bind fun k =>
    (if k.Stale T then k.calcPeriod cv T k.pins.mode else some k).map
      (finish cv outputType T k.pins.mode) := by
  refine congrArg (Option.bind _) (funext fun k => ?_)
  by_cases hs : k.Stale T
  · rw [if_pos hs]
    exact (if_pos hs).trans (Option.map_eq_bind ..).symm
  · rw [if_neg hs]
    exact if_neg hs

lemma update_eq_some : g.update cv outputType T = some g' ↔
    ∃ k h, g.updateLimits.updateScale = some k ∧
      (if k.Stale T then k.calcPeriod cv T k.pins.mode else some k) = some h ∧
      h.finish cv outputType T k.pins.mode = g' := by
  simp only [update_eq, Option.bind_eq_some_iff, Option.map_eq_some_iff, exists_and_left]

/-- The scale calcs keep the reciprocal, or compute it. -/
lemma updateScale_eq_some (hk : g.updateScale = some k) :
    (g.pins.scale = g.oldScale ∧ k = g) ∨
      k = { g with oldScale := g.pins.scale
                   pins := { g.pins with scale := validScale g.pins.scale }
                   scaleRecip := 1 / validScale g.pins.scale } := by
  rw [updateScale] at hk
  split_ifs at hk with h
  · obtain ⟨r, hr, hk⟩ := Option.bind_eq_some_iff.1 hk
    obtain ⟨-, rfl⟩ := checkedDiv_eq_some.1 hr
    exact .inr (Option.some_inj.1 hk).symm
  · exact .inl ⟨not_not.1 h, (Option.some_inj.1 hk).symm⟩

/-- The period that goes with the frequency that has been remembered. -/
structure Remembers (T : ℤ) (mode : PwmMode) (g : Pwmgen) : Prop where
  zero : g.oldPwmFreq = 0 → g.params.period = T
  length : g.oldPwmFreq ≠ 0 → g.params.period = toLong (1e9 / g.oldPwmFreq)
  pure : g.oldPwmFreq ≠ 0 → mode = .pure → ∃ P : ℤ, P ≠ 0 ∧ g.periods = ⟨P, 1 / P⟩ ∧
    g.params.period = P * T ∧ g.oldPwmFreq = 1e9 / (P * T : ℤ)

lemma calcPeriod_eq_some (hh : g.calcPeriod cv T mode = some h) :
    h.Remembers T mode ∧ h.oldScale = g.oldScale ∧ h.scaleRecip = g.scaleRecip := by
  rw [calcPeriod] at hh
  by_cases h0 : g.pins.pwmFreq ≤ 0
  · rw [if_pos h0] at hh
    cases hh
    exact ⟨⟨fun _ => rfl, fun hne => absurd rfl hne, fun hne => absurd rfl hne⟩, rfl, rfl⟩
  · rw [if_neg h0] at hh
    obtain ⟨f, -, hh⟩ := Option.bind_eq_some_iff.1 hh
    obtain ⟨l, hl, hh⟩ := Option.bind_eq_some_iff.1 hh
    obtain ⟨hf, rfl⟩ := checkedDiv_eq_some.1 hl
    by_cases hp : mode = .pure
    · rw [if_pos hp] at hh
      obtain ⟨c, -, hh⟩ := Option.bind_eq_some_iff.1 hh
      obtain ⟨r, hr, hh⟩ := Option.bind_eq_some_iff.1 hh
      obtain ⟨f', hf', hh⟩ := Option.bind_eq_some_iff.1 hh
      obtain ⟨hP, rfl⟩ := checkedDiv_eq_some.1 hr
      obtain ⟨hPT, rfl⟩ := checkedDiv_eq_some.1 hf'
      cases hh
      refine ⟨⟨fun h0 => absurd h0 (div_ne_zero (by norm_num) hPT), fun _ => ?_,
        fun _ _ => ⟨_, Int.cast_ne_zero.1 hP, rfl, rfl, rfl⟩⟩, rfl, rfl⟩
      rw [div_div_cancel₀ (by norm_num), toLong_intCast]
    · rw [if_neg hp] at hh
      cases hh
      exact ⟨⟨fun h0 => absurd h0 hf, fun _ => rfl, fun _ hm => absurd hm hp⟩, rfl, rfl⟩

/-! ### Runs -/

/-- What holds in every run: the reciprocal is that of the scale, unless this is the 2 of the
start, and the period goes with the frequency, unless the base period is another one. -/
structure Kept (T : ℤ) (g : Pwmgen) : Prop where
  scale : g.scaleRecip = 1 / validScale g.oldScale ∨ g.oldScale = 2 ∧ g.scaleRecip = 0
  period : g.oldPeriodns = T → g.Remembers T g.params.mode

lemma Kept.init (hT : 0 < T) : Pwmgen.init.Kept T :=
  ⟨.inr ⟨rfl, rfl⟩, fun h => absurd (show (-1 : ℤ) = T from h) (by omega)⟩

/-- A call, with this or another base period. -/
lemma Kept.update {T' : ℤ} (hg : g.Kept T) (hu : g.update cv outputType T' = some g') :
    g'.Kept T := by
  obtain ⟨k, h, hk, hh, rfl⟩ := update_eq_some.1 hu
  have hperiod (hT : g.oldPeriodns = T) := hg.period hT
  have hkept : k.Kept T := by
    rcases updateScale_eq_some hk with ⟨-, rfl⟩ | rfl
    · exact ⟨hg.scale, fun hT => ⟨(hperiod hT).zero, (hperiod hT).length, (hperiod hT).pure⟩⟩
    · exact ⟨.inl rfl, fun hT => ⟨(hperiod hT).zero, (hperiod hT).length, (hperiod hT).pure⟩⟩
  by_cases hs : k.Stale T'
  · rw [if_pos hs] at hh
    obtain ⟨hr, ho, hrecip⟩ := calcPeriod_eq_some hh
    refine ⟨?_, fun hT : T' = T => hT ▸ ⟨hr.zero, hr.length, hr.pure⟩⟩
    show h.scaleRecip = 1 / validScale h.oldScale ∨ h.oldScale = 2 ∧ h.scaleRecip = 0
    rw [ho, hrecip]
    exact hkept.scale
  · rw [if_neg hs] at hh
    cases hh
    refine ⟨hkept.scale, fun hT : T' = T => ?_⟩
    rw [Stale, not_or, not_not, not_not] at hs
    have hr := hkept.period (hs.2.symm.trans hT)
    refine ⟨hr.zero, hr.length, fun h0 hm => hr.pure h0 ?_⟩
    -- a mode other than disabled is the one of the last call
    have hm' : k.pins.mode = .pure := hm
    rw [hm'] at hs
    split_ifs at hs
    · exact hs.1.elim
    · exact hs.1

lemma Kept.step {a : PwmAct} (hg : g.Kept T) (hs : g.step cv outputType a = some g') :
    g'.Kept T := by
  cases a with
  | set q j =>
    cases hs
    exact ⟨hg.scale, fun hT => ⟨(hg.period hT).zero, (hg.period hT).length,
      (hg.period hT).pure⟩⟩
  | update T' => exact hg.update hs

/-! ### Two calls with the same pins -/

/-- The period calcs have been done for the pins `q`. -/
structure Calculated (T : ℤ) (q : PwmPins) (h : Pwmgen) : Prop where
  pins : h.pins = { q with pwmFreq := q.shownFreq T }
  oldPwmFreq : h.oldPwmFreq = q.shownFreq T
  oldScale : h.oldScale = q.scale
  scaleRecip : h.scaleRecip = 1 / q.scale
  period : h.params.period = q.periodFor T
  periods : q.mode = .pure → h.periods = ⟨q.periodCount T, 1 / q.periodCount T⟩

variable {q : PwmPins}

lemma validFreq_of_plain (hq : q.Plain T) (hT : 0 < T) (h0 : q.pwmFreq ≠ 0) :
    validFreq T q.pwmFreq = some q.pwmFreq := by
  obtain ⟨hlo, hhi⟩ := hq.freq.resolve_left h0
  rw [validFreq, if_neg (not_lt.2 hlo), checkedDiv_of_ne (Int.cast_ne_zero.2 hT.ne')]
  exact congrArg some (if_neg (not_lt.2 hhi))

/-- The period calcs for plain pins. -/
lemma calculated_of_plain (hq : k.pins.Plain T) (hT : 0 < T) (hscale : k.oldScale = k.pins.scale)
    (hrecip : k.scaleRecip = 1 / k.pins.scale) :
    ∃ h, k.calcPeriod cv T k.pins.mode = some h ∧ h.Calculated T k.pins := by
  by_cases h0 : k.pins.pwmFreq = 0
  · have hpure : k.pins.mode ≠ .pure := fun hp => PwmPins.freq_ne_zero_of_pure hp h0
    rw [calcPeriod, if_pos h0.le]
    refine ⟨_, rfl, ?_, ?_, hscale, hrecip, ?_, fun hp => absurd hp hpure⟩
    · rw [PwmPins.shownFreq, if_neg hpure, h0]
    · rw [PwmPins.shownFreq, if_neg hpure, h0]
    · rw [PwmPins.periodFor, if_pos h0]
  · obtain ⟨hpos, -, -⟩ := hq.length hT h0
    have hlen : 0 ≤ 1e9 / k.pins.pwmFreq := div_nonneg (by norm_num) hpos.le
    rw [calcPeriod, if_neg (not_le.2 hpos), validFreq_of_plain hq hT h0, Option.bind_eq_bind,
      Option.bind_some, checkedDiv_of_ne hpos.ne', Option.bind_some]
    by_cases hp : k.pins.mode = .pure
    · obtain ⟨hcount, hlo, hhi⟩ := hq.periodCount hT h0
      have hto : cv.toInt (1e9 / k.pins.pwmFreq / T + 0.5) = k.pins.periodCount T := by
        rw [cv.toInt_of_nonneg hlo hhi, PwmPins.periodCount]
        norm_num
      have hP : ((k.pins.periodCount T : ℤ) : ℚ) ≠ 0 := Int.cast_ne_zero.2 (by omega)
      have hPT : ((k.pins.periodCount T * T : ℤ) : ℚ) ≠ 0 :=
        Int.cast_ne_zero.2 (mul_ne_zero (by omega) hT.ne')
      rw [if_pos hp, checkedDiv_of_ne (Int.cast_ne_zero.2 hT.ne')]
      simp only [Option.bind_some, hto, checkedDiv_of_ne hP, checkedDiv_of_ne hPT]
      refine ⟨_, rfl, ?_, ?_, hscale, hrecip, ?_, fun _ => rfl⟩
      · rw [PwmPins.shownFreq, if_pos hp]
      · rw [PwmPins.shownFreq, if_pos hp]
      · rw [PwmPins.periodFor, if_neg h0, if_pos hp]
    · rw [if_neg hp]
      refine ⟨_, rfl, ?_, ?_, hscale, hrecip, ?_, fun hp' => absurd hp' hp⟩
      · rw [PwmPins.shownFreq, if_neg hp]
      · rw [PwmPins.shownFreq, if_neg hp]
      · rw [PwmPins.periodFor, if_neg h0, if_neg hp]
        exact toLong_of_nonneg hlen

/-- What is remembered for the same frequency and mode is what the calcs give. -/
lemma Remembers.calculated (hr : k.Remembers T k.pins.mode) (hq : k.pins.Plain T) (hT : 0 < T)
    (hfreq : k.pins.pwmFreq = k.oldPwmFreq) (hscale : k.oldScale = k.pins.scale)
    (hrecip : k.scaleRecip = 1 / k.pins.scale) : k.Calculated T k.pins := by
  by_cases hp : k.pins.mode = .pure
  · have h0 : k.pins.pwmFreq ≠ 0 := PwmPins.freq_ne_zero_of_pure hp
    obtain ⟨P, hP, hperiods, hperiod, hold⟩ := hr.pure (hfreq ▸ h0) hp
    have hcount : k.pins.periodCount T = P :=
      PwmPins.periodCount_of_rounded hT.ne' hP (hfreq.trans hold)
    have hshown : k.pins.shownFreq T = k.pins.pwmFreq := by
      rw [PwmPins.shownFreq, if_pos hp, hcount, hfreq, hold]
    refine ⟨?_, ?_, hscale, hrecip, ?_, fun _ => ?_⟩
    · rw [hshown]
    · rw [hshown, hfreq]
    · rw [hperiod, PwmPins.periodFor, if_neg h0, if_pos hp, hcount]
    · rw [hperiods, hcount]
  · have hshown : k.pins.shownFreq T = k.pins.pwmFreq := by
      rw [PwmPins.shownFreq, if_neg hp]
    refine ⟨?_, ?_, hscale, hrecip, ?_, fun hp' => absurd hp' hp⟩
    · rw [hshown]
    · rw [hshown, hfreq]
    · by_cases h0 : k.pins.pwmFreq = 0
      · rw [PwmPins.periodFor, if_pos h0, hr.zero (hfreq ▸ h0)]
      · obtain ⟨hpos, -, -⟩ := hq.length hT h0
        rw [PwmPins.periodFor, if_neg h0, if_neg hp, hr.length (hfreq ▸ h0), ← hfreq,
          toLong_of_nonneg (div_nonneg (by norm_num) hpos.le)]

/-- The scale calcs for plain pins. -/
lemma Kept.updateScale (hg : g.Kept T) (hq : q.Plain T)
    (hscale : q.scale = g.oldScale → g.scaleRecip ≠ 0) :
    ({ g with pins := q } : Pwmgen).updateScale =
      some { g with pins := q, oldScale := q.scale, scaleRecip := 1 / q.scale } := by
  rw [Pwmgen.updateScale]
  by_cases hs : q.scale = g.oldScale
  · have hrecip : g.scaleRecip = 1 / q.scale := by
      rcases hg.scale with hr | hr
      · rw [hr, ← hs, hq.validScale_eq]
      · exact absurd hr.2 (hscale hs)
    rw [if_neg (not_not.2 hs), ← hrecip, hs]
  · rw [if_pos hs, hq.validScale_eq, checkedDiv_of_ne hq.scale_ne_zero]
    rfl

variable (cv) in
/-- The first call computes the period for plain pins, or has it. While disabled it must have
it. -/
lemma Kept.calculated (hg : g.Kept T) (hq : q.Plain T) (hT : 0 < T)
    (hdis : q.enable = false → q.pwmFreq = g.oldPwmFreq ∨ g.oldPeriodns ≠ T)
    (hk : k = { g with pins := q, oldScale := q.scale, scaleRecip := 1 / q.scale }) :
    ∃ h, (if k.Stale T then k.calcPeriod cv T k.pins.mode else some k) = some h ∧
      h.Calculated T q := by
  have hpins : k.pins = q := by rw [hk]
  have hscale : k.oldScale = k.pins.scale := by rw [hk]
  have hrecip : k.scaleRecip = 1 / k.pins.scale := by rw [hk]
  by_cases hs : k.Stale T
  · rw [if_pos hs, ← hpins]
    exact calculated_of_plain (hpins ▸ hq) hT hscale hrecip
  · rw [if_neg hs]
    rw [Stale, not_or, not_not, not_not] at hs
    obtain ⟨hmode, hTk⟩ := hs
    have hfreq : k.pins.pwmFreq = k.oldPwmFreq := by
      by_contra hne
      rw [if_pos hne] at hmode
      have hen : q.enable = false := PwmPins.mode_eq_disabled.1 (hpins ▸ hmode.symm)
      subst hk
      exact (hdis hen).elim hne fun hT' => hT' hTk.symm
    rw [if_neg (not_not.2 hfreq)] at hmode
    have hr : k.Remembers T k.pins.mode := by
      subst hk
      have hr := hg.period hTk.symm
      rw [← hmode]
      exact ⟨hr.zero, hr.length, hr.pure⟩
    refine ⟨k, rfl, ?_⟩
    rw [← hpins]
    exact hr.calculated (hpins ▸ hq) hT hfreq hscale hrecip

variable (cv outputType) in
/-- The duty calcs give what they give for the settled channel. -/
lemma Calculated.finish (hh : h.Calculated T q) :
    (h.finish cv outputType T q.mode).params = (settled cv outputType T q).params ∧
      (h.finish cv outputType T q.mode).currDc = (settled cv outputType T q).currDc := by
  have hduty : pwmDuty outputType h.scaleRecip h.pins = pwmDuty outputType (1 / q.scale) q := by
    rw [hh.pins, hh.scaleRecip]
    rfl
  have hdir : pwmDirection outputType h.scaleRecip h.pins =
      pwmDirection outputType (1 / q.scale) q := by
    rw [hh.pins, hh.scaleRecip]
    rfl
  by_cases hp : q.mode = .pure
  · simp only [Pwmgen.finish, settled, updateDuty, hduty, hdir, hh.period, hh.periods hp, if_pos hp,
      and_self]
  · simp only [Pwmgen.finish, settled, updateDuty, hduty, hdir, hh.period, if_neg hp, and_self]

/-- The duty calcs for the same numbers again. -/
lemma finish_finish : (h.finish cv outputType T mode).finish cv outputType T mode =
    h.finish cv outputType T mode := by
  by_cases ht : outputType = 1
  · simp only [finish, updateDuty, if_pos ht]
  · simp only [finish, updateDuty, if_neg ht]

/-- The second call changes nothing. -/
lemma Calculated.update_finish (hh : h.Calculated T q) (hq : q.Plain T) (hlim : q.Limited)
    (hT : 0 < T) : (h.finish cv outputType T q.mode).update cv outputType T =
      some (h.finish cv outputType T q.mode) := by
  set g := h.finish cv outputType T q.mode with hg
  have hpins : g.pins = { q with pwmFreq := q.shownFreq T } := hh.pins
  have hmode : g.pins.mode = q.mode := by rw [hpins, hq.mode_shownFreq hT]
  have hlimits : g.updateLimits = g := by
    have hl : g.pins.limited = g.pins :=
      PwmPins.Limited.limited_eq (by rw [hpins]; exact ⟨hlim.zero_le, hlim.le, hlim.le_one⟩)
    show { g with pins := g.pins.limited } = g
    rw [hl]
  have hscale : g.pins.scale = g.oldScale := by
    rw [hpins]
    exact hh.oldScale.symm
  have hsame : ¬ g.Stale T := by
    have hfreq : g.pins.pwmFreq = g.oldPwmFreq := by
      rw [hpins]
      exact hh.oldPwmFreq.symm
    rw [Stale, if_neg (not_not.2 hfreq), hmode, not_or, not_not, not_not]
    exact ⟨rfl, rfl⟩
  refine update_eq_some.2 ⟨g, g, ?_, if_neg hsame, ?_⟩
  · rw [hlimits, updateScale, if_neg (not_not.2 hscale)]
  · rw [hmode, hg, finish_finish]

variable (cv outputType) in
/-- Two calls with plain pins, from a state of a run. -/
theorem Kept.settles (hg : g.Kept T) (hT : 0 < T) (hq : q.Plain T)
    (hscale : q.scale = g.oldScale → g.scaleRecip ≠ 0)
    (hdis : q.enable = false → q.pwmFreq = g.oldPwmFreq ∨ g.oldPeriodns ≠ T) :
    ∃ g', ({ g with pins := q } : Pwmgen).update cv outputType T = some g' ∧
      g'.update cv outputType T = some g' ∧
      g'.params = (settled cv outputType T q.limited).params ∧
      g'.currDc = (settled cv outputType T q.limited).currDc := by
  have hq' : q.limited.Plain T := ⟨hq.scale, hq.freq, hq.fits⟩
  obtain ⟨h, hh, hcalc⟩ := hg.calculated cv hq' hT hdis rfl
  obtain ⟨hparams, hdc⟩ := hcalc.finish cv outputType
  refine ⟨h.finish cv outputType T q.limited.mode, update_eq_some.2 ⟨_, h, ?_, hh, rfl⟩,
    hcalc.update_finish hq' q.limited_limited hT, hparams, hdc⟩
  exact hg.updateScale hq' hscale

end Call

end Pwmgen

end MachinekitHal
