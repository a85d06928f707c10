import MachinekitHal.Components.PwmgenSettled

/-!
`update` of `pwmgenv2.c` computes the parameters of `pwmgen.c`.

* `PwmPins.Fits`: pins whose numbers fit 32 bits; those with the frequency corrected do, too.
* `Pwmgenv2.compute_of_fits`: the parameters are those of `settled`.
* `Pwmgenv2.Kept`: what holds in every run; the parameters belong to the tracked values.
* `Pwmgenv2.Kept.settles`: two calls with plain pins.
* `pwmgenv2_refines`: both generators after two calls; `pwmgenv2_not_refines`: not with a scale
  of 0.
-/

namespace MachinekitHal

open Casts Runs Word

namespace PwmPins

/-- Nothing is too large for 32 bits. -/
structure Fits (T : ℤ) (q : PwmPins) : Prop where
  scale : q.scale ≠ 0
  freq : 0 ≤ q.pwmFreq
  length : q.pwmFreq ≠ 0 → 1e9 / q.pwmFreq < 2 ^ 31
  count : q.mode = .pure → 1 ≤ q.periodCount T ∧ q.periodCount T * T < 2 ^ 31

section Fits

variable {T : ℤ} {q : PwmPins}

lemma Plain.toFits (h : q.Plain T) (hT : 0 < T) : q.Fits T where
  scale := h.scale_ne_zero
  freq := by
    rcases h.freq with h0 | h0
    · exact h0.ge
    · linarith [h0.1]
  length h0 := by
    have hlen := (h.length hT h0).2.2
    linarith
  count hp := by
    have hcount := (h.periodCount hT (freq_ne_zero_of_pure hp)).1
    exact ⟨by omega, h.fits hp⟩

/-- The pins with the rounded frequency. -/
lemma Plain.shownFreq_spec (h : q.Plain T) (hT : 0 < T) (hp : q.mode = .pure) :
    ({ q with pwmFreq := q.shownFreq T } : PwmPins).periodCount T = q.periodCount T ∧
      0 < q.shownFreq T ∧ 1e9 / q.shownFreq T = (q.periodCount T * T : ℤ) := by
  have hcount := (h.periodCount hT (freq_ne_zero_of_pure hp)).1
  have hpos : 0 < q.periodCount T * T := mul_pos (by omega) hT
  have hpos' : (0 : ℚ) < (q.periodCount T * T : ℤ) := Int.cast_pos.2 hpos
  rw [shownFreq, if_pos hp]
  refine ⟨periodCount_of_rounded hT.ne' (by omega) rfl, div_pos (by norm_num) hpos', ?_⟩
  exact div_div_cancel₀ (by norm_num)

lemma Plain.fits_shownFreq (h : q.Plain T) (hT : 0 < T) :
    ({ q with pwmFreq := q.shownFreq T } : PwmPins).Fits T := by
  by_cases hp : q.mode = .pure
  · obtain ⟨hcount, hpos, hlen⟩ := h.shownFreq_spec hT hp
    refine ⟨h.scale_ne_zero, hpos.le, fun _ => ?_, fun _ => ?_⟩
    · show 1e9 / q.shownFreq T < 2 ^ 31
      rw [hlen]
      exact_mod_cast h.fits hp
    · rw [hcount]
      exact (h.toFits hT).count hp
  · rw [shownFreq, if_neg hp]
    exact h.toFits hT

lemma Fits.periodFor (h : q.Fits T) (hT : 0 < T) (hT' : T < 2 ^ 31) :
    0 ≤ q.periodFor T ∧ q.periodFor T < 2 ^ 31 := by
  rw [PwmPins.periodFor]
  split_ifs with h0 hp
  · omega
  · obtain ⟨hlo, hhi⟩ := h.count hp
    exact ⟨mul_nonneg (by omega) hT.le, hhi⟩
  · have hlen := h.length h0
    refine ⟨Int.floor_nonneg.2 (div_nonneg (by norm_num) h.freq), Int.floor_lt.2 ?_⟩
    exact_mod_cast hlen

end Fits

end PwmPins

namespace Pwmgenv2

section Call

variable {cv : IntConversion} {outputType : ℕ} {T : ℤ} {u u' : Pwmgenv2} {q : PwmPins}

variable (cv u) in
/-- The period calcs when the numbers fit. -/
lemma calcPeriod_of_fits (hq : q.Fits T) (hT : 0 < T) (hT' : T < 2 ^ 31) :
    ∃ f, u.calcPeriod cv T q = some { u with
      pins := { u.pins with pwmFreq := f }
      periods := if q.mode = .pure then ⟨q.periodCount T, 1 / q.periodCount T⟩ else u.periods
      params := { u.params with period := q.periodFor T } } ∧
      (q.Plain T → f = q.shownFreq T) := by
  have hTne : (T : ℚ) ≠ 0 := Int.cast_ne_zero.2 hT.ne'
  obtain ⟨hlo, hhi⟩ := hq.periodFor hT hT'
  by_cases h0 : q.pwmFreq = 0
  · have hpure : q.mode ≠ .pure := fun hp => PwmPins.freq_ne_zero_of_pure hp h0
    have hperiod : q.periodFor T = T := if_pos h0
    refine ⟨0, ?_, fun _ => ?_⟩
    · rw [calcPeriod, if_pos h0.le, if_neg hpure, hperiod, wrapInt_eq (by omega) hT']
    · rw [PwmPins.shownFreq, if_neg hpure, h0]
  · have hpos : 0 < q.pwmFreq := lt_of_le_of_ne hq.freq (Ne.symm h0)
    have hlen := hq.length h0
    have hlen0 : 0 ≤ 1e9 / q.pwmFreq := div_nonneg (by norm_num) hpos.le
    obtain ⟨v, hv, hvalid⟩ : ∃ v, Pwmgen.validFreq T q.pwmFreq = some v ∧
        (q.Plain T → v = q.pwmFreq) := by
      rw [Pwmgen.validFreq, checkedDiv_of_ne hTne]
      split_ifs with hlow
      · exact ⟨_, rfl, fun hp => absurd (hp.freq.resolve_left h0).1 (not_le.2 hlow)⟩
      · exact ⟨_, rfl, fun hp => if_neg (not_lt.2 (hp.freq.resolve_left h0).2)⟩
    rw [calcPeriod, if_neg (not_le.2 hpos), hv, checkedDiv_of_ne h0]
    simp only [Option.bind_eq_bind, Option.bind_some]
    by_cases hp : q.mode = .pure
    · have hperiod : q.periodFor T = q.periodCount T * T := by
        rw [PwmPins.periodFor, if_neg h0, if_pos hp]
      obtain ⟨hcount, hfit⟩ := hq.count hp
      have hto : cv.toInt (1e9 / q.pwmFreq / T + 0.5) = q.periodCount T := by
        have hfloor : ⌊1e9 / q.pwmFreq / (T : ℚ) + 0.5⌋ = q.periodCount T := by
          rw [PwmPins.periodCount]
          norm_num
        have hlt : q.periodCount T < 2 ^ 31 := by nlinarith
        rw [cv.toInt_of_nonneg (by positivity), hfloor]
        rw [← hfloor, Int.floor_lt] at hlt
        exact_mod_cast hlt
      have hP : ((q.periodCount T : ℤ) : ℚ) ≠ 0 := Int.cast_ne_zero.2 (by omega)
      have hPT : ((q.periodCount T * T : ℤ) : ℚ) ≠ 0 :=
        Int.cast_ne_zero.2 (mul_ne_zero (by omega) hT.ne')
      have hwrap : wrapInt (q.periodCount T * T) = q.periodCount T * T :=
        wrapInt_eq (by rw [← hperiod]; omega) hfit
      rw [if_pos hp, if_pos hp, checkedDiv_of_ne hTne, hperiod]
      simp only [Option.bind_some, hto, checkedDiv_of_ne hP, hwrap, checkedDiv_of_ne hPT]
      refine ⟨_, rfl, fun _ => ?_⟩
      rw [PwmPins.shownFreq, if_pos hp]
    · have hperiod : cv.toInt (1e9 / q.pwmFreq) = q.periodFor T := by
        rw [cv.toInt_of_nonneg hlen0 hlen, PwmPins.periodFor, if_neg h0, if_neg hp]
      rw [if_neg hp, if_neg hp, hperiod]
      refine ⟨_, rfl, fun hplain => ?_⟩
      rw [PwmPins.shownFreq, if_neg hp, hvalid hplain]

/-- The duty calcs when the numbers fit. -/
lemma setDuty_of_fits (hq : q.Fits T) (hlim : q.Limited) (hT : 0 < T) (hT' : T < 2 ^ 31)
    (hrecip : u.scaleRecip = 1 / q.scale) (hmode : u.params.mode = q.mode)
    (hperiod : u.params.period = q.periodFor T)
    (hperiods : q.mode = .pure → u.periods = ⟨q.periodCount T, 1 / q.periodCount T⟩) :
    (u.setDuty cv outputType T q).params = (settled cv outputType T q).params ∧
      (u.setDuty cv outputType T q).currDc = (settled cv outputType T q).currDc := by
  obtain ⟨hout0, hout1⟩ := hlim.outDuty outputType (1 / q.scale)
  obtain ⟨hlo, hhi⟩ := hq.periodFor hT hT'
  by_cases hp : q.mode = .pure
  · obtain ⟨hcount, hfit⟩ := hq.count hp
    have hcount' : (0 : ℚ) ≤ q.periodCount T := by exact_mod_cast (by omega : 0 ≤ q.periodCount T)
    have hx0 : 0 ≤ q.periodCount T * q.outDuty outputType (1 / q.scale) + 0.5 := by positivity
    have hx1 : q.periodCount T * q.outDuty outputType (1 / q.scale) + 0.5 <
        (q.periodCount T + 1 : ℤ) := by
      push_cast
      nlinarith
    have hlt : q.periodCount T + 1 ≤ 2 ^ 31 := by nlinarith
    have hlt' : ((q.periodCount T + 1 : ℤ) : ℚ) ≤ 2 ^ 31 := by exact_mod_cast hlt
    have hhigh : wrapInt
        (cv.toInt (q.periodCount T * q.outDuty outputType (1 / q.scale) + 0.5) * T) =
          cv.toInt (q.periodCount T * q.outDuty outputType (1 / q.scale) + 0.5) * T := by
      rw [cv.toInt_of_nonneg hx0 (hx1.trans_le hlt')]
      have h0 : 0 ≤ ⌊q.periodCount T * q.outDuty outputType (1 / q.scale) + 0.5⌋ :=
        Int.floor_nonneg.2 hx0
      have h1 : ⌊q.periodCount T * q.outDuty outputType (1 / q.scale) + 0.5⌋ ≤
          q.periodCount T := Int.lt_add_one_iff.1 (Int.floor_lt.2 hx1)
      refine wrapInt_eq ?_ ?_ <;> nlinarith
    rw [PwmPins.outDuty] at hhigh
    simp only [setDuty, settled, Pwmgen.updateDuty, hrecip, hmode, hperiod, hperiods hp, if_pos hp,
      hhigh, and_self]
  · have hx0 : 0 ≤ q.periodFor T * q.outDuty outputType (1 / q.scale) + (0.5 : ℚ) := by
      have hlo' : (0 : ℚ) ≤ q.periodFor T := Int.cast_nonneg hlo
      positivity
    have hx1 : q.periodFor T * q.outDuty outputType (1 / q.scale) + (0.5 : ℚ) < 2 ^ 31 := by
      have hhi' : ((q.periodFor T : ℤ) : ℚ) ≤ (2 ^ 31 - 1 : ℤ) := Int.cast_le.2 (by omega)
      push_cast at hhi'
      have hlo' : (0 : ℚ) ≤ q.periodFor T := Int.cast_nonneg hlo
      nlinarith
    have hhigh : cv.toInt (q.periodFor T * q.outDuty outputType (1 / q.scale) + 0.5) =
        Pwmgen.toLong (q.periodFor T * q.outDuty outputType (1 / q.scale) + 0.5) := by
      rw [cv.toInt_of_nonneg hx0 hx1, Pwmgen.toLong_of_nonneg hx0]
    rw [PwmPins.outDuty] at hhigh
    simp only [setDuty, settled, Pwmgen.updateDuty, hrecip, hmode, hperiod, if_neg hp, hhigh,
      and_self]

variable (cv outputType u) in
/-- The parameters are those of the settled channel. -/
lemma compute_of_fits (hq : q.Fits T) (hlim : q.Limited) (hT : 0 < T) (hT' : T < 2 ^ 31) :
    ∃ u', u.compute cv outputType T q = some u' ∧
      u'.params = (settled cv outputType T q).params ∧
      u'.currDc = (settled cv outputType T q).currDc ∧
      u'.old = u.old ∧ u'.oldJitterCorrect = u.oldJitterCorrect ∧
      u'.jitterCorrect = u.jitterCorrect ∧
      (q.Plain T → u'.pins = { u.pins with scale := q.scale, pwmFreq := q.shownFreq T }) := by
  obtain ⟨f, hf, hplain⟩ := calcPeriod_of_fits cv
    { u with pins := { u.pins with scale := validScale q.scale }
             scaleRecip := 1 / q.scale
             params := { u.params with mode := q.mode } } hq hT hT'
  rw [compute, checkedDiv_of_ne hq.scale]
  simp only [Option.bind_eq_bind, Option.bind_some, hf]
  refine ⟨_, rfl, ?_, ?_, rfl, rfl, rfl, fun hp => ?_⟩
  · exact (setDuty_of_fits hq hlim hT hT' rfl rfl rfl fun hp => if_pos hp).1
  · exact (setDuty_of_fits hq hlim hT hT' rfl rfl rfl fun hp => if_pos hp).2
  · rw [← hplain hp]
    exact congrArg (fun s => { u.pins with scale := s, pwmFreq := f }) hp.validScale_eq

/-- The tracked values are not touched. -/
lemma calcPeriod_old (h : u.calcPeriod cv T q = some u') : u'.old = u.old := by
  rw [calcPeriod] at h
  by_cases h0 : q.pwmFreq ≤ 0
  · rw [if_pos h0] at h
    cases h
    rfl
  · rw [if_neg h0] at h
    obtain ⟨v, -, h⟩ := Option.bind_eq_some_iff.1 h
    obtain ⟨l, -, h⟩ := Option.bind_eq_some_iff.1 h
    by_cases hp : q.mode = .pure
    · rw [if_pos hp] at h
      obtain ⟨c, -, h⟩ := Option.bind_eq_some_iff.1 h
      obtain ⟨r, -, h⟩ := Option.bind_eq_some_iff.1 h
      obtain ⟨f, -, h⟩ := Option.bind_eq_some_iff.1 h
      cases h
      rfl
    · rw [if_neg hp] at h
      cases h
      rfl

lemma compute_old (h : u.compute cv outputType T q = some u') : u'.old = u.old := by
  obtain ⟨r, -, h⟩ := Option.bind_eq_some_iff.1 h
  obtain ⟨x, hx, h⟩ := Option.bind_eq_some_iff.1 h
  cases h
  have hold := calcPeriod_old hx
  exact hold

/-! ### Runs -/

/-- What holds in every run: the parameters belong to the tracked values. -/
def Kept (cv : IntConversion) (outputType : ℕ) (T : ℤ) (u : Pwmgenv2) : Prop :=
  u.old.Fits T → u.params = (settled cv outputType T u.old).params ∧
    u.currDc = (settled cv outputType T u.old).currDc

lemma Kept.init : Kept cv outputType T .init := by
  intro h
  have hfreq : (0 : ℚ) ≤ -1 := h.freq
  norm_num at hfreq

/-- A change of a driving pin. -/
def Changed (u : Pwmgenv2) : Prop :=
  ¬ (u.pins.limited = u.old ∧ u.jitterCorrect = u.oldJitterCorrect)

lemma update_of_not_changed (hT : 0 < T) (h : ¬ u.Changed) :
    u.update cv outputType T = some { u with pins := u.pins.limited } := by
  rw [update, if_neg (by omega)]
  exact if_pos (not_not.1 h)

lemma update_of_changed (hT : 0 < T) (h : u.Changed) : u.update cv outputType T =
    ({ u with pins := u.pins.limited
              old := u.pins.limited
              oldJitterCorrect := u.jitterCorrect } : Pwmgenv2).compute cv outputType T
      u.pins.limited := by
  rw [update, if_neg (by omega)]
  exact if_neg h

/-- The base period is known, or `update` copes out. -/
lemma Kept.update (hT : 0 < T) (hT' : T < 2 ^ 31) {p : ℤ} (hp : p = T ∨ p < 0)
    (hu : Kept cv outputType T u) (h : u.update cv outputType p = some u') :
    Kept cv outputType T u' := by
  rcases hp with rfl | hp
  · by_cases hc : u.Changed
    · rw [update_of_changed hT hc] at h
      intro hq
      rw [compute_old h] at hq ⊢
      obtain ⟨x, hx, hparams, hdc, -⟩ := compute_of_fits cv outputType
        { u with pins := u.pins.limited
                 old := u.pins.limited
                 oldJitterCorrect := u.jitterCorrect } hq u.pins.limited_limited hT hT'
      rw [h] at hx
      cases hx
      exact ⟨hparams, hdc⟩
    · rw [update_of_not_changed hT hc] at h
      cases h
      exact hu
  · rw [Pwmgenv2.update, if_pos hp] at h
    cases h
    exact hu

lemma Kept.step (hT : 0 < T) (hT' : T < 2 ^ 31) {a : PwmAct}
    (ha : ∀ p, a = .update p → p = T ∨ p < 0) (hu : Kept cv outputType T u)
    (hs : u.step cv outputType a = some u') : Kept cv outputType T u' := by
  cases a with
  | set q j =>
    cases hs
    exact hu
  | update p => exact hu.update hT hT' (ha p rfl) hs

/-! ### Two calls with the same pins -/

variable (cv outputType) in
/-- The rounded frequency makes no difference. -/
lemma settled_shownFreq (hq : q.Plain T) (hT : 0 < T) :
    (settled cv outputType T { q with pwmFreq := q.shownFreq T }).params =
        (settled cv outputType T q).params ∧
      (settled cv outputType T { q with pwmFreq := q.shownFreq T }).currDc =
        (settled cv outputType T q).currDc := by
  by_cases hp : q.mode = .pure
  · obtain ⟨hcount, hpos, -⟩ := hq.shownFreq_spec hT hp
    have hmode := hq.mode_shownFreq hT
    have hperiod : ({ q with pwmFreq := q.shownFreq T } : PwmPins).periodFor T =
        q.periodFor T := by
      rw [PwmPins.periodFor, PwmPins.periodFor, if_neg hpos.ne', hmode, if_pos hp, if_pos hp,
        if_neg (PwmPins.freq_ne_zero_of_pure hp), hcount]
    rw [settled, settled, hmode, hperiod, hcount]
    exact ⟨rfl, rfl⟩
  · rw [PwmPins.shownFreq, if_neg hp]
    exact ⟨rfl, rfl⟩

/-- A call with pins for which nothing is replaced any more. -/
lemma Kept.settle (hu : Kept cv outputType T u) (hT : 0 < T) (hT' : T < 2 ^ 31)
    (hq : u.pins.limited.Fits T) : ∃ u', u.update cv outputType T = some u' ∧
      u'.params = (settled cv outputType T u.pins.limited).params ∧
      u'.currDc = (settled cv outputType T u.pins.limited).currDc ∧
      Kept cv outputType T u' ∧ (u.pins.limited.Plain T →
        u'.pins = u.pins.limited ∨
          u'.pins = { u.pins.limited with pwmFreq := u.pins.limited.shownFreq T }) := by
  by_cases hc : u.Changed
  · obtain ⟨u', hu', hparams, hdc, -, -, -, hpins⟩ := compute_of_fits cv outputType
      { u with pins := u.pins.limited
               old := u.pins.limited
               oldJitterCorrect := u.jitterCorrect } hq u.pins.limited_limited hT hT'
    rw [← update_of_changed hT hc] at hu'
    exact ⟨u', hu', hparams, hdc, hu.update hT hT' (.inl rfl) hu', fun hp => .inr (hpins hp)⟩
  · have hold : u.pins.limited = u.old := (not_not.1 hc).1
    obtain ⟨hparams, hdc⟩ := hu (hold ▸ hq)
    refine ⟨_, update_of_not_changed hT hc, ?_, ?_, hu, fun _ => .inl rfl⟩
    · rw [hold]
      exact hparams
    · rw [hold]
      exact hdc

/-- Two calls with plain pins, from a state of a run. -/
theorem Kept.settles (hu : Kept cv outputType T u) (hT : 0 < T) (hT' : T < 2 ^ 31)
    (hq : q.Plain T) (j : Bool) : ∃ u' u'',
      ({ u with pins := q, jitterCorrect := j } : Pwmgenv2).update cv outputType T = some u' ∧
      u'.update cv outputType T = some u'' ∧
      u''.params = (settled cv outputType T q.limited).params ∧
      u''.currDc = (settled cv outputType T q.limited).currDc := by
  have hq' : q.limited.Plain T := ⟨hq.scale, hq.freq, hq.fits⟩
  have hset : Kept cv outputType T { u with pins := q, jitterCorrect := j } := hu
  obtain ⟨u', hu', -, -, hkept, hpins⟩ := hset.settle hT hT' (hq'.toFits hT)
  have hlim := q.limited_limited
  rcases hpins hq' with hp | hp
  · have hlim' : u'.pins.limited = q.limited := by rw [hp]; exact hlim.limited_eq
    obtain ⟨u'', hu'', hparams, hdc, -⟩ := hkept.settle hT hT' (hlim' ▸ hq'.toFits hT)
    rw [hlim'] at hparams hdc
    exact ⟨u', u'', hu', hu'', hparams, hdc⟩
  · have hlim' : u'.pins.limited = { q.limited with pwmFreq := q.limited.shownFreq T } := by
      rw [hp]
      exact PwmPins.Limited.limited_eq ⟨hlim.zero_le, hlim.le, hlim.le_one⟩
    obtain ⟨u'', hu'', hparams, hdc, -⟩ := hkept.settle hT hT' (hlim' ▸ hq'.fits_shownFreq hT)
    rw [hlim'] at hparams hdc
    obtain ⟨hparams', hdc'⟩ := settled_shownFreq cv outputType hq' hT
    exact ⟨u', u'', hu', hu'', hparams.trans hparams', hdc.trans hdc'⟩

end Call

end Pwmgenv2

/-- After any runs with the same base period, both generators agree on plain pins after two
calls, unless the first scale of `pwmgen.c` is 2, or its frequency changes while it is disabled. -/
theorem pwmgenv2_refines (cv : IntConversion) (outputType : ℕ) {T : ℤ} (hT : 0 < T)
    (hT' : T < 2 ^ 31) {g : Pwmgen} {u : Pwmgenv2}
    (hg : Reach (Pwmgen.step cv outputType) (fun _ a => a.At T) .init g)
    (hu : Reach (Pwmgenv2.step cv outputType) (fun _ a => a.At T) .init u)
    (q : PwmPins) (jitterCorrect : Bool) (hq : q.Plain T)
    (hscale : q.scale = g.oldScale → g.scaleRecip ≠ 0)
    (hdis : q.enable = false → q.pwmFreq = g.oldPwmFreq ∨ g.oldPeriodns ≠ T) :
    PwmAgree (g.twoCalls cv outputType T q) (u.twoCalls cv outputType T q jitterCorrect) := by
  have hkept : g.Kept T := hg.invariant (.init hT) fun h _ hs => h.step hs
  have hkept' : Pwmgenv2.Kept cv outputType T u := by
    refine hu.invariant (P := Pwmgenv2.Kept cv outputType T) .init fun h ha hs => ?_
    refine h.step hT hT' (fun p hp => ?_) hs
    subst hp
    exact ha.imp_right fun h1 => by omega
  obtain ⟨g', hg1, hg2, hparams, hdc⟩ :=
    hkept.settles cv outputType hT hq hscale hdis
  obtain ⟨u', u'', hu1, hu2, hparams', hdc'⟩ := hkept'.settles hT hT' hq jitterCorrect
  refine ⟨g', u'', ?_, ?_, hparams'.trans hparams.symm, hdc'.trans hdc.symm⟩
  · rw [Pwmgen.twoCalls, hg1]
    exact hg2
  · rw [Pwmgenv2.twoCalls, hu1]
    exact hu2

/-- 3000 Hz with a base period of 50000 ns, from the start. -/
theorem pwmgenv2_refines_3000 : PwmAgree
    (Pwmgen.init.twoCalls .lowest 1 50000 ⟨true, 1 / 2, 1, 0, 3000, false, 0, 1⟩)
    (Pwmgenv2.init.twoCalls .lowest 1 50000 ⟨true, 1 / 2, 1, 0, 3000, false, 0, 1⟩ false) := by
  refine pwmgenv2_refines .lowest 1 (by decide) (by decide) .refl .refl _ false ⟨?_, ?_, ?_⟩
    (fun h => absurd h (by decide)) (fun h => absurd h (by decide))
  · norm_num
  · norm_num
  · decide +kernel

/-- With a scale of 0 the second one divides by zero. -/
theorem pwmgenv2_not_refines : ¬ ∀ (cv : IntConversion) (outputType : ℕ) (T : ℤ), 0 < T →
    T < 2 ^ 31 → ∀ (g : Pwmgen) (u : Pwmgenv2),
      Reach (Pwmgen.step cv outputType) (fun _ a => a.At T) .init g →
      Reach (Pwmgenv2.step cv outputType) (fun _ a => a.At T) .init u →
      ∀ (q : PwmPins) (jitterCorrect : Bool),
        PwmAgree (g.twoCalls cv outputType T q) (u.twoCalls cv outputType T q jitterCorrect) := by
  intro h
  obtain ⟨-, u', -, hu, -⟩ := h .lowest 0 50000 (by decide) (by decide) .init .init .refl .refl
    ⟨true, 0, 0, 0, 0, false, 0, 1⟩ false
  have hnone : Pwmgenv2.init.twoCalls .lowest 0 50000 ⟨true, 0, 0, 0, 0, false, 0, 1⟩ false =
      none := by decide
  rw [hnone] at hu
  cases hu

end MachinekitHal
