import MachinekitHal.Components.Pwmgen
import MachinekitHal.Lib.Turns
import Mathlib.Data.Nat.Count

/-!
The duty of `pwmgen.c`: how long the output is high.

* `PwmRun`: the calls of `make_pulses` from the disabled state, with the same parameters.
* `PwmRun.highs`, `PwmRun.starts`: how often the output has been high, and a period started.
* `PureInv`, `DitherInv`, `PdmInv`: what the calls of each mode keep.
* `pwm_duty`: the output is high for the commanded time.
-/

namespace MachinekitHal

/-- Calls of `make_pulses` with the same parameters, and the state before they were disabled. -/
structure PwmRun where
  outputType : ℕ
  periodns : ℤ
  params : PwmParams
  before : PwmTimers

namespace PwmRun

variable (R : PwmRun) (n : ℕ)

/-- The disabled state, and the one after `n` calls. -/
def disabled : PwmTimers :=
  R.before.makePulses R.outputType R.periodns { R.params with mode := .disabled }
def state : PwmTimers :=
  (fun s => s.makePulses R.outputType R.periodns R.params)^[n] R.disabled

/-- An output is high after a call. -/
def High : Prop := (R.state (n + 1)).out.1 = true ∨
  (2 ≤ R.outputType ∧ (R.state (n + 1)).out.2 = true)

/-- A call reaches the end of a period and starts the next one. -/
def Start : Prop := R.params.period ≤ (R.state n).periodTimer + R.periodns

instance : DecidablePred R.High := fun _ => inferInstanceAs (Decidable (_ ∨ _))
instance : DecidablePred R.Start := fun _ => inferInstanceAs (Decidable (_ ≤ _))

/-- The number of calls, of the first `n`, after which the output is high, and that start a
period. -/
def highs : ℕ := Nat.count R.High n
def starts : ℕ := Nat.count R.Start n

lemma state_succ : R.state (n + 1) =
    (R.state n).makePulses R.outputType R.periodns R.params :=
  Function.iterate_succ_apply' ..

/-- The output pins show the current output. -/
lemma high_iff : R.High n ↔ (R.state (n + 1)).currOutput = true := by
  rw [High, state_succ, PwmTimers.makePulses]
  generalize (R.state n).modeStep R.periodns R.params = t
  rw [PwmTimers.output]
  by_cases h : R.outputType < 2
  · have hno : ¬ 2 ≤ R.outputType := by omega
    simp only [if_pos h, hno, false_and, or_false]
  · have hyes : 2 ≤ R.outputType := by omega
    simp only [if_neg h, hyes, true_and]
    cases t.currOutput <;> cases R.params.direction <;> decide

/-- Up and down are never both high. -/
lemma not_both (h : 2 ≤ R.outputType) :
    ¬ ((R.state n).out.1 = true ∧ (R.state n).out.2 = true) := by
  have hcall : ∀ (s : PwmTimers) (p : PwmParams),
      ¬ ((s.makePulses R.outputType R.periodns p).out.1 = true ∧
        (s.makePulses R.outputType R.periodns p).out.2 = true) := by
    intro s p
    rw [PwmTimers.makePulses, PwmTimers.output, if_neg (by omega)]
    rintro ⟨hup, hdown⟩
    rw [Bool.and_eq_true, Bool.not_eq_true'] at hup
    rw [Bool.and_eq_true] at hdown
    exact absurd (hdown.2.symm.trans hup.2) Bool.false_ne_true.symm
  cases n with
  | zero => exact hcall _ _
  | succ n =>
    rw [state_succ]
    exact hcall _ _

lemma highs_succ : R.highs (n + 1) =
    R.highs n + if (R.state (n + 1)).currOutput = true then 1 else 0 := by
  rw [highs, highs, Nat.count_succ]
  simp only [high_iff]

lemma starts_succ : R.starts (n + 1) = R.starts n + if R.Start n then 1 else 0 :=
  Nat.count_succ ..

/-! ### Dither -/

variable {R n}

/-- What the calls keep in dither mode: the timers are the time and the high time that are left
over, the latter by less than a base period. -/
structure DitherInv (R : PwmRun) (n : ℕ) : Prop where
  periodTimer : (R.state n).periodTimer = n * R.periodns - R.starts n * R.params.period
  nonneg : 0 ≤ (R.state n).periodTimer
  lt : (R.state n).periodTimer < R.params.period
  highTimer : (R.state n).highTimer = R.starts n * R.params.highTime - R.highs n * R.periodns +
    if (R.state n).currOutput = true then R.periodns else 0
  output : (R.state n).currOutput = true ↔ 0 < (R.state n).highTimer
  lower : -R.periodns < (R.state n).highTimer
  /-- at the end of the period less than a base period is left -/
  upper : (R.state n).currOutput = true →
    (R.state n).highTimer + (R.state n).periodTimer < R.params.highTime + R.periodns

lemma state_succ_dither (hmode : R.params.mode = .dither) (hH : 0 ≤ R.params.highTime)
    (hout : (R.state n).currOutput = true ↔ 0 < (R.state n).highTimer) :
    (R.state (n + 1)).periodTimer = (R.state n).periodTimer + R.periodns -
      (if R.Start n then R.params.period else 0) ∧
    (R.state (n + 1)).highTimer = (R.state n).highTimer -
      (if (R.state n).currOutput = true then R.periodns else 0) +
      (if R.Start n then R.params.highTime else 0) ∧
    ((R.state (n + 1)).currOutput = true ↔ 0 < (R.state (n + 1)).highTimer) := by
  have hstep : R.state (n + 1) =
      ((R.state n).ditherStep R.periodns R.params).output R.outputType R.params := by
    rw [state_succ, PwmTimers.makePulses, PwmTimers.modeStep, hmode]
  have hend : R.Start n ↔ R.params.period ≤ (R.state n).periodTimer + R.periodns := Iff.rfl
  simp only [hstep, PwmTimers.output, PwmTimers.ditherStep, hend]
  generalize R.state n = s at hout ⊢
  obtain ⟨r, y, out, pins⟩ := s
  cases out <;> by_cases hp : R.params.period ≤ r + R.periodns
  · simp [hp]
  · have hy : y ≤ 0 := not_lt.1 fun hy => absurd (hout.2 hy) Bool.false_ne_true
    simp [hp, hy]
  · simp [hp]
    omega
  · simp [hp]

lemma DitherInv.init (hT : 0 < R.periodns) (hP : R.periodns ≤ R.params.period) :
    DitherInv R 0 := by
  have h0 : R.starts 0 = 0 ∧ R.highs 0 = 0 := ⟨Nat.count_zero _, Nat.count_zero _⟩
  have hr : (R.state 0).periodTimer = 0 := rfl
  have hy : (R.state 0).highTimer = 0 := rfl
  have hc : (R.state 0).currOutput = false := rfl
  refine ⟨?_, hr.ge, by omega, ?_, ?_, by omega, ?_⟩
  · rw [hr, h0.1]
    simp
  · rw [hy, h0.1, h0.2, hc]
    simp
  · rw [hy, hc]
    simp
  · rw [hc]
    exact fun h => absurd h Bool.false_ne_true

lemma DitherInv.succ (h : DitherInv R n) (hmode : R.params.mode = .dither)
    (hT : 0 < R.periodns) (hP : R.periodns ≤ R.params.period) (hH : 0 ≤ R.params.highTime)
    (hle : R.params.highTime ≤ R.params.period) : DitherInv R (n + 1) := by
  obtain ⟨hper, hhigh, hout⟩ := state_succ_dither hmode hH h.output
  have hh := R.highs_succ n
  by_cases hend : R.Start n
  · -- the end of a period
    have hs : R.starts (n + 1) = R.starts n + 1 := by rw [R.starts_succ, if_pos hend]
    have hreach : R.params.period ≤ (R.state n).periodTimer + R.periodns := hend
    rw [if_pos hend] at hper hhigh
    refine ⟨?_, ?_, ?_, ?_, hout, ?_, ?_⟩
    · rw [hper, h.periodTimer, hs]
      push_cast
      ring
    · omega
    · have hlt := h.lt
      omega
    · rw [hhigh, h.highTimer, hs, hh]
      push_cast
      split_ifs <;> ring
    · have hlow := h.lower
      have hpos := h.output
      rw [hhigh]
      split_ifs with hc
      · have hhigh0 := hpos.1 hc
        omega
      · omega
    · intro _
      have hlt := h.lt
      have hpos := h.output
      rw [hhigh, hper]
      split_ifs with hc
      · have hupper := h.upper hc
        omega
      · have hzero : ¬ 0 < (R.state n).highTimer := fun hy => hc (hpos.2 hy)
        omega
  · have hs : R.starts (n + 1) = R.starts n := by rw [R.starts_succ, if_neg hend, Nat.add_zero]
    have hreach : ¬ R.params.period ≤ (R.state n).periodTimer + R.periodns := hend
    rw [if_neg hend] at hper hhigh
    refine ⟨?_, ?_, ?_, ?_, hout, ?_, ?_⟩
    · rw [hper, h.periodTimer, hs]
      push_cast
      ring
    · have h0 := h.nonneg
      omega
    · omega
    · rw [hhigh, h.highTimer, hs, hh]
      push_cast
      split_ifs <;> ring
    · have hlow := h.lower
      have hpos := h.output
      rw [hhigh]
      split_ifs with hc
      · have hhigh0 := hpos.1 hc
        omega
      · omega
    · intro hc'
      have hpos := h.output
      have hy := hout.1 hc'
      rw [hhigh] at hy ⊢
      rw [hper]
      split_ifs at hy ⊢ with hc
      · have hupper := h.upper hc
        omega
      · exact absurd (hpos.2 (by omega)) hc

/-- Every run in dither mode. -/
lemma ditherInv (hmode : R.params.mode = .dither) (hT : 0 < R.periodns)
    (hP : R.periodns ≤ R.params.period) (hH : 0 ≤ R.params.highTime)
    (hle : R.params.highTime ≤ R.params.period) (n : ℕ) : DitherInv R n := by
  induction n with
  | zero => exact .init hT hP
  | succ n ih => exact ih.succ hmode hT hP hH hle

/-- At the end of a period the output has been high for the high time of all periods, but for
less than a base period. -/
lemma DitherInv.duty (h : DitherInv R n) (hle : R.params.highTime ≤ R.params.period)
    (hT : 0 < R.periodns) (hend : R.Start n) :
    |R.highs n * R.periodns - R.starts n * R.params.highTime| < R.periodns := by
  have hreach : R.params.period ≤ (R.state n).periodTimer + R.periodns := hend
  have hy := h.highTimer
  have hlt := h.lt
  have hlow := h.lower
  rw [abs_lt]
  by_cases hc : (R.state n).currOutput = true
  · have hpos := h.output.1 hc
    have hup := h.upper hc
    rw [if_pos hc] at hy
    constructor <;> linarith
  · have hneg : (R.state n).highTimer ≤ 0 := not_lt.1 fun h0 => hc (h.output.2 h0)
    rw [if_neg hc] at hy
    constructor <;> linarith

/-! ### PDM -/

/-- What the calls keep in PDM mode. -/
structure PdmInv (R : PwmRun) (n : ℕ) : Prop where
  highTimer : (R.state n).highTimer = n * R.params.highTime - R.highs n * R.periodns +
    if (R.state n).currOutput = true then R.periodns else 0
  output : (R.state n).currOutput = true ↔ 0 < (R.state n).highTimer
  lower : -R.periodns < (R.state n).highTimer
  upper : (R.state n).highTimer ≤ R.periodns

lemma PdmInv.succ (h : PdmInv R n) (hmode : R.params.mode = .pdm) (hH : 0 ≤ R.params.highTime)
    (hle : R.params.highTime ≤ R.periodns) : PdmInv R (n + 1) := by
  have hstep : R.state (n + 1) =
      ((R.state n).pdmStep R.periodns R.params).output R.outputType R.params := by
    rw [state_succ, PwmTimers.makePulses, PwmTimers.modeStep, hmode]
  have hhigh : (R.state (n + 1)).highTimer = (R.state n).highTimer + R.params.highTime -
      if (R.state n).currOutput = true then R.periodns else 0 := by rw [hstep]; rfl
  have hout : (R.state (n + 1)).currOutput = true ↔ 0 < (R.state (n + 1)).highTimer := by
    rw [hstep]
    exact decide_eq_true_iff
  have hlow := h.lower
  have hup := h.upper
  refine ⟨?_, hout, ?_, ?_⟩
  · rw [hhigh, h.highTimer, R.highs_succ n]
    push_cast
    split_ifs <;> ring
  · rw [hhigh]
    split_ifs with hc
    · have hpos := h.output.1 hc
      omega
    · omega
  · rw [hhigh]
    split_ifs with hc
    · omega
    · have hneg : (R.state n).highTimer ≤ 0 := not_lt.1 fun h0 => hc (h.output.2 h0)
      omega

lemma pdmInv (hmode : R.params.mode = .pdm) (hH : 0 ≤ R.params.highTime)
    (hle : R.params.highTime ≤ R.periodns) (hT : 0 < R.periodns) (n : ℕ) : PdmInv R n := by
  induction n with
  | zero =>
    have hy : (R.state 0).highTimer = 0 := rfl
    have hc : (R.state 0).currOutput = false := rfl
    refine ⟨?_, ?_, by omega, by omega⟩
    · rw [hy, hc, highs, Nat.count_zero]
      simp
    · rw [hy, hc]
      simp
  | succ n ih => exact ih.succ hmode hH hle

/-- After any number of calls the output has been high for the high time of all calls, but for
at most a base period. -/
lemma PdmInv.duty (h : PdmInv R n) :
    |R.highs n * R.periodns - n * R.params.highTime| ≤ R.periodns := by
  have hy := h.highTimer
  have hlow := h.lower
  have hup := h.upper
  rw [abs_le]
  by_cases hc : (R.state n).currOutput = true
  · have hpos := h.output.1 hc
    rw [if_pos hc] at hy
    constructor <;> linarith
  · have hneg : (R.state n).highTimer ≤ 0 := not_lt.1 fun h0 => hc (h.output.2 h0)
    rw [if_neg hc] at hy
    constructor <;> linarith

/-! ### Pure -/

variable {m k : ℕ}

/-- What the calls keep in pure mode, with `m` calls in a period and the output high in `k` of
them. -/
structure PureInv (R : PwmRun) (m k n : ℕ) : Prop where
  periodTimer : (R.state n).periodTimer = (n % m : ℕ) * R.periodns
  output : (R.state n).currOutput = true ↔ m ≤ n ∧ n % m < k
  highTimer : (R.state n).currOutput = true → (R.state n).highTimer = (n % m : ℕ) * R.periodns

/-- A period starts with every `m`-th call. -/
lemma PureInv.start_iff (h : PureInv R m k n) (hm : 0 < m) (hT : 0 < R.periodns)
    (hP : R.params.period = m * R.periodns) : R.Start n ↔ (n + 1) % m = 0 := by
  have hlt := Nat.mod_lt n hm
  have hsum : ((n % m : ℕ) : ℤ) * R.periodns + R.periodns = ((n % m + 1 : ℕ) : ℤ) * R.periodns := by
    push_cast
    ring
  have hiff : R.Start n ↔ m ≤ n % m + 1 := by
    rw [Start, hP, h.periodTimer, hsum, mul_le_mul_iff_left₀ hT, Nat.cast_le]
  rw [hiff, ← Turns.next_mod hm, Turns.next]
  split_ifs with hle
  · exact ⟨fun _ => rfl, fun _ => hle⟩
  · exact ⟨fun h => absurd h hle, fun h => absurd h (by simp)⟩

lemma state_succ_pure (hmode : R.params.mode = .pure) :
    (R.state (n + 1)).periodTimer =
      (if R.Start n then 0 else (R.state n).periodTimer + R.periodns) ∧
    (R.state (n + 1)).highTimer = (if R.Start n then 0
      else if (R.state n).currOutput = true then (R.state n).highTimer + R.periodns
      else (R.state n).highTimer) ∧
    ((R.state (n + 1)).currOutput = true ↔ ((R.state n).currOutput = true ∧
      (R.state n).highTimer + R.periodns < R.params.highTime) ∨
        R.Start n ∧ 0 < R.params.highTime) := by
  have hstep : R.state (n + 1) =
      ((R.state n).pureStep R.periodns R.params).output R.outputType R.params := by
    rw [state_succ, PwmTimers.makePulses, PwmTimers.modeStep, hmode]
  have hend : R.Start n ↔ R.params.period ≤ (R.state n).periodTimer + R.periodns := Iff.rfl
  simp only [hstep, PwmTimers.output, PwmTimers.pureStep, hend]
  generalize R.state n = s
  obtain ⟨r, y, out, pins⟩ := s
  cases out <;> by_cases hp : R.params.period ≤ r + R.periodns <;> simp [hp]

lemma PureInv.succ (h : PureInv R m k n) (hmode : R.params.mode = .pure) (hm : 0 < m)
    (hT : 0 < R.periodns) (hP : R.params.period = m * R.periodns)
    (hH : R.params.highTime = k * R.periodns) : PureInv R m k (n + 1) := by
  obtain ⟨hper, hhigh, hout⟩ := state_succ_pure (n := n) hmode
  have hnext : (n + 1) % m = Turns.next m (n % m) := (Turns.next_mod hm).symm
  have hlt := Nat.mod_lt n hm
  have hle := Nat.mod_le n m
  by_cases hend : R.Start n
  · -- the next period starts
    have h0 := (h.start_iff hm hT hP).1 hend
    have hge : m ≤ n + 1 := by
      rw [hnext, Turns.next] at h0
      split_ifs at h0
      omega
    have hno : ¬ ((R.state n).currOutput = true ∧ k = 0) := by
      rintro ⟨hc, rfl⟩
      exact absurd (h.output.1 hc).2 (Nat.not_lt_zero _)
    rw [if_pos hend] at hper hhigh
    refine ⟨by rw [hper, h0]; simp, ?_, fun _ => by rw [hhigh, h0]; simp⟩
    rw [hout, h0, hH, mul_pos_iff_of_pos_right hT, Nat.cast_pos]
    constructor
    · rintro (⟨hc, -⟩ | ⟨-, hk⟩)
      · exact ⟨hge, Nat.pos_of_ne_zero fun hk => hno ⟨hc, hk⟩⟩
      · exact ⟨hge, hk⟩
    · exact fun hk => .inr ⟨hend, hk.2⟩
  · have hmod : (n + 1) % m = n % m + 1 := by
      rw [hnext, Turns.next]
      have h0 := mt (h.start_iff hm hT hP).2 hend
      rw [hnext, Turns.next] at h0
      split_ifs at h0 ⊢
      · exact absurd rfl h0
      · rfl
    have hge : m ≤ n + 1 ↔ m ≤ n := by
      refine ⟨fun hle' => ?_, fun hle' => by omega⟩
      by_contra hlt'
      have hn : n + 1 = m := by omega
      rw [hn, Nat.mod_self] at hmod
      omega
    have hsum : ((n % m : ℕ) : ℤ) * R.periodns + R.periodns =
        ((n % m + 1 : ℕ) : ℤ) * R.periodns := by
      push_cast
      ring
    rw [if_neg hend] at hper hhigh
    have hout' : (R.state (n + 1)).currOutput = true ↔ (R.state n).currOutput = true ∧
        n % m + 1 < k := by
      rw [hout]
      constructor
      · rintro (⟨hc, hy⟩ | ⟨hs, -⟩)
        · rw [h.highTimer hc, hsum, hH, mul_lt_mul_iff_left₀ hT, Nat.cast_lt] at hy
          exact ⟨hc, hy⟩
        · exact absurd hs hend
      · rintro ⟨hc, hk⟩
        refine .inl ⟨hc, ?_⟩
        rw [h.highTimer hc, hsum, hH, mul_lt_mul_iff_left₀ hT, Nat.cast_lt]
        exact hk
    refine ⟨by rw [hper, h.periodTimer, hsum, hmod], ?_, fun hc => ?_⟩
    · rw [hout', h.output, hmod, hge]
      omega
    · have hc' := (hout'.1 hc).1
      rw [hhigh, if_pos hc', h.highTimer hc', hsum, hmod]

lemma pureInv (hmode : R.params.mode = .pure) (hm : 0 < m) (hT : 0 < R.periodns)
    (hP : R.params.period = m * R.periodns) (hH : R.params.highTime = k * R.periodns) (n : ℕ) :
    PureInv R m k n := by
  induction n with
  | zero =>
    have hc : (R.state 0).currOutput = false := rfl
    refine ⟨?_, ?_, fun h => absurd (hc.symm.trans h) Bool.false_ne_true⟩
    · rw [Nat.zero_mod]
      exact (zero_mul R.periodns).symm
    · rw [hc]
      exact ⟨fun h => absurd h Bool.false_ne_true, fun h => by omega⟩
  | succ n ih => exact ih.succ hmode hm hT hP hH

/-- In each period the output is high in the first `k` of `m` calls. -/
lemma highs_pure (h : ∀ n, PureInv R m k n) (hm : 0 < m) (hT : 0 < R.periodns)
    (hP : R.params.period = m * R.periodns) (hend : R.Start n) :
    ∀ j ≤ m, R.highs (n + j) = R.highs n + min j k := by
  have h0 := ((h n).start_iff hm hT hP).1 hend
  have hge : m ≤ n + 1 := Nat.le_of_dvd (by omega) (Nat.dvd_of_mod_eq_zero h0)
  intro j
  induction j with
  | zero => exact fun _ => by simp
  | succ j ih =>
    intro hj
    have hmod : (n + j + 1) % m = j := by
      rw [show n + j + 1 = n + 1 + j by omega, Nat.add_mod, h0, Nat.zero_add, Nat.mod_mod,
        Nat.mod_eq_of_lt (by omega)]
    have hhigh : (R.state (n + j + 1)).currOutput = true ↔ j < k := by
      rw [(h (n + j + 1)).output, hmod]
      exact ⟨fun h => h.2, fun h => ⟨by omega, h⟩⟩
    rw [← Nat.add_assoc, highs_succ, ih (by omega)]
    simp only [hhigh]
    split_ifs <;> omega

end PwmRun

/-- The output is high for the commanded time. In pure mode, with `m` calls in a period and a
high time of `k` of them, every `m`-th call starts a period, and the output is high after `k` of
the calls of each; in dither mode the periods have their length, and at the end of each one the
output has been high for the high time of all of them, but for 2 base periods at most; in PDM
mode it has been after every call, but for a base period; up and down are never both high. -/
theorem pwm_duty (R : PwmRun) (hT : 0 < R.periodns) (hH : 0 ≤ R.params.highTime)
    (hle : R.params.highTime ≤ R.params.period) :
    (R.params.mode = .pure → ∀ m k : ℕ, 2 ≤ m → R.params.period = m * R.periodns →
      R.params.highTime = k * R.periodns →
      ∀ n, (R.Start n ↔ m ∣ n + 1) ∧ (R.Start n → R.highs (n + m) = R.highs n + k)) ∧
    (R.params.mode = .dither → 2 * R.periodns ≤ R.params.period →
      ∀ n, R.starts n * R.params.period ≤ n * R.periodns ∧
        n * R.periodns < (R.starts n + 1) * R.params.period ∧
        (R.Start n →
          |R.highs n * R.periodns - R.starts n * R.params.highTime| ≤ 2 * R.periodns)) ∧
    (R.params.mode = .pdm → R.params.period = R.periodns →
      ∀ n, |R.highs n * R.periodns - n * R.params.highTime| ≤ R.periodns) ∧
    (2 ≤ R.outputType → ∀ n, ¬ ((R.state n).out.1 = true ∧ (R.state n).out.2 = true)) := by
  refine ⟨fun hmode m k hm hP hk n => ?_, fun hmode hP n => ?_, fun hmode hP n => ?_,
    fun htype n => R.not_both n htype⟩
  · have hpos : 0 < m := by omega
    have hinv := PwmRun.pureInv hmode hpos hT hP hk
    have hkm : k ≤ m := by
      rw [hk, hP, mul_le_mul_iff_left₀ hT, Nat.cast_le] at hle
      exact hle
    refine ⟨?_, fun hend => ?_⟩
    · rw [(hinv n).start_iff hpos hT hP, Nat.dvd_iff_mod_eq_zero]
    · rw [PwmRun.highs_pure hinv hpos hT hP hend m (le_refl m), Nat.min_eq_right hkm]
  · have hinv := PwmRun.ditherInv hmode hT (by omega) hH hle n
    have hper := hinv.periodTimer
    have h0 := hinv.nonneg
    have hlt := hinv.lt
    refine ⟨by linarith, by linarith, fun hend => ?_⟩
    have hduty := hinv.duty hle hT hend
    linarith
  · exact (PwmRun.pdmInv hmode hH (by omega) hT n).duty

/-- A pure mode with 3 of 4 calls, from the disabled state: the first period starts with the
fourth call. -/
theorem pwm_duty_three_of_four :
    PwmRun.Start ⟨0, 50, ⟨200, 150, .pure, false⟩, ⟨7, 7, true, (true, true)⟩⟩ 3 ∧
    PwmRun.highs ⟨0, 50, ⟨200, 150, .pure, false⟩, ⟨7, 7, true, (true, true)⟩⟩ 7 = 3 := by
  have h := (pwm_duty ⟨0, 50, ⟨200, 150, .pure, false⟩, ⟨7, 7, true, (true, true)⟩⟩ (by decide)
    (by decide) (by decide)).1 rfl 4 3 (by decide) (by decide) (by decide) 3
  have hstart := h.1.2 (by decide)
  refine ⟨hstart, (h.2 hstart).trans ?_⟩
  decide

end MachinekitHal
