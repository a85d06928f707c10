import MachinekitHal.Lib.Runs
import MachinekitHal.Lib.Word

/-!
The timing parameters of `stepgen.c`, for one channel.

`update_freq` rounds each parameter up to a multiple of the base period, but only examines
those that differ from the value it has remembered. A change of the base period makes it
forget these values.

* `ulceil`, `TimingParam.examine`, `StepgenParams.updateFreq`: the source.
* `TimingRun`: with the values last requested; `TimingRun.step` is a write of a parameter, a
  call of `make_pulses`, which sets the base period, or a call of `update_freq`.
* `Normalised`: what is asked for after `update_freq`.
* `UpdateOk`: the values fit 32 bits when rounded, and the delays for a change of direction
  are not both 0 behind the back of the one branch that looks at them.
* `timing_normalised`: the runs whose calls of `update_freq` are `UpdateOk`;
  `timing_not_normalised` is a run to two delays of 0.
-/

namespace MachinekitHal

open Runs Word
open Function (update)

/-- The integral multiple of `increment` that is greater or equal to `value`, in
`unsigned long`. -/
def ulceil (value increment : ℕ) : ℕ :=
  if value = 0 then 0 else increment * ((value - 1) / increment + 1) % 2 ^ 64

/-- `~0` as a value of 32 bits. -/
def notSeen : ℕ := 2 ^ 32 - 1

/-- Rounding up is by less than the increment. -/
lemma ulceil_spec {v p : ℕ} (hv : v < 2 ^ 32) (hp : 0 < p) (hp' : p < 2 ^ 32) :
    p ∣ ulceil v p ∧ v ≤ ulceil v p ∧ ulceil v p < v + p := by
  rw [ulceil]
  split_ifs with h0
  · exact ⟨dvd_zero p, by omega, by omega⟩
  · have hlo : v - 1 < p * ((v - 1) / p + 1) := Nat.lt_mul_div_succ _ hp
    have hhi : p * ((v - 1) / p + 1) ≤ v - 1 + p := by
      rw [Nat.mul_succ]
      exact Nat.add_le_add_right (Nat.mul_div_le _ _) p
    rw [Nat.mod_eq_of_lt (by omega)]
    exact ⟨dvd_mul_right _ _, by omega, by omega⟩

/-- A multiple is rounded to itself. -/
lemma ulceil_of_dvd {v p : ℕ} (hv : v < 2 ^ 32) (hp : 0 < p) (hp' : p < 2 ^ 32) (h : p ∣ v) :
    ulceil v p = v := by
  obtain ⟨hd, hle, hlt⟩ := ulceil_spec hv hp hp'
  have hsub : ulceil v p - v = 0 :=
    Nat.eq_zero_of_dvd_of_lt (Nat.dvd_sub hd h) (by omega)
  omega

/-- A timing parameter and the value used to detect its changes. -/
structure TimingParam where
  value : ℕ
  old : ℕ
  deriving DecidableEq

/-- The timing parameters. -/
inductive TimingName where
  | stepLen
  | stepSpace
  | dirHoldDly
  | dirSetup
  deriving DecidableEq

namespace TimingParam

/-- A new value is made a multiple of the period, after `fix`. -/
def examine (periodns : ℕ) (fix : ℕ → ℕ) (x : TimingParam) : TimingParam :=
  if x.value ≠ x.old then
    let old := wrap32 (ulceil (fix x.value) periodns)
    ⟨old, old⟩
  else x

/-- The remembered value is one that was rounded to the period, or there is none. -/
def Seen (p : ℕ) (x : TimingParam) : Prop := x.old = notSeen ∨ p ∣ x.old

/-- The parameter `y` is `x` made a multiple of the period, and remembered. -/
structure Rounded (p : ℕ) (x y : TimingParam) : Prop where
  old : y.old = y.value
  dvd : p ∣ y.value
  le : x.value ≤ y.value
  lt : y.value < 2 ^ 32

section Examine

variable {p : ℕ} {fix : ℕ → ℕ} {x : TimingParam}

/-- A value that is not examined is a multiple already. -/
lemma Seen.dvd (hx : x.Seen p) (hp : 0 < p) (hp' : p < 2 ^ 32) (hv : x.value < 2 ^ 32)
    (hfit : ulceil x.value p < 2 ^ 32) (h : x.value = x.old) : p ∣ x.value := by
  rcases hx with hx | hx
  · obtain ⟨hd, hle, -⟩ := ulceil_spec hv hp hp'
    have hmax : ulceil x.value p = x.value := by
      rw [notSeen] at hx
      omega
    exact hmax ▸ hd
  · rw [h]
    exact hx

/-- A value that is examined is that of `fix`, rounded. -/
lemma examine_of_ne (h : x.value ≠ x.old) (hfit : ulceil (fix x.value) p < 2 ^ 32) :
    x.examine p fix = ⟨ulceil (fix x.value) p, ulceil (fix x.value) p⟩ := by
  simp only [examine, if_pos h, wrap32_of_lt hfit]

lemma examine_of_eq (h : x.value = x.old) : x.examine p fix = x := if_neg (not_not.2 h)

/-- With `fix` changing the value, if it is examined, from 0 to 1 at most. -/
lemma Seen.examine (hx : x.Seen p) (hp : 0 < p) (hp' : p < 2 ^ 32) (hv : x.value < 2 ^ 32)
    (hfit : ulceil x.value p < 2 ^ 32)
    (hfix : x.value ≠ x.old → fix x.value = x.value ∨ x.value = 0 ∧ fix x.value = 1) :
    Rounded p x (x.examine p fix) ∧ (x.value ≠ x.old → fix x.value ≤ (x.examine p fix).value) := by
  by_cases h : x.value = x.old
  · rw [examine_of_eq h]
    exact ⟨⟨h.symm, hx.dvd hp hp' hv hfit h, le_rfl, hv⟩, fun hne => absurd h hne⟩
  · have hle : x.value ≤ fix x.value ∧ fix x.value < 2 ^ 32 := by
      rcases hfix h with hf | ⟨hf0, hf⟩ <;> omega
    obtain ⟨hd, hup, hlt⟩ := ulceil_spec hle.2 hp hp'
    have hfit' : ulceil (fix x.value) p < 2 ^ 32 := by
      rcases hfix h with hf | ⟨hf0, hf⟩
      · rw [hf]
        exact hfit
      · omega
    rw [examine_of_ne h hfit']
    exact ⟨⟨rfl, hd, hle.1.trans hup, hfit'⟩, fun _ => hup⟩

end Examine

end TimingParam

/-- The part of `stepgen_t` about the timing parameters, with the base period. -/
structure StepgenParams where
  stepType : ℕ
  periodns : ℕ
  oldPeriodns : ℕ
  param : TimingName → TimingParam

namespace StepgenParams

variable (s : StepgenParams)

/-- The parameter as it is processed: a change of the period forces it to be examined. -/
def current (n : TimingName) : TimingParam :=
  if s.periodns ≠ s.oldPeriodns then ⟨(s.param n).value, notSeen⟩ else s.param n

/-- The setup delay after its branch, which is in front of that of the hold delay. -/
def dirSetup : TimingParam := (s.current .dirSetup).examine s.periodns id

/-- What the branches do with a new value before they round it. -/
def fix : TimingName → ℕ → ℕ
  -- must be non-zero
  | .stepLen, v => if v = 0 then 1 else v
  | .stepSpace, v => v
  | .dirSetup, v => v
  -- dirdelay must be non-zero step types 0 and 1
  | .dirHoldDly, v => if wrap32 (v + s.dirSetup.value) = 0 ∧ s.stepType < 2 then 1 else v

/-- The part of `update_freq` about the timing parameters. -/
def updateFreq : StepgenParams :=
  { s with
    oldPeriodns := s.periodns
    param := fun n => (s.current n).examine s.periodns (s.fix n) }

/-- What `export_stepgen` sets for a stepping type. -/
def init (stepType : ℕ) : StepgenParams where
  stepType := stepType
  periodns := 50000
  oldPeriodns := 50000
  param := fun
    | .stepLen => ⟨1, notSeen⟩
    | .stepSpace => ⟨if stepType < 2 then 1 else 0, notSeen⟩
    | .dirHoldDly => ⟨1, notSeen⟩
    | .dirSetup => ⟨if stepType = 0 then 1 else 0, notSeen⟩

/-- What `update_freq` needs to find. -/
structure UpdateOk : Prop where
  period : s.periodns < 2 ^ 32
  fit : ∀ n, ulceil (s.param n).value s.periodns < 2 ^ 32
  /-- The sum of the delays is not taken for 0. -/
  sum : s.stepType < 2 → (s.current .dirHoldDly).value ≠ (s.current .dirHoldDly).old →
    (s.param .dirHoldDly).value + ulceil (s.param .dirSetup).value s.periodns ≠ 2 ^ 32
  /-- The hold delay is examined, or one of the delays is not 0. -/
  dir : s.stepType < 2 → (s.current .dirHoldDly).value = (s.current .dirHoldDly).old →
    (s.param .dirHoldDly).value ≠ 0 ∨ (s.param .dirSetup).value ≠ 0

section UpdateFreq

variable {s}

/-- The values do not depend on what is remembered. -/
@[simp] lemma current_value (n : TimingName) : (s.current n).value = (s.param n).value := by
  rw [current]
  split_ifs <;> rfl

/-- What the processing relies on: the values have 32 bits, and the remembered ones were
rounded to the last period. -/
structure Remembers (s : StepgenParams) : Prop where
  period : 0 < s.periodns
  lt : ∀ n, (s.param n).value < 2 ^ 32
  seen : ∀ n, (s.param n).Seen s.oldPeriodns
  stepLen : (s.param .stepLen).old ≠ 0

/-- A change of the period leaves nothing remembered. -/
lemma Remembers.current (h : s.Remembers) (n : TimingName) :
    (s.current n).Seen s.periodns ∧ (s.current .stepLen).old ≠ 0 := by
  rw [StepgenParams.current, StepgenParams.current]
  by_cases hp : s.periodns = s.oldPeriodns
  · rw [if_neg (not_not.2 hp), if_neg (not_not.2 hp), hp]
    exact ⟨h.seen n, h.stepLen⟩
  · rw [if_pos hp, if_pos hp]
    exact ⟨.inl rfl, show notSeen ≠ 0 by decide⟩

variable (h : s.Remembers) (hok : s.UpdateOk)

include h hok

/-- The setup delay is rounded, examined or not. -/
lemma UpdateOk.dirSetup :
    s.dirSetup.value = ulceil (s.param .dirSetup).value s.periodns := by
  have hfit := hok.fit .dirSetup
  have hlt := h.lt .dirSetup
  rw [← current_value] at hfit hlt ⊢
  rw [StepgenParams.dirSetup]
  by_cases he : (s.current .dirSetup).value = (s.current .dirSetup).old
  · rw [TimingParam.examine_of_eq he, ulceil_of_dvd hlt h.period hok.period
      ((h.current .dirSetup).1.dvd h.period hok.period hlt hfit he)]
  · rw [TimingParam.examine_of_ne he hfit]
    rfl

/-- A value that is examined is changed from 0 to 1 at most. -/
lemma UpdateOk.fix (n : TimingName) (hne : (s.current n).value ≠ (s.current n).old) :
    s.fix n (s.param n).value = (s.param n).value ∨
      (s.param n).value = 0 ∧ s.fix n (s.param n).value = 1 := by
  cases n with
  | stepLen =>
    by_cases h0 : (s.param .stepLen).value = 0
    · exact .inr ⟨h0, if_pos h0⟩
    · exact .inl (if_neg h0)
  | stepSpace => exact .inl rfl
  | dirSetup => exact .inl rfl
  | dirHoldDly =>
    by_cases h0 : wrap32 ((s.param .dirHoldDly).value + s.dirSetup.value) = 0 ∧ s.stepType < 2
    · refine .inr ⟨?_, if_pos h0⟩
      -- the sum of 32 bits is 0, but not because it wraps
      have hsum := hok.sum h0.2 hne
      have hlt := h.lt .dirHoldDly
      have hfit := hok.fit .dirSetup
      rw [hok.dirSetup h, wrap32] at h0
      omega
    · exact .inl (if_neg h0)

/-- Each branch makes its parameter a multiple of the period. -/
lemma UpdateOk.examine (n : TimingName) :
    (s.current n).Rounded s.periodns (s.updateFreq.param n) ∧
      ((s.current n).value ≠ (s.current n).old →
        s.fix n (s.param n).value ≤ (s.updateFreq.param n).value) := by
  have hfit := hok.fit n
  have hlt := h.lt n
  have hfix := hok.fix h n
  rw [← current_value] at hfit hlt hfix ⊢
  exact (h.current n).1.examine h.period hok.period hlt hfit hfix

/-- A parameter does not get smaller. -/
lemma UpdateOk.le (n : TimingName) : (s.param n).value ≤ (s.updateFreq.param n).value := by
  have hle := (hok.examine h n).1.le
  rwa [current_value] at hle

/-- The length of a step is examined when it is 0. -/
lemma UpdateOk.stepLen_ne_zero : (s.updateFreq.param .stepLen).value ≠ 0 := by
  by_cases h0 : (s.param .stepLen).value = 0
  · have hne : (s.current .stepLen).value ≠ (s.current .stepLen).old := by
      rw [current_value, h0]
      exact (h.current .stepLen).2.symm
    have hfix : s.fix .stepLen (s.param .stepLen).value = 1 := if_pos h0
    have hle := (hok.examine h .stepLen).2 hne
    omega
  · have hle := hok.le h .stepLen
    omega

/-- The delays for a change of direction are not both 0. -/
lemma UpdateOk.dir_ne_zero (ht : s.stepType < 2) :
    (s.updateFreq.param .dirHoldDly).value + (s.updateFreq.param .dirSetup).value ≠ 0 := by
  have hhold := hok.le h .dirHoldDly
  have hsetup := hok.le h .dirSetup
  by_cases he : (s.current .dirHoldDly).value = (s.current .dirHoldDly).old
  · have hdir := hok.dir ht he
    omega
  · intro hsum
    have hs0 : s.dirSetup.value = 0 := (Nat.add_eq_zero_iff.1 hsum).2
    have hh0 : (s.param .dirHoldDly).value = 0 := by omega
    have hfix : s.fix .dirHoldDly (s.param .dirHoldDly).value = 1 :=
      if_pos ⟨by rw [hh0, hs0]; rfl, ht⟩
    have hle := (hok.examine h .dirHoldDly).2 he
    omega

/-- What is remembered after the call. -/
lemma UpdateOk.remembers : s.updateFreq.Remembers where
  period := h.period
  lt n := (hok.examine h n).1.lt
  seen n := by
    have hr := (hok.examine h n).1
    refine .inr ?_
    rw [hr.old]
    exact hr.dvd
  stepLen := by
    rw [(hok.examine h .stepLen).1.old]
    exact hok.stepLen_ne_zero h

end UpdateFreq

end StepgenParams

/-- The parameters with the values last requested. -/
structure TimingRun extends StepgenParams where
  requested : TimingName → ℕ

/-- What can happen: the user writes a parameter, `make_pulses` runs with some period,
`update_freq` runs. -/
inductive TimingAct where
  | write (n : TimingName) (v : ℕ)
  | makePulses (period : ℕ)
  | updateFreq

namespace TimingRun

/-- One step of a run; values are `hal_u32_t`, the period is a positive `long`. -/
def step (s : TimingRun) : TimingAct → Option TimingRun
  | .write n v =>
    if v < 2 ^ 32 then
      some { s with
        param := update s.param n ⟨v, (s.param n).old⟩
        requested := update s.requested n v }
    else none
  | .makePulses period =>
    if 0 < period ∧ period < 2 ^ 63 then some { s with periodns := period } else none
  | .updateFreq => some { s with toStepgenParams := s.toStepgenParams.updateFreq }

/-- The start: what is requested are the defaults. -/
def init (stepType : ℕ) : TimingRun where
  toStepgenParams := .init stepType
  requested n := ((StepgenParams.init stepType).param n).value

/-- What is asked for after `update_freq`. -/
structure Normalised (s : TimingRun) : Prop where
  dvd : ∀ n, s.periodns ∣ (s.param n).value
  le : ∀ n, s.requested n ≤ (s.param n).value
  stepLen : (s.param .stepLen).value ≠ 0
  dir : s.stepType < 2 → (s.param .dirHoldDly).value + (s.param .dirSetup).value ≠ 0

/-- The guard of the runs: `update_freq` finds values it can handle. -/
def Guarded (s : TimingRun) : TimingAct → Prop
  | .updateFreq => s.UpdateOk
  | _ => True

section Runs

variable {s t : TimingRun} {a : TimingAct}

/-- What holds in a run: the parameters are at least what was requested. -/
structure Kept (s : TimingRun) : Prop where
  remembers : s.Remembers
  le : ∀ n, s.requested n ≤ (s.param n).value

lemma kept_init (stepType : ℕ) : (init stepType).Kept where
  remembers := by
    refine ⟨show 0 < 50000 by decide, fun n => ?_, fun n => ?_, show notSeen ≠ 0 by decide⟩
    · cases n
      all_goals
        simp only [init, StepgenParams.init]
        try split_ifs
        all_goals decide
    · cases n <;> exact .inl rfl
  le _ := le_rfl

/-- A write changes one value, and the request with it. -/
lemma Kept.write (h : s.Kept) {n : TimingName} {v : ℕ} (hv : v < 2 ^ 32) :
    ({ s with
        param := update s.param n ⟨v, (s.param n).old⟩
        requested := update s.requested n v } : TimingRun).Kept := by
  have hold m : (update s.param n ⟨v, (s.param n).old⟩ m).old = (s.param m).old := by
    rw [Function.apply_update (fun _ => TimingParam.old), Function.update_eq_self_iff.2 rfl]
  refine ⟨⟨h.remembers.period, ?_, fun m => ?_, ?_⟩, fun m => ?_⟩
  · exact (Function.forall_update_iff s.param (p := fun _ x => x.value < 2 ^ 32)).2
      ⟨hv, fun m _ => h.remembers.lt m⟩
  · rw [TimingParam.Seen, hold]
    exact h.remembers.seen m
  · rw [hold]
    exact h.remembers.stepLen
  · show update s.requested n v m ≤ (update s.param n _ m).value
    by_cases hm : m = n
    · subst hm
      rw [Function.update_self, Function.update_self]
    · rw [Function.update_of_ne hm, Function.update_of_ne hm]
      exact h.le m

/-- What `update_freq` leaves. -/
lemma Kept.updateFreq (h : s.Kept) (hok : s.UpdateOk) :
    ({ s with toStepgenParams := s.toStepgenParams.updateFreq } : TimingRun).Kept ∧
      ({ s with toStepgenParams := s.toStepgenParams.updateFreq } : TimingRun).Normalised :=
  have hle n := (h.le n).trans (hok.le h.remembers n)
  ⟨⟨hok.remembers h.remembers, hle⟩,
    ⟨fun n => (hok.examine h.remembers n).1.dvd, hle, hok.stepLen_ne_zero h.remembers,
      hok.dir_ne_zero h.remembers⟩⟩

lemma Kept.step (h : s.Kept) (hok : s.Guarded a) (hs : s.step a = some t) : t.Kept := by
  cases a with
  | write n v =>
    rw [TimingRun.step] at hs
    split_ifs at hs with hv
    cases hs
    exact h.write hv
  | makePulses period =>
    rw [TimingRun.step] at hs
    split_ifs at hs with hp
    cases hs
    exact ⟨⟨hp.1, h.remembers.lt, h.remembers.seen, h.remembers.stepLen⟩, h.le⟩
  | updateFreq =>
    cases hs
    exact (h.updateFreq hok).1

end Runs

end TimingRun

open TimingRun

/-- The timing parameters after every `update_freq` of a run in which it always finds values
it can handle. -/
theorem timing_normalised (stepType : ℕ) {s t : TimingRun}
    (hs : Reach TimingRun.step Guarded (init stepType) s)
    (hok : s.Guarded .updateFreq) (ht : s.step .updateFreq = some t) : t.Normalised := by
  have hkept : s.Kept := hs.invariant (kept_init stepType) fun h hok hs => h.step hok hs
  cases ht
  exact (hkept.updateFreq hok).2

/-- A length of 60000 ns becomes two periods. -/
theorem timing_normalised_two_periods : ∃ s t : TimingRun,
    (init 0).step (.write .stepLen 60000) = some s ∧ s.step .updateFreq = some t ∧
      t.Normalised ∧ (t.param .stepLen).value = 100000 := by
  refine ⟨_, _, rfl, rfl, ?_, rfl⟩
  refine timing_normalised 0 (.tail .refl trivial (a := .write .stepLen 60000) rfl) ?_ rfl
  refine ⟨by decide, fun n => ?_, fun _ _ => by decide, fun _ _ => by decide⟩
  cases n <;> decide

/-- The hold delay is set to 0 beside a setup delay, `update_freq` runs, and the setup delay
is set to 0, too: the next `update_freq` does not look at the hold delay. -/
theorem timing_not_normalised : ¬ ∀ (stepType : ℕ) (s t : TimingRun),
    Reach TimingRun.step (fun _ _ => True) (init stepType) s →
      s.step .updateFreq = some t → t.Normalised := by
  intro h
  obtain ⟨s, hs, t, ht, h0, htype⟩ : ∃ s, run TimingRun.step (fun _ _ => true) (init 0)
      [.write .dirHoldDly 0, .updateFreq, .write .dirSetup 0] = some s ∧
      ∃ t, s.step .updateFreq = some t ∧
        (t.param .dirHoldDly).value + (t.param .dirSetup).value = 0 ∧ t.stepType = 0 :=
    ⟨_, rfl, _, rfl, rfl, rfl⟩
  have hnorm := h 0 s t ((reach_of_run _ _ hs).mono fun _ => trivial) ht
  exact hnorm.dir (by omega) h0

end MachinekitHal
