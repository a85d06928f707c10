import MachinekitHal.Lib.Pulses
import MachinekitHal.Components.Stepgen

/-!
The timing of the pulses of `stepgen.c`, for the stepping types 0 and 1.

* `StepInput`, `pulseRun`: what changes from call to call, and a run of `make_pulses`.
* `StepDirTiming`, `UpDownTiming`: what the pins obey; `StepDirClaim` asks for `step_space`
  in front of a step the other way, too, and for `dir_setup` after every change of direction.
* `Since`: the state some calls after the last step; `Since.makePulses` is one call.
* `stepgen_timing`: the timing in every run; `stepgen_timing_reversal` is a run in which two
  pulses are too close for `StepDirClaim`, and one in which a step follows a change of
  direction at once.
-/

namespace MachinekitHal

open Pulses Word

/-- The inputs of one call that change. -/
structure StepInput where
  enable : Bool
  targetAddval : ℤ
  deltalim : ℤ

/-- The parameters that stay the same. -/
structure StepDelays where
  period : ℕ
  stepLen : ℕ
  stepSpace : ℕ
  dirHold : ℕ
  dirSetup : ℕ

/-- What `stepgen.c` asks for: the delays are multiples of the period, only one of the last two
may be 0, and together they fit the timers. -/
structure StepDelays.Ok (t : StepDelays) : Prop where
  period : 0 < t.period
  len : t.period ∣ t.stepLen
  len_le : t.period ≤ t.stepLen
  space : t.period ∣ t.stepSpace
  space_le : t.period ≤ t.stepSpace
  hold : t.period ∣ t.dirHold
  setup : t.period ∣ t.dirSetup
  dir : 0 < t.dirHold + t.dirSetup
  fit : t.stepLen + t.dirHold + t.dirSetup < 2 ^ 32

/-- The parameters of a call. -/
def StepDelays.params (t : StepDelays) (i : StepInput) : MpParams :=
  ⟨i.targetAddval, i.deltalim, t.stepLen, t.dirHold, t.dirSetup⟩

/-- The greatest `addval`, for the greatest frequency. -/
def StepDelays.maxAddval (t : StepDelays) : ℕ := 2 ^ 28 * t.period / (t.stepLen + t.stepSpace)

/-- The frequency is in bounds, and `deltalim` is as `update_freq` computes it: it is not
negative, and adding it to an `addval` does not overflow. -/
structure StepInput.Ok (t : StepDelays) (i : StepInput) : Prop where
  target : |i.targetAddval| ≤ t.maxAddval
  lim : 0 ≤ i.deltalim
  fit : i.deltalim + 2 ^ 27 < 2 ^ 63

/-- The state in front of each call. -/
def pulseRun (cfg : StepConfig) (t : StepDelays) (inp : ℕ → StepInput) : ℕ → Stepgen
  | 0 => .init
  | n + 1 => (pulseRun cfg t inp n).makePulses cfg t.period (inp n).enable (t.params (inp n))

/-- An output pin. -/
def stepPin (cfg : StepConfig) (t : StepDelays) (inp : ℕ → StepInput) (pin : ℕ) (n : ℕ) : Bool :=
  (pulseRun cfg t inp n).phase pin

/-! ### The timing -/

/-- A pulse stays active for `step_len`. -/
def PulseLen (t : StepDelays) (step : ℕ → Bool) : Prop :=
  ∀ n m, Rise step n → n < m → (m - (n + 1)) * t.period < t.stepLen → step m = true

/-- The direction does not change during a pulse, nor within `dir_hold` after its end. -/
structure DirHold (t : StepDelays) (step dir : ℕ → Bool) : Prop where
  steady : ∀ n, step n = true → step (n + 1) = true → dir n = dir (n + 1)
  hold : ∀ n m, dir n ≠ dir (n + 1) → m ≤ n → step m = true → t.dirHold ≤ (n - m) * t.period

/-- The timing as the diagram of `stepgen.c` has it, with `step_space` between any two pulses
and `dir_setup` after any change of direction. -/
structure StepDirClaim (t : StepDelays) (step dir : ℕ → Bool) : Prop where
  len : PulseLen t step
  space : ∀ n m, NextPulse step n m → t.stepSpace ≤ (m - n) * t.period
  hold : DirHold t step dir
  setup : ∀ n m, dir n ≠ dir (n + 1) → Rise step m → n ≤ m → t.dirSetup ≤ (m - n) * t.period

/-- The time between two pulses, in one direction or not. -/
def PulseSpace (t : StepDelays) (step dir : ℕ → Bool) : Prop :=
  ∀ n m, NextPulse step n m →
    (dir n = dir (m + 1) → t.stepSpace ≤ (m - n) * t.period) ∧
    (dir n ≠ dir (m + 1) → t.dirHold + t.dirSetup ≤ (m - n) * t.period)

/-- The timing of step and direction. A reversal that is there when `dir_hold` has passed is
followed by `dir_setup`. -/
structure StepDirTiming (t : StepDelays) (step dir : ℕ → Bool) : Prop where
  len : PulseLen t step
  space : PulseSpace t step dir
  hold : DirHold t step dir
  setup : ∀ e n m, Fall step e → e ≤ n → (n - e) * t.period ≤ t.dirHold → dir n ≠ dir (n + 1) →
    Rise step m → n ≤ m → t.dirSetup ≤ (m - n) * t.period

/-- From the end of a pulse on one pin to the beginning of one on the other. -/
def HandOver (t : StepDelays) (pin other : ℕ → Bool) : Prop :=
  ∀ n m, Fall pin n → Rise other m → n ≤ m → t.dirHold + t.dirSetup ≤ (m - n) * t.period

/-- The timing of up and down. -/
structure UpDownTiming (t : StepDelays) (up down : ℕ → Bool) : Prop where
  one : ∀ n, ¬ (up n = true ∧ down n = true)
  lenUp : PulseLen t up
  lenDown : PulseLen t down
  space : PulseSpace t (fun n => up n || down n) down
  handDown : HandOver t up down
  handUp : HandOver t down up

/-! ### One call -/

/-- The state after some calls, `last` being the number of calls since the last step, if any,
and `d` the direction of that step. -/
structure Since (t : StepDelays) (last : Option ℕ) (d : ℤ) (s : Stepgen) : Prop where
  dirOk : s.DirOk d
  timer1 : s.timer1 = countdown last t.period t.stepLen
  timer2 : s.timer2 = countdown last t.period (t.stepLen + t.dirHold)
  timer3 : s.timer3 = countdown last t.period (t.stepLen + t.dirHold + t.dirSetup)
  addval : |s.addval| ≤ t.maxAddval
  /-- the accumulator has not been moved far beyond the last edge -/
  pos : ∃ b y : ℤ, s.accum = wrapLong (edgePos (2 ^ 28) d b y) ∧ 0 ≤ y ∧ y < 2 ^ 28 ∧
    ∀ age, last = some age → y < (age + 1) * t.maxAddval

section Call

variable {cfg : StepConfig} {t : StepDelays} {i : StepInput} {s : Stepgen} {last : Option ℕ}
  {d : ℤ}

lemma StepDelays.Ok.maxAddval_mul (_ht : t.Ok) :
    t.maxAddval * (t.stepLen + t.stepSpace) ≤ 2 ^ 28 * t.period := Nat.div_mul_le_self _ _

/-- The greatest `addval` is half the distance of two edges at most. -/
lemma StepDelays.Ok.maxAddval_le (ht : t.Ok) : t.maxAddval ≤ 2 ^ 27 := by
  have hmul := ht.maxAddval_mul
  have h1 := ht.len_le
  have h2 := ht.space_le
  refine Nat.le_of_mul_le_mul_right (c := 2 * t.period) ?_ (by have hperiod := ht.period; omega)
  calc t.maxAddval * (2 * t.period) ≤ t.maxAddval * (t.stepLen + t.stepSpace) :=
        Nat.mul_le_mul_left _ (by omega)
    _ ≤ 2 ^ 28 * t.period := hmul
    _ = 2 ^ 27 * (2 * t.period) := by ring

/-- Ramping keeps `addval` in bounds. -/
lemma abs_rampAddval_le (ht : t.Ok) (hi : i.Ok t) {old : ℤ} (hold : |old| ≤ t.maxAddval) :
    |rampAddval old i.targetAddval i.deltalim| ≤ t.maxAddval := by
  have hA := ht.maxAddval_le
  have hlim := hi.lim
  have hfit := hi.fit
  have htarget := hi.target
  rw [abs_le] at hold htarget ⊢
  have hadd : wrapLong (old + i.deltalim) = old + i.deltalim := wrapLong_eq (by omega) (by omega)
  have hsub : wrapLong (old - i.deltalim) = old - i.deltalim := wrapLong_eq (by omega) (by omega)
  rw [rampAddval, hadd, hsub]
  split_ifs <;> omega

/-- The `addval` after a call. -/
lemma Since.abs_nextAddval (h : Since t last d s) (ht : t.Ok) (hi : i.Ok t) :
    |s.nextAddval t.period i.enable (t.params i)| ≤ t.maxAddval := by
  rw [Stepgen.nextAddval]
  split
  · exact abs_rampAddval_le ht hi h.addval
  · exact h.addval

/-- What a call does to the accumulator: the movement `a` from the position `y` beyond an
edge, and a step if that passes an edge. -/
lemma Since.nextAccum (h : Since t last d s) (ht : t.Ok) (hi : i.Ok t) :
    ∃ b y a : ℤ, 0 ≤ y ∧ y < 2 ^ 28 ∧ (∀ age, last = some age → y < (age + 1) * t.maxAddval) ∧
      |a| ≤ t.maxAddval ∧ (a = 0 ∨ a = s.nextAddval t.period i.enable (t.params i)) ∧
      s.nextAccum t.period i.enable (t.params i) = wrapLong (edgePos (2 ^ 28) d b (y + d * a)) ∧
      (s.stepNow t.period i.enable (t.params i) ↔ y + d * a < 0 ∨ 2 ^ 28 ≤ y + d * a) := by
  obtain ⟨b, y, haccum, h0, hlt, hage⟩ := h.pos
  have hle := ht.maxAddval_le
  have hmove : ∃ a : ℤ, |a| ≤ t.maxAddval ∧
      (a = 0 ∨ a = s.nextAddval t.period i.enable (t.params i)) ∧
      s.nextAccum t.period i.enable (t.params i) =
        wrapLong (edgePos (2 ^ 28) d b (y + d * a)) := by
    rw [Stepgen.nextAccum]
    split
    · refine ⟨_, h.abs_nextAddval ht hi, .inr rfl, ?_⟩
      rw [haccum, wrapLong_add, edgePos_add h.dirOk.dir]
    · refine ⟨0, by simp, .inl rfl, ?_⟩
      rw [haccum, mul_zero, add_zero]
  obtain ⟨a, ha, hor, hnext⟩ := hmove
  refine ⟨b, y, a, h0, hlt, hage, ha, hor, hnext, ?_⟩
  have habs : -2 ^ 27 ≤ d * a ∧ d * a ≤ 2 ^ 27 := by
    rw [abs_le] at ha
    rcases h.dirOk.dir with rfl | rfl <;> omega
  rw [Stepgen.stepNow, hnext, haccum, pickoffBit_wrapLong, pickoffBit_wrapLong]
  exact edge_passed_iff (by norm_num) h.dirOk.dir h0 hlt (by omega) (by omega)

lemma Since.makePulses (h : Since t last d s) (ht : t.Ok) (hi : i.Ok t)
    (hs : ¬ s.stepNow t.period i.enable (t.params i)) :
    Since t (last.map (· + 1)) d (s.makePulses cfg t.period i.enable (t.params i)) := by
  have hdir : (s.makePulses cfg t.period i.enable (t.params i)).DirOk _ :=
    h.dirOk.makePulses ht.fit
  rw [if_neg hs] at hdir
  obtain ⟨h1, h2, h3⟩ := Stepgen.makePulses_timers_of_not_stepNow cfg hs
  obtain ⟨b, y, a, h0, hlt, hage, ha, -, hnext, hstep⟩ := h.nextAccum ht hi
  rw [hstep, not_or, not_lt, not_le] at hs
  refine ⟨hdir, ?_, ?_, ?_, h.abs_nextAddval ht hi, b, y + d * a, hnext, hs.1, hs.2, ?_⟩
  · rw [h1, h.timer1, countdown_sub]
  · rw [h2, h.timer2, countdown_sub]
  · rw [h3, h.timer3, countdown_sub]
  · intro age' hage'
    obtain ⟨age, rfl, rfl⟩ := Option.map_eq_some_iff.1 hage'
    have hy := hage age rfl
    have hda : d * a ≤ t.maxAddval := by
      rw [abs_le] at ha
      rcases h.dirOk.dir with rfl | rfl <;> omega
    push_cast
    linarith

/-- A call with a step: it is late enough. -/
lemma Since.makePulses_of_stepNow (h : Since t last d s) (ht : t.Ok) (hi : i.Ok t)
    (hs : s.stepNow t.period i.enable (t.params i)) :
    Since t (some 0) (s.nextDir t.period i.enable (t.params i))
        (s.makePulses cfg t.period i.enable (t.params i)) ∧
      ∀ age, last = some age →
        (s.nextDir t.period i.enable (t.params i) = d →
          t.stepLen + t.stepSpace ≤ (age + 1) * t.period) ∧
        (s.nextDir t.period i.enable (t.params i) ≠ d →
          t.stepLen + t.dirHold + t.dirSetup ≤ (age + 1) * t.period) := by
  have hdir : (s.makePulses cfg t.period i.enable (t.params i)).DirOk _ :=
    h.dirOk.makePulses ht.fit
  rw [if_pos hs] at hdir
  obtain ⟨h1, h2, h3⟩ := Stepgen.makePulses_timers_of_stepNow cfg (p := t.params i) ht.fit hs
  obtain ⟨hsign, hother⟩ := h.dirOk.stepNow hs
  obtain ⟨-, -, hne⟩ := Stepgen.stepNow_run hs
  obtain ⟨b, y, a, h0, hlt, hage, ha, hor, hnext, hstep⟩ := h.nextAccum ht hi
  have hA := ht.maxAddval_le
  have hmul := ht.maxAddval_mul
  have hcross := hstep.1 hs
  have ha0 : a ≠ 0 := by
    rintro rfl
    omega
  rw [← hor.resolve_left ha0] at hsign
  have hda : |d * a| ≤ t.maxAddval := by
    rcases h.dirOk.dir with rfl | rfl <;> simpa using ha
  rw [abs_le] at hda
  -- the direction of the step tells on which side the position has left
  have hsame : s.nextDir t.period i.enable (t.params i) = d ↔ 0 < d * a := by
    rw [hsign]
    rcases h.dirOk.dir with rfl | rfl
    · rw [Int.sign_eq_one_iff_pos, one_mul]
    · rw [Int.sign_eq_neg_one_iff_neg]
      omega
  have hpos : ∃ b' y' : ℤ, (s.makePulses cfg t.period i.enable (t.params i)).accum =
      wrapLong (edgePos (2 ^ 28) (s.nextDir t.period i.enable (t.params i)) b' y') ∧
      0 ≤ y' ∧ y' < t.maxAddval := by
    by_cases hd : s.nextDir t.period i.enable (t.params i) = d
    · refine ⟨b + d, y + d * a - 2 ^ 28, ?_, ?_, ?_⟩
      · rw [hd, ← edgePos_next h.dirOk.dir]
        exact hnext
      · have hcount := hsame.1 hd
        omega
      · omega
    · have hd' : s.nextDir t.period i.enable (t.params i) = -d := by
        rw [hsign] at hd ⊢
        rcases lt_or_gt_of_ne ha0 with hneg | hpos
        · rw [Int.sign_eq_neg_one_of_neg hneg] at hd ⊢
          rcases h.dirOk.dir with rfl | rfl <;> omega
        · rw [Int.sign_eq_one_of_pos hpos] at hd ⊢
          rcases h.dirOk.dir with rfl | rfl <;> omega
      refine ⟨b, -1 - (y + d * a), ?_, ?_, ?_⟩
      · rw [hd', ← edgePos_back h.dirOk.dir]
        exact hnext
      · have hcount := mt hsame.2 hd
        omega
      · omega
  refine ⟨?_, fun age hlast => ⟨fun hd => ?_, fun hd => ?_⟩⟩
  · obtain ⟨b', y', hacc, h0', hlt'⟩ := hpos
    refine ⟨hdir, ?_, ?_, ?_, h.abs_nextAddval ht hi, b', y', hacc, h0', ?_, ?_⟩
    · rw [h1, countdown_zero]
      rfl
    · rw [h2, countdown_zero]
      rfl
    · rw [h3, countdown_zero]
      rfl
    · omega
    · intro age hage
      cases hage
      simpa using hlt'
  · -- the next edge is far away
    have hy := hage age hlast
    have hda0 := hsame.1 hd
    refine slow_enough hmul (dvd_add ht.len ht.space) ?_
    zify
    push_cast
    have hreach : (2 : ℤ) ^ 28 ≤ y + d * a := by omega
    linarith
  · have h3' := hother hd
    rw [h.timer3, hlast] at h3'
    have h4 : t.stepLen + t.dirHold + t.dirSetup - age * t.period ≤ t.period := h3'
    rw [Nat.succ_mul]
    omega

end Call

/-! ### Runs -/

section Run

variable {cfg : StepConfig} {t : StepDelays} {inp : ℕ → StepInput} {n m k : ℕ}

/-- Call `n` makes a step. -/
def Stepped (cfg : StepConfig) (t : StepDelays) (inp : ℕ → StepInput) (n : ℕ) : Prop :=
  (pulseRun cfg t inp n).stepNow t.period (inp n).enable (t.params (inp n))

/-- The pulse is active. -/
def active (cfg : StepConfig) (t : StepDelays) (inp : ℕ → StepInput) (n : ℕ) : Bool :=
  (pulseRun cfg t inp n).timer1 ≠ 0

/-- The direction is negative. -/
def negDir (cfg : StepConfig) (t : StepDelays) (inp : ℕ → StepInput) (n : ℕ) : Bool :=
  (pulseRun cfg t inp n).currDir < 0

/-- `k` is the last call in front of call `n` that makes a step. -/
structure LastStep (cfg : StepConfig) (t : StepDelays) (inp : ℕ → StepInput) (k n : ℕ) : Prop where
  lt : k < n
  step : Stepped cfg t inp k
  last : ∀ m, k < m → m < n → ¬ Stepped cfg t inp m
  since : Since t (some (n - 1 - k)) (pulseRun cfg t inp (k + 1)).currDir (pulseRun cfg t inp n)

lemma LastStep.succ (h : LastStep cfg t inp k n) (ht : t.Ok) (hi : (inp n).Ok t)
    (hs : ¬ Stepped cfg t inp n) : LastStep cfg t inp k (n + 1) := by
  have hlt := h.lt
  refine ⟨by omega, h.step, fun m h1 h2 => ?_, ?_⟩
  · rcases Nat.lt_succ_iff_lt_or_eq.1 h2 with hm | rfl
    · exact h.last m h1 hm
    · exact hs
  · rw [show n + 1 - 1 - k = n - 1 - k + 1 by omega]
    exact h.since.makePulses ht hi hs

/-- In front of every call there is a last step, or none yet. -/
lemma pulseRun_lastStep (ht : t.Ok) (hinp : ∀ n, (inp n).Ok t) (n : ℕ) :
    (Since t none 1 (pulseRun cfg t inp n) ∧ ∀ m < n, ¬ Stepped cfg t inp m) ∨
      ∃ k, LastStep cfg t inp k n := by
  induction n with
  | zero =>
    refine .inl ⟨⟨.init, rfl, rfl, rfl, by simp [pulseRun, Stepgen.init], 0, 2 ^ 27, rfl,
      by norm_num, by norm_num, fun age h => by cases h⟩, fun m hm => absurd hm (by omega)⟩
  | succ n ih =>
    by_cases hs : Stepped cfg t inp n
    · -- call `n` itself is the last one
      have hsince : Since t (some 0) (pulseRun cfg t inp (n + 1)).currDir
          (pulseRun cfg t inp (n + 1)) := by
        rcases ih with ⟨h, -⟩ | ⟨k, h⟩
        · exact (h.makePulses_of_stepNow ht (hinp n) hs).1
        · exact (h.since.makePulses_of_stepNow ht (hinp n) hs).1
      refine .inr ⟨n, by omega, hs, fun m h1 h2 => absurd h1 (by omega), ?_⟩
      rwa [show n + 1 - 1 - n = 0 by omega]
    · rcases ih with ⟨h, hno⟩ | ⟨k, h⟩
      · refine .inl ⟨h.makePulses ht (hinp n) hs, fun m hm => ?_⟩
        rcases Nat.lt_succ_iff_lt_or_eq.1 hm with hm | rfl
        · exact hno m hm
        · exact hs
      · exact .inr ⟨k, h.succ ht (hinp n) hs⟩

/-- A step has a last step behind it. -/
lemma Stepped.lastStep (ht : t.Ok) (hinp : ∀ n, (inp n).Ok t) (hs : Stepped cfg t inp k)
    (hlt : k < n) : ∃ k', LastStep cfg t inp k' n ∧ k ≤ k' := by
  rcases pulseRun_lastStep ht hinp n with ⟨-, hno⟩ | ⟨k', h⟩
  · exact absurd hs (hno k hlt)
  · refine ⟨k', h, ?_⟩
    by_contra hk
    exact h.last k (by omega) hlt hs

/-- After a step the pulse is active for `step_len`. -/
lemma Stepped.isActive (ht : t.Ok) (hinp : ∀ n, (inp n).Ok t) (hs : Stepped cfg t inp k)
    (hlt : k < n) (hlen : (n - 1 - k) * t.period < t.stepLen) : active cfg t inp n = true := by
  obtain ⟨k', h, hle⟩ := hs.lastStep ht hinp hlt
  have hmono : (n - 1 - k') * t.period ≤ (n - 1 - k) * t.period :=
    Nat.mul_le_mul_right _ (by omega)
  rw [active, h.since.timer1, decide_eq_true_iff]
  show t.stepLen - (n - 1 - k') * t.period ≠ 0
  omega

/-- An active pulse comes from a step that was made less than `step_len` ago. -/
lemma lastStep_of_active (ht : t.Ok) (hinp : ∀ n, (inp n).Ok t)
    (ha : active cfg t inp n = true) :
    ∃ k, LastStep cfg t inp k n ∧ (n - k) * t.period ≤ t.stepLen := by
  rw [active, decide_eq_true_iff] at ha
  rcases pulseRun_lastStep ht hinp n with ⟨h, -⟩ | ⟨k, h⟩
  · exact absurd h.timer1 ha
  · rw [h.since.timer1] at ha
    have hlt : (n - 1 - k) * t.period < t.stepLen := by
      change t.stepLen - (n - 1 - k) * t.period ≠ 0 at ha
      omega
    have hle := succ_mul_le_of_dvd ht.len hlt
    have hkn := h.lt
    rw [show n - 1 - k + 1 = n - k by omega] at hle
    exact ⟨k, h, hle⟩

/-- A pulse begins with a step. -/
lemma Stepped.of_rise (hr : Rise (active cfg t inp) n) : Stepped cfg t inp n := by
  by_contra hs
  have h1 := (Stepgen.makePulses_timers_of_not_stepNow cfg hs).1
  have h0 : (pulseRun cfg t inp n).timer1 = 0 := by simpa [active] using hr.1
  have h2 : (pulseRun cfg t inp (n + 1)).timer1 ≠ 0 := by simpa [active] using hr.2
  exact h2 (h1.trans (by rw [h0, Nat.zero_sub]))

/-- The distance of a step from the last one. -/
lemma LastStep.gap (ht : t.Ok) (hinp : ∀ n, (inp n).Ok t) (h : LastStep cfg t inp k n)
    (hs : Stepped cfg t inp n) :
    (negDir cfg t inp (k + 1) = negDir cfg t inp (n + 1) →
      t.stepLen + t.stepSpace ≤ (n - k) * t.period) ∧
    (negDir cfg t inp (k + 1) ≠ negDir cfg t inp (n + 1) →
      t.stepLen + t.dirHold + t.dirSetup ≤ (n - k) * t.period) := by
  have hcall := @Since.makePulses_of_stepNow cfg _ _ _ _ _ h.since ht (hinp n) hs
  obtain ⟨hsince, hgap⟩ := hcall
  obtain ⟨hsame, hother⟩ := hgap _ rfl
  have hlt := h.lt
  rw [show n - 1 - k + 1 = n - k by omega] at hsame hother
  have hd := h.since.dirOk.dir
  have hd' := hsince.dirOk.dir
  have hcurr : (pulseRun cfg t inp (n + 1)).currDir =
      (pulseRun cfg t inp n).nextDir t.period (inp n).enable (t.params (inp n)) := rfl
  refine ⟨fun he => hsame ?_, fun hne => hother ?_⟩
  · rw [negDir, negDir, decide_eq_decide, hcurr] at he
    omega
  · rintro heq
    rw [negDir, negDir, hcurr, heq] at hne
    exact hne rfl

/-- The distance of two steps in different directions: somewhere between them two steps in a
row differ. -/
lemma Stepped.turn (ht : t.Ok) (hinp : ∀ n, (inp n).Ok t) (hk : Stepped cfg t inp k)
    (hm : Stepped cfg t inp m) (hlt : k < m)
    (hne : negDir cfg t inp (k + 1) ≠ negDir cfg t inp (m + 1)) :
    t.stepLen + t.dirHold + t.dirSetup ≤ (m - k) * t.period := by
  induction m using Nat.strong_induction_on with
  | _ m ih =>
    obtain ⟨k', hk', hle⟩ := hk.lastStep ht hinp hlt
    have hk'm := hk'.lt
    by_cases hdir : negDir cfg t inp (k' + 1) = negDir cfg t inp (m + 1)
    · have hkk' : k < k' := by
        rcases Nat.lt_or_eq_of_le hle with h | rfl
        · exact h
        · exact absurd hdir hne
      have hwait := ih k' hk'm hk'.step hkk' (by rwa [hdir])
      exact hwait.trans (Nat.mul_le_mul_right _ (by omega))
    · have hwait := (hk'.gap ht hinp hm).2 hdir
      exact hwait.trans (Nat.mul_le_mul_right _ (by omega))

/-- The direction of the last step stays until `dir_hold` has passed. -/
lemma LastStep.negDir_eq (h : LastStep cfg t inp k n)
    (hlt : (n - 1 - k) * t.period < t.stepLen + t.dirHold) :
    negDir cfg t inp n = negDir cfg t inp (k + 1) := by
  have h2 : (pulseRun cfg t inp n).timer2 ≠ 0 := by
    rw [h.since.timer2]
    show t.stepLen + t.dirHold - (n - 1 - k) * t.period ≠ 0
    omega
  rw [negDir, negDir, h.since.dirOk.currDir h2]

/-- The end of a pulse is `step_len` after the step. -/
lemma lastStep_of_fall (ht : t.Ok) (hinp : ∀ n, (inp n).Ok t) (hf : Fall (active cfg t inp) n) :
    ∃ k, LastStep cfg t inp k n ∧ (n - k) * t.period = t.stepLen ∧ ¬ Stepped cfg t inp n := by
  obtain ⟨k, h, hle⟩ := lastStep_of_active ht hinp hf.1
  have hlt := h.lt
  have hno : ∀ j, j < n + 1 → Stepped cfg t inp j → t.stepLen ≤ (n - j) * t.period := by
    intro j hj hs
    by_contra hlen
    have ha := hs.isActive ht hinp hj (by rw [Nat.add_sub_cancel]; omega)
    rw [hf.2] at ha
    cases ha
  refine ⟨k, h, le_antisymm hle (hno k (by omega) h.step), fun hs => ?_⟩
  have h0 := hno n (by omega) hs
  rw [Nat.sub_self, Nat.zero_mul] at h0
  have hlen := ht.len_le
  have hperiod := ht.period
  omega

/-! ### Step and direction -/

lemma active_pulseLen (ht : t.Ok) (hinp : ∀ n, (inp n).Ok t) :
    PulseLen t (active cfg t inp) := by
  intro n m hr hlt hlen
  have hs := Stepped.of_rise hr
  exact hs.isActive ht hinp hlt (by rwa [show m - 1 - n = m - (n + 1) by omega])

/-- Two pulses have their distance. -/
lemma active_pulseSpace (ht : t.Ok) (hinp : ∀ n, (inp n).Ok t) :
    PulseSpace t (active cfg t inp) (negDir cfg t inp) := by
  intro n m h
  obtain ⟨k, hk, hend, hno⟩ := lastStep_of_fall ht hinp h.fall
  have hs := Stepped.of_rise h.rise
  have hkn := hk.lt
  have hnm := h.lt
  have hlen := lt_of_lt_of_le ht.period ht.len_le
  -- there is no step between the pulses
  obtain ⟨k', hk', hle⟩ := hk.step.lastStep ht hinp (hkn.trans hnm)
  have hk'n : k' < n := by
    by_contra hge
    rcases Nat.lt_or_eq_of_le (not_lt.1 hge) with hgt | rfl
    · have ha := hk'.step.isActive ht hinp (Nat.lt_succ_self k') (by simpa using hlen)
      rw [h.low (k' + 1) (by omega) (by have hlt := hk'.lt; omega)] at ha
      cases ha
    · exact hno hk'.step
  obtain rfl : k' = k := by
    by_contra hne
    exact hk.last k' (by omega) hk'n hk'.step
  have hdir : negDir cfg t inp n = negDir cfg t inp (k' + 1) := by
    refine hk.negDir_eq ?_
    have hsucc := elapsed_succ (P := t.period) hkn
    have hper := ht.period
    omega
  have hadd : (m - k') * t.period = (m - n) * t.period + (n - k') * t.period :=
    elapsed_add (by omega) (by omega)
  obtain ⟨hsame, hother⟩ := hk'.gap ht hinp hs
  rw [hdir]
  refine ⟨fun he => ?_, fun hne => ?_⟩
  · have hwait := hsame he
    omega
  · have hwait := hother hne
    omega

/-- A change of direction comes when `dir_hold` has passed. -/
lemma LastStep.le_of_ne (h : LastStep cfg t inp k n)
    (hne : negDir cfg t inp n ≠ negDir cfg t inp (n + 1)) :
    t.stepLen + t.dirHold ≤ (n - k) * t.period := by
  have hkn := h.lt
  have h2 : (pulseRun cfg t inp n).timer2 =
      t.stepLen + t.dirHold - (n - 1 - k) * t.period := h.since.timer2
  have hsucc := elapsed_succ (P := t.period) hkn
  by_contra hlt
  have hdir : (pulseRun cfg t inp (n + 1)).currDir = (pulseRun cfg t inp n).currDir := by
    show Stepgen.nextDir _ _ _ _ = _
    rw [Stepgen.nextDir, tickTimer_eq, if_neg (by omega)]
  rw [negDir, negDir, hdir] at hne
  exact hne rfl

/-- The direction stays as it is in a pulse and while `dir_hold` runs. -/
lemma active_dirHold (ht : t.Ok) (hinp : ∀ n, (inp n).Ok t) :
    DirHold t (active cfg t inp) (negDir cfg t inp) := by
  constructor
  · intro n ha ha'
    by_contra hne
    obtain ⟨k, hk, hle⟩ := lastStep_of_active ht hinp ha
    obtain ⟨k', hk', hle'⟩ := lastStep_of_active ht hinp ha'
    have hwait := hk.le_of_ne hne
    have hkn := hk.lt
    have hper := ht.period
    have hspace := ht.space_le
    have hdir := ht.dir
    -- the pulse is over, so it is another one
    rcases Nat.lt_succ_iff_lt_or_eq.1 hk'.lt with hlt | rfl
    · obtain rfl : k' = k := by
        rcases Nat.lt_trichotomy k' k with h | h | h
        · exact absurd hk.step (hk'.last k h (by omega))
        · exact h
        · exact absurd hk'.step (hk.last k' h hlt)
      have hsucc := elapsed_succ (P := t.period) hk'.lt
      rw [Nat.add_sub_cancel] at hsucc
      omega
    · obtain ⟨hsame, hother⟩ := hk.gap ht hinp hk'.step
      by_cases he : negDir cfg t inp (k + 1) = negDir cfg t inp (k' + 1)
      · have hwait := hsame he
        omega
      · have hwait := hother he
        omega
  · intro n m hne hmn ha
    obtain ⟨k, hk, hle⟩ := lastStep_of_active ht hinp ha
    have hkm := hk.lt
    obtain ⟨k', hk', hkk⟩ := hk.step.lastStep ht hinp (lt_of_lt_of_le hkm hmn)
    have hwait := hk'.le_of_ne hne
    have hmono : (n - k') * t.period ≤ (n - k) * t.period :=
      Nat.mul_le_mul_right _ (by omega)
    have hadd : (n - k) * t.period = (n - m) * t.period + (m - k) * t.period :=
      elapsed_add (by omega) (by omega)
    omega

/-- While hold is on there is no step until the last timer is out. -/
lemma LastStep.of_hold (ht : t.Ok) (hinp : ∀ n, (inp n).Ok t) (h : LastStep cfg t inp k n)
    (hh : (pulseRun cfg t inp n).holdDds = true) (hle : n ≤ m)
    (hlt : (m - k) * t.period < t.stepLen + t.dirHold + t.dirSetup) :
    LastStep cfg t inp k (m + 1) := by
  have hstay : ∀ j, n ≤ j → LastStep cfg t inp k j → (pulseRun cfg t inp j).holdDds = true →
      (j - k) * t.period < t.stepLen + t.dirHold + t.dirSetup →
      LastStep cfg t inp k (j + 1) ∧ (pulseRun cfg t inp (j + 1)).holdDds = true := by
    intro j _ hj hold hlt
    have hkj := hj.lt
    have h3 : (pulseRun cfg t inp j).timer3 - t.period ≠ 0 := by
      rw [hj.since.timer3, countdown_sub]
      show _ - (j - 1 - k + 1) * t.period ≠ 0
      rw [show j - 1 - k + 1 = j - k by omega]
      omega
    have hnext : (pulseRun cfg t inp j).nextHold t.period (inp j).enable (t.params (inp j)) =
        true := Stepgen.nextHold_of_hold hj.since.dirOk.hold hold h3
    refine ⟨hj.succ ht (hinp j) fun hs => ?_, hnext⟩
    rw [(Stepgen.stepNow_run hs).1] at hnext
    cases hnext
  suffices hall : LastStep cfg t inp k (m + 1) ∧ (pulseRun cfg t inp (m + 1)).holdDds = true from
    hall.1
  induction m, hle using Nat.le_induction with
  | base => exact hstay n (le_refl n) h hh hlt
  | succ m hle ih =>
    have hmono : (m - k) * t.period ≤ (m + 1 - k) * t.period :=
      Nat.mul_le_mul_right _ (by omega)
    obtain ⟨hlast, hold⟩ := ih (by omega)
    exact hstay (m + 1) (by omega) hlast hold hlt

/-- A change of direction right at the end of `dir_hold` is followed by `dir_setup`. -/
lemma active_dirSetup (ht : t.Ok) (hinp : ∀ n, (inp n).Ok t) {e : ℕ}
    (hf : Fall (active cfg t inp) e) (hen : e ≤ n) (hlate : (n - e) * t.period ≤ t.dirHold)
    (hne : negDir cfg t inp n ≠ negDir cfg t inp (n + 1)) (hr : Rise (active cfg t inp) m)
    (hnm : n ≤ m) : t.dirSetup ≤ (m - n) * t.period := by
  obtain ⟨k, hke, hend, hno⟩ := lastStep_of_fall ht hinp hf
  have hkelt := hke.lt
  have hs := Stepped.of_rise hr
  have hlen := lt_of_lt_of_le ht.period ht.len_le
  have hadd : (n - k) * t.period = (n - e) * t.period + (e - k) * t.period :=
    elapsed_add (by omega) (by omega)
  -- the last step in front of the change is that of the pulse
  obtain ⟨k', hk, hkk⟩ := hke.step.lastStep ht hinp (lt_of_lt_of_le hkelt hen)
  have hwait := hk.le_of_ne hne
  obtain rfl : k' = k := by
    by_contra hne'
    have hek : e < k' := by
      by_contra hle
      rcases Nat.lt_or_eq_of_le (not_lt.1 hle) with hlt | rfl
      · exact hke.last k' (by omega) hlt hk.step
      · exact hno hk.step
    have hmono : (n - k') * t.period ≤ (n - e) * t.period :=
      Nat.mul_le_mul_right _ (by omega)
    omega
  have hkn := hk.lt
  have hsucc := elapsed_succ (P := t.period) hkn
  have hper := ht.period
  by_contra hlt
  have hadd' : (m - k') * t.period = (m - n) * t.period + (n - k') * t.period :=
    elapsed_add (by omega) (by omega)
  have h3 : (pulseRun cfg t inp n).timer3 - t.period ≠ 0 := by
    rw [hk.since.timer3]
    show t.stepLen + t.dirHold + t.dirSetup - (n - 1 - k') * t.period - t.period ≠ 0
    omega
  rcases hk.since.dirOk.nextAddval (p := t.params (inp n)) h3 with hhold | hclass
  · -- the reversal is held
    have hnostep : ¬ Stepped cfg t inp n := fun hn => by
      rw [(Stepgen.stepNow_run hn).1] at hhold
      cases hhold
    rcases Nat.lt_or_eq_of_le hnm with hnm' | rfl
    · have hlast := (hk.succ ht (hinp n) hnostep).of_hold ht hinp hhold hnm' (by omega)
      exact hlast.last m (by omega) (Nat.lt_succ_self m) hs
    · exact hnostep hs
  · -- there is none, and the direction does not change
    have hdir : (pulseRun cfg t inp n).currDir = (pulseRun cfg t inp (k' + 1)).currDir := by
      refine hk.since.dirOk.currDir ?_
      rw [hk.since.timer2]
      show t.stepLen + t.dirHold - (n - 1 - k') * t.period ≠ 0
      omega
    refine hne ?_
    have hcurr : (pulseRun cfg t inp (n + 1)).currDir = (pulseRun cfg t inp n).currDir := by
      show Stepgen.nextDir _ _ _ _ = _
      rw [Stepgen.nextDir]
      split
      · rw [addvalDir, hdir]
        rcases hk.since.dirOk.dir with hd | hd
        · rw [hd] at hclass ⊢
          split_ifs <;> omega
        · rw [hd] at hclass ⊢
          split_ifs <;> omega
      · rfl
    rw [negDir, negDir, hcurr]

/-! ### Pins -/

lemma stepPin_dir (h : cfg.stepType = 0) :
    stepPin cfg t inp 0 = active cfg t inp ∧ stepPin cfg t inp 1 = negDir cfg t inp := by
  constructor
  · funext n
    cases n with
    | zero => rfl
    | succ n => exact (StepCore.output_phase_dir h).1
  · funext n
    cases n with
    | zero => rfl
    | succ n => exact (StepCore.output_phase_dir h).2

/-- An active pulse in one direction. -/
def dirPulse (cfg : StepConfig) (t : StepDelays) (inp : ℕ → StepInput) (neg : Bool) (n : ℕ) :
    Bool :=
  active cfg t inp n && (negDir cfg t inp n == neg)

lemma dirPulse_eq_true {neg : Bool} : dirPulse cfg t inp neg n = true ↔
    active cfg t inp n = true ∧ negDir cfg t inp n = neg := by
  rw [dirPulse, Bool.and_eq_true_iff, beq_iff_eq]

lemma stepPin_upDown (h : cfg.stepType = 1) :
    stepPin cfg t inp 0 = dirPulse cfg t inp false ∧
      stepPin cfg t inp 1 = dirPulse cfg t inp true := by
  constructor
  · funext n
    have hpin : stepPin cfg t inp 0 n = (active cfg t inp n && !negDir cfg t inp n) := by
      cases n with
      | zero => rfl
      | succ n => exact (StepCore.output_phase_upDown h).1
    rw [hpin, dirPulse, beq_false]
  · funext n
    have hpin : stepPin cfg t inp 1 n = (active cfg t inp n && negDir cfg t inp n) := by
      cases n with
      | zero => rfl
      | succ n => exact (StepCore.output_phase_upDown h).2
    rw [hpin, dirPulse, beq_true]

/-- A pulse on one of the pins of type 1 begins with the pulse itself, and ends with it. -/
lemma active_rise (ht : t.Ok) (hinp : ∀ n, (inp n).Ok t) {neg : Bool}
    (hr : Rise (dirPulse cfg t inp neg) n) :
    Rise (active cfg t inp) n ∧ negDir cfg t inp (n + 1) = neg := by
  obtain ⟨ha, hn⟩ := dirPulse_eq_true.1 hr.2
  refine ⟨⟨?_, ha⟩, hn⟩
  by_contra hact
  rw [Bool.not_eq_false] at hact
  have hsteady := (active_dirHold ht hinp).steady n hact ha
  have hlow := dirPulse_eq_true.2 ⟨hact, hsteady.trans hn⟩
  rw [hr.1] at hlow
  cases hlow

lemma active_fall (ht : t.Ok) (hinp : ∀ n, (inp n).Ok t) {neg : Bool}
    (hf : Fall (dirPulse cfg t inp neg) n) :
    Fall (active cfg t inp) n ∧ negDir cfg t inp n = neg := by
  obtain ⟨ha, hn⟩ := dirPulse_eq_true.1 hf.1
  refine ⟨⟨ha, ?_⟩, hn⟩
  by_contra hact
  rw [Bool.not_eq_false] at hact
  have hsteady := (active_dirHold ht hinp).steady n ha hact
  have hhigh := dirPulse_eq_true.2 ⟨hact, hsteady.symm.trans hn⟩
  rw [hf.2] at hhigh
  cases hhigh

/-- The pins of type 1 change over with `dir_hold` and `dir_setup` between them. -/
lemma dirPulse_handOver (ht : t.Ok) (hinp : ∀ n, (inp n).Ok t) (neg : Bool) :
    HandOver t (dirPulse cfg t inp neg) (dirPulse cfg t inp !neg) := by
  intro n m hf hr hnm
  obtain ⟨hfall, hn⟩ := active_fall ht hinp hf
  obtain ⟨hrise, hm⟩ := active_rise ht hinp hr
  obtain ⟨k, hk, hend, -⟩ := lastStep_of_fall ht hinp hfall
  have hkn := hk.lt
  have hdir : negDir cfg t inp n = negDir cfg t inp (k + 1) := by
    refine hk.negDir_eq ?_
    have hsucc := elapsed_succ (P := t.period) hkn
    have hper := ht.period
    omega
  have hne : negDir cfg t inp (k + 1) ≠ negDir cfg t inp (m + 1) := by
    rw [← hdir, hn, hm]
    cases neg <;> decide
  have hwait := hk.step.turn ht hinp (Stepped.of_rise hrise) (by omega) hne
  have hadd : (m - k) * t.period = (m - n) * t.period + (n - k) * t.period :=
    elapsed_add (by omega) (by omega)
  omega

/-- A pulse on one of the pins of type 1 has its length. -/
lemma dirPulse_pulseLen (ht : t.Ok) (hinp : ∀ n, (inp n).Ok t) (neg : Bool) :
    PulseLen t (dirPulse cfg t inp neg) := by
  intro n m hr hlt hlen
  have hhold : DirHold t (active cfg t inp) (negDir cfg t inp) := active_dirHold ht hinp
  obtain ⟨hrise, hn⟩ := active_rise ht hinp hr
  have hpulse : ∀ k, n + 1 ≤ k → k ≤ m → active cfg t inp k = true := by
    intro k h1 h2
    have hmono : (k - (n + 1)) * t.period ≤ (m - (n + 1)) * t.period :=
      Nat.mul_le_mul_right _ (by omega)
    exact active_pulseLen ht hinp n k hrise (by omega) (by omega)
  have hdir := eq_of_steady hhold.steady hlt hpulse
  exact dirPulse_eq_true.2 ⟨hpulse m hlt (le_refl m), hdir ▸ hn⟩

/-- The pins of type 1 together. -/
lemma dirPulse_or : (fun n => dirPulse cfg t inp false n || dirPulse cfg t inp true n) =
    active cfg t inp := by
  funext n
  rw [dirPulse, dirPulse, beq_false, beq_true, ← Bool.and_or_distrib_left,
    Bool.not_or_self, Bool.and_true]

/-- **The timing of the pulses.** In every run of `make_pulses` the pins of the types 0 and 1
obey it. -/
theorem stepgen_timing (ht : t.Ok) (hinp : ∀ n, (inp n).Ok t) :
    (cfg.stepType = 0 → StepDirTiming t (stepPin cfg t inp 0) (stepPin cfg t inp 1)) ∧
    (cfg.stepType = 1 → UpDownTiming t (stepPin cfg t inp 0) (stepPin cfg t inp 1)) := by
  refine ⟨fun h0 => ?_, fun h1 => ?_⟩
  · obtain ⟨hstep, hdir⟩ := stepPin_dir (t := t) h0
    rw [hstep, hdir]
    exact ⟨active_pulseLen ht hinp, active_pulseSpace ht hinp, active_dirHold ht hinp,
      fun e n m hf hen hlate hne hr hnm => active_dirSetup ht hinp hf hen hlate hne hr hnm⟩
  · obtain ⟨hup, hdown⟩ := stepPin_upDown (t := t) h1
    rw [hup, hdown]
    refine ⟨fun n hn => ?_, dirPulse_pulseLen ht hinp false, dirPulse_pulseLen ht hinp true, ?_,
      dirPulse_handOver ht hinp false, dirPulse_handOver ht hinp true⟩
    · have hneg := (dirPulse_eq_true.1 hn.2).2
      rw [(dirPulse_eq_true.1 hn.1).2] at hneg
      cases hneg
    · rw [dirPulse_or]
      intro n m h
      have hspace := active_pulseSpace ht hinp n m h
      rwa [dirPulse, dirPulse, h.fall.1, h.rise.2, beq_true, beq_true, Bool.true_and,
        Bool.true_and]

end Run

/-! ### Reversals -/

/-- Step and direction, and up and down. -/
def stepDir : StepConfig := ⟨0, 0, 0, fun _ => 0⟩
def upDown : StepConfig := ⟨1, 0, 0, fun _ => 0⟩

/-- A reversal soon after a step, with a space of five periods. -/
def soonDelays : StepDelays := ⟨10, 10, 50, 10, 0⟩

def soonInputs (n : ℕ) : StepInput := ⟨true, if n < 4 then 44000000 else -44000000, 0⟩

/-- A reversal from standstill, with a setup time of three periods. -/
def restDelays : StepDelays := ⟨10, 10, 10, 10, 30⟩

def restInputs (n : ℕ) : StepInput :=
  ⟨true, if n = 0 then 134217728 else if n < 8 then 0 else -134217728, 0⟩

lemma soonDelays_ok : soonDelays.Ok :=
  ⟨by decide, by decide, by decide, by decide, by decide, by decide, by decide, by decide,
    by decide⟩

lemma soonInputs_ok (n : ℕ) : (soonInputs n).Ok soonDelays := by
  have hA : soonDelays.maxAddval = 44739242 := by decide
  refine ⟨?_, le_refl _, by norm_num [soonInputs]⟩
  rw [soonInputs, hA]
  dsimp only
  split <;> norm_num

lemma restDelays_ok : restDelays.Ok :=
  ⟨by decide, by decide, by decide, by decide, by decide, by decide, by decide, by decide,
    by decide⟩

lemma restInputs_ok (n : ℕ) : (restInputs n).Ok restDelays := by
  have hA : restDelays.maxAddval = 134217728 := by decide
  refine ⟨?_, le_refl _, by norm_num [restInputs]⟩
  rw [restInputs, hA]
  dsimp only
  split_ifs <;> norm_num

/-- The reversal, for both types; with type 1 the pulse on down begins one period after the one
on up has ended. -/
theorem stepgen_timing_soon :
    StepDirTiming soonDelays (stepPin stepDir soonDelays soonInputs 0)
      (stepPin stepDir soonDelays soonInputs 1) ∧
    UpDownTiming soonDelays (stepPin upDown soonDelays soonInputs 0)
      (stepPin upDown soonDelays soonInputs 1) ∧
    Fall (stepPin upDown soonDelays soonInputs 0) 4 ∧
    Rise (stepPin upDown soonDelays soonInputs 1) 5 :=
  ⟨(stepgen_timing soonDelays_ok soonInputs_ok).1 rfl,
    (stepgen_timing soonDelays_ok soonInputs_ok).2 rfl, ⟨by decide, by decide⟩,
    ⟨by decide, by decide⟩⟩

/-- A step the other way comes as soon as `dir_hold` has passed, without `step_space`; and one
from standstill comes together with the change of direction. -/
theorem stepgen_timing_reversal :
    (soonDelays.Ok ∧ (∀ n, (soonInputs n).Ok soonDelays) ∧
      ¬ StepDirClaim soonDelays (stepPin stepDir soonDelays soonInputs 0)
        (stepPin stepDir soonDelays soonInputs 1)) ∧
    (restDelays.Ok ∧ (∀ n, (restInputs n).Ok restDelays) ∧
      ¬ StepDirClaim restDelays (stepPin stepDir restDelays restInputs 0)
        (stepPin stepDir restDelays restInputs 1)) := by
  refine ⟨⟨soonDelays_ok, soonInputs_ok, fun h => ?_⟩, restDelays_ok, restInputs_ok, fun h => ?_⟩
  · have hfall : Fall (stepPin stepDir soonDelays soonInputs 0) 4 := by
      constructor <;> decide
    have hrise : Rise (stepPin stepDir soonDelays soonInputs 0) 5 := by
      constructor <;> decide
    have hspace := h.space 4 5 ⟨hfall, hrise, by decide, fun k h1 h2 => ?_⟩
    · exact absurd hspace (by decide)
    · obtain rfl : k = 5 := by omega
      exact hrise.1
  · have hrise : Rise (stepPin stepDir restDelays restInputs 0) 8 := by
      constructor <;> decide
    have hne : stepPin stepDir restDelays restInputs 1 8 ≠
        stepPin stepDir restDelays restInputs 1 9 := by decide
    exact absurd (h.setup 8 8 hne hrise (le_refl 8)) (by decide)

end MachinekitHal
