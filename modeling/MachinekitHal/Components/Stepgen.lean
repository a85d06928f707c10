import MachinekitHal.Lib.Word

/-!
`stepgen.c`: the step pulse generator, one channel of `make_pulses`.

A signed value proportional to the frequency is added to an accumulator in every period; when
the bit `PICKOFF` of the accumulator toggles, a step is made. Three timers say when the pulse
ends, when the direction can change and when a step in the other direction can be made.

* `StepConfig`, `MpParams`, `StepCore`, `Stepgen`: the constants, the parameters and the state.
* `rampAddval`, `StepCore.tick`, `StepCore.checkReversal`, `StepCore.setDir`,
  `StepCore.restart`, `StepCore.output`: the parts of `make_pulses`.
* `Stepgen.makePulses`: one call.
* `DirOk`: the timers are in order and the direction is that of the last step while they run;
  a step is made in the direction of the movement (`DirOk.step`).
-/

namespace MachinekitHal

open Word

/-- What `export_stepgen` sets for the step type: the cycle length less one, the number of
phases and the table of output patterns for the types from 2 on. -/
structure StepConfig where
  stepType : ℕ
  cycleMax : ℤ
  numPhases : ℕ
  lut : ℤ → ℕ

/-- The parameters of `make_pulses`. -/
structure MpParams where
  targetAddval : ℤ
  deltalim : ℤ
  stepLen : ℕ
  dirHoldDly : ℕ
  dirSetup : ℕ
  deriving DecidableEq

/-- The state that only `make_pulses` uses, with the values of the output pins. -/
structure StepCore where
  /-- times out when step pulse should end -/
  timer1 : ℕ
  /-- times out when safe to change dir -/
  timer2 : ℕ
  /-- times out when safe to step in new dir -/
  timer3 : ℕ
  /-- prevents accumulator from updating -/
  holdDds : Bool
  rawcount : ℤ
  currDir : ℤ
  state : ℤ
  phase : ℕ → Bool

/-- `stepgen_t`: with the frequency generator. -/
structure Stepgen extends StepCore where
  addval : ℤ
  accum : ℤ

/-- Bit `PICKOFF` of the accumulator, and the bits above it. -/
def pickoffBit (accum : ℤ) : ℤ := accum / 2 ^ 28 % 2
def accumCount (accum : ℤ) : ℤ := wrapInt (accum / 2 ^ 28)

/-- A timer is decremented. -/
def tickTimer (period timer : ℕ) : ℕ :=
  if 0 < timer then if period < timer then timer - period else 0 else timer

/-- The new `addval`: the target, at most `deltalim` away from the old one. -/
def rampAddval (old target lim : ℤ) : ℤ :=
  if lim ≠ 0 then
    if wrapLong (old + lim) < target then wrapLong (old + lim)
    else if target < wrapLong (old - lim) then wrapLong (old - lim)
    else target
  else target

/-- The check for direction reversal. -/
def reversal (old new : ℤ) : Bool := (0 ≤ new ∧ old < 0) ∨ (new < 0 ∧ 0 ≤ old)

namespace StepCore

variable (c : StepCore)

/-- The timers are decremented; the last one cancels hold when it times out. -/
def tick (period : ℕ) : StepCore :=
  { c with timer1 := tickTimer period c.timer1
           timer2 := tickTimer period c.timer2
           timer3 := tickTimer period c.timer3
           holdDds := c.holdDds && !decide (0 < c.timer3 ∧ ¬ period < c.timer3) }

/-- A reversal holds everything until delays time out. -/
def checkReversal (ramp : Bool) (old new : ℤ) : StepCore :=
  { c with holdDds := c.holdDds || (ramp && reversal old new && decide (c.timer3 ≠ 0)) }

/-- The update of the direction to `dir` once the timer allows it. -/
def setDir (dir : ℤ) : StepCore := { c with currDir := if c.timer2 = 0 then dir else c.currDir }

/-- The position in the state table after a step, for the types from 2 on. -/
def nextState (cfg : StepConfig) : ℤ :=
  if 2 ≤ cfg.stepType then
    if c.state + c.currDir < 0 then cfg.cycleMax
    else if cfg.cycleMax < c.state + c.currDir then 0
    else c.state + c.currDir
  else c.state

/-- A step (re)starts the timers. -/
def restart (cfg : StepConfig) (p : MpParams) (stepNow : Bool) : StepCore :=
  { c with timer1 := if stepNow then p.stepLen else c.timer1
           timer2 := if stepNow then wrap32 (p.stepLen + p.dirHoldDly) else c.timer2
           timer3 := if stepNow then wrap32 (wrap32 (p.stepLen + p.dirHoldDly) + p.dirSetup)
             else c.timer3
           state := if stepNow then c.nextState cfg else c.state }

/-- The output pins, by stepping type. -/
def output (cfg : StepConfig) : StepCore :=
  { c with phase := fun pin =>
      -- step/dir
      if cfg.stepType = 0 then
        if pin = 0 then c.timer1 ≠ 0 else if pin = 1 then c.currDir < 0 else c.phase pin
      -- up/down
      else if cfg.stepType = 1 then
        if pin = 0 then c.timer1 ≠ 0 ∧ ¬ c.currDir < 0
        else if pin = 1 then c.timer1 ≠ 0 ∧ c.currDir < 0
        else c.phase pin
      else if pin < cfg.numPhases then (cfg.lut c.state).testBit pin
      else c.phase pin }

variable {c} {cfg : StepConfig}

/-- The pins of type 0 are step and direction. -/
lemma output_phase_dir (h : cfg.stepType = 0) :
    (c.output cfg).phase 0 = decide (c.timer1 ≠ 0) ∧
      (c.output cfg).phase 1 = decide (c.currDir < 0) := by
  simp only [output, h, if_true, one_ne_zero, if_false, and_self]

/-- The pins of type 1 are up and down. -/
lemma output_phase_upDown (h : cfg.stepType = 1) :
    (c.output cfg).phase 0 = (decide (c.timer1 ≠ 0) && !decide (c.currDir < 0)) ∧
      (c.output cfg).phase 1 = (decide (c.timer1 ≠ 0) && decide (c.currDir < 0)) := by
  simp only [output, h, one_ne_zero, if_true, if_false, Bool.decide_and, decide_not, and_self]

end StepCore

/-- The direction of `addval`; it does not change if `addval` is 0. -/
def addvalDir (addval currDir : ℤ) : ℤ :=
  if 0 < addval then 1 else if addval < 0 then -1 else currDir

/-- A timer is decremented to 0 at least. -/
lemma tickTimer_eq (period timer : ℕ) : tickTimer period timer = timer - period := by
  rw [tickTimer]
  split_ifs <;> omega

/-- Wrapping the accumulator does not show in the pickoff bit. -/
lemma pickoffBit_wrapLong (x : ℤ) : pickoffBit (wrapLong x) = pickoffBit x := by
  obtain ⟨k, hk⟩ := exists_wrapLong_eq x
  rw [pickoffBit, pickoffBit, hk]
  omega

/-- No reversal: both values are negative or both are not. -/
lemma reversal_eq_false {old new : ℤ} : reversal old new = false ↔ (0 ≤ new ↔ 0 ≤ old) := by
  rw [reversal, decide_eq_false_iff_not]
  omega

namespace Stepgen

/-- `make_pulses`, for one channel. -/
def makePulses (cfg : StepConfig) (period : ℕ) (enable : Bool) (p : MpParams) (s : Stepgen) :
    Stepgen :=
  let c := s.toStepCore.tick period
  -- update addval (ramping)
  let ramp := !c.holdDds && enable
  let addval := if ramp then rampAddval s.addval p.targetAddval p.deltalim else s.addval
  let c := c.checkReversal ramp s.addval addval
  -- update DDS
  let run := !c.holdDds && enable
  let accum := if run then wrapLong (s.accum + addval) else s.accum
  let stepNow := pickoffBit s.accum ≠ pickoffBit accum
  let c := { c with rawcount := if run then accumCount accum else c.rawcount }
  let c := c.setDir (addvalDir addval c.currDir)
  { (c.restart cfg p stepNow).output cfg with addval, accum }

/-- The state that `export_stepgen` sets. -/
def init : Stepgen := ⟨⟨0, 0, 0, false, 0, 0, 0, fun _ => false⟩, 0, 2 ^ 27⟩

/-! ### What a call does -/

section Call

variable (cfg : StepConfig) (period : ℕ) (enable : Bool) (p : MpParams) (s : Stepgen)

/-- The call finds no hold on and takes a new `addval`. -/
def ramps : Bool := !(s.toStepCore.tick period).holdDds && enable

/-- The `addval` after the call. -/
def nextAddval : ℤ :=
  if s.ramps period enable then rampAddval s.addval p.targetAddval p.deltalim else s.addval

/-- The hold after the call. -/
def nextHold : Bool :=
  ((s.toStepCore.tick period).checkReversal (s.ramps period enable) s.addval
    (s.nextAddval period enable p)).holdDds

/-- The accumulator after the call. -/
def nextAccum : ℤ :=
  if !s.nextHold period enable p && enable then wrapLong (s.accum + s.nextAddval period enable p)
  else s.accum

/-- The call makes a step. -/
def stepNow : Prop := pickoffBit s.accum ≠ pickoffBit (s.nextAccum period enable p)
  deriving Decidable

/-- The direction after the call. -/
def nextDir : ℤ :=
  if tickTimer period s.timer2 = 0 then addvalDir (s.nextAddval period enable p) s.currDir
  else s.currDir

/-- The fields after the call. -/
lemma makePulses_eq : s.makePulses cfg period enable p =
    ⟨(({ s.toStepCore.tick period with
        holdDds := s.nextHold period enable p
        rawcount := if !s.nextHold period enable p && enable then
          accumCount (s.nextAccum period enable p) else s.rawcount
        currDir := s.nextDir period enable p } : StepCore).restart cfg p
          (decide (s.stepNow period enable p))).output cfg,
      s.nextAddval period enable p, s.nextAccum period enable p⟩ := rfl

end Call

/-! ### Direction -/

section Direction

variable {cfg : StepConfig} {period : ℕ} {enable : Bool} {p : MpParams} {s : Stepgen} {d : ℤ}

/-- The delays of a step fit the timers. -/
def DelaysFit (p : MpParams) : Prop := p.stepLen + p.dirHoldDly + p.dirSetup < 2 ^ 32
  deriving Decidable

/-- The timers are in order, and while they run the direction is `d`, that of the last step:
the pin has it until the second timer is out, and the accumulator moves in it until the third
one is, unless it is on hold. -/
structure DirOk (d : ℤ) (s : Stepgen) : Prop where
  dir : d = 1 ∨ d = -1
  le12 : s.timer1 ≤ s.timer2
  le23 : s.timer2 ≤ s.timer3
  hold : s.holdDds = true → s.timer3 ≠ 0
  currDir : s.timer2 ≠ 0 → s.currDir = d
  addval : s.timer3 ≠ 0 → s.holdDds = true ∨ (0 ≤ s.addval ↔ d = 1)

lemma nextHold_eq : s.nextHold period enable p =
    ((s.toStepCore.tick period).holdDds || (s.ramps period enable &&
      reversal s.addval (s.nextAddval period enable p) && decide (s.timer3 - period ≠ 0))) := by
  rw [← tickTimer_eq]
  rfl

section Hold

variable (hold : s.holdDds = true → s.timer3 ≠ 0)

include hold

/-- The hold after the decrement of the timers. -/
lemma tick_holdDds :
    (s.toStepCore.tick period).holdDds = (s.holdDds && decide (s.timer3 - period ≠ 0)) := by
  show (s.holdDds && !decide (0 < s.timer3 ∧ ¬ period < s.timer3)) = _
  cases hh : s.holdDds with
  | false => rfl
  | true =>
    have h3 := hold hh
    rw [Bool.true_and, Bool.true_and, ← decide_not, decide_eq_decide]
    omega

/-- Hold needs the last timer. -/
lemma timer3_of_nextHold (hh : s.nextHold period enable p = true) : s.timer3 - period ≠ 0 := by
  rw [nextHold_eq, tick_holdDds hold, Bool.or_eq_true, Bool.and_eq_true, Bool.and_eq_true] at hh
  rcases hh with hh | hh
  · exact of_decide_eq_true hh.2
  · exact of_decide_eq_true hh.2

/-- Hold stays while the last timer runs. -/
lemma nextHold_of_hold (hh : s.holdDds = true) (h3 : s.timer3 - period ≠ 0) :
    s.nextHold period enable p = true := by
  rw [nextHold_eq, tick_holdDds hold, hh, decide_eq_true h3]
  rfl

/-- Without hold while the last timer runs, there was no hold and no reversal. -/
lemma sign_of_not_nextHold (h3 : s.timer3 - period ≠ 0)
    (hno : s.nextHold period enable p = false) :
    s.holdDds = false ∧ (0 ≤ s.nextAddval period enable p ↔ 0 ≤ s.addval) := by
  have hfalse : s.holdDds = false := by
    by_contra hh
    rw [nextHold_of_hold hold (Bool.eq_true_of_not_eq_false hh) h3] at hno
    cases hno
  refine ⟨hfalse, ?_⟩
  rw [nextHold_eq, Bool.or_eq_false_iff, decide_eq_true h3, Bool.and_true] at hno
  by_cases hr : s.ramps period enable = true
  · rw [hr, Bool.true_and] at hno
    exact reversal_eq_false.1 hno.2
  · rw [Stepgen.nextAddval, if_neg hr]

end Hold

/-- While the last timer runs, hold is on after the call or `addval` has its direction. -/
lemma DirOk.nextAddval (h : s.DirOk d) (h3 : s.timer3 - period ≠ 0) :
    s.nextHold period enable p = true ∨ (0 ≤ s.nextAddval period enable p ↔ d = 1) := by
  rw [or_iff_not_imp_left, Bool.not_eq_true]
  intro hno
  obtain ⟨hold, hsign⟩ := sign_of_not_nextHold h.hold h3 hno
  rw [hsign]
  exact (h.addval (by omega)).resolve_left (by rw [hold]; exact Bool.false_ne_true)

lemma stepNow_run (hs : s.stepNow period enable p) : s.nextHold period enable p = false ∧
    s.nextAccum period enable p = wrapLong (s.accum + s.nextAddval period enable p) ∧
    s.nextAddval period enable p ≠ 0 := by
  by_cases hrun : (!s.nextHold period enable p && enable) = true
  · have haccum : s.nextAccum period enable p =
        wrapLong (s.accum + s.nextAddval period enable p) := if_pos hrun
    rw [Bool.and_eq_true, Bool.not_eq_true'] at hrun
    refine ⟨hrun.1, haccum, fun h0 => hs ?_⟩
    rw [haccum, h0, Int.add_zero, pickoffBit_wrapLong]
  · exact absurd (by rw [nextAccum, if_neg hrun]) hs

lemma makePulses_timers_of_stepNow (cfg : StepConfig) (hp : DelaysFit p)
    (hs : s.stepNow period enable p) :
    (s.makePulses cfg period enable p).timer1 = p.stepLen ∧
    (s.makePulses cfg period enable p).timer2 = p.stepLen + p.dirHoldDly ∧
    (s.makePulses cfg period enable p).timer3 = p.stepLen + p.dirHoldDly + p.dirSetup := by
  rw [DelaysFit] at hp
  have h2 : wrap32 (p.stepLen + p.dirHoldDly) = p.stepLen + p.dirHoldDly :=
    wrap32_of_lt (by omega)
  have h3 : wrap32 (p.stepLen + p.dirHoldDly + p.dirSetup) =
      p.stepLen + p.dirHoldDly + p.dirSetup := wrap32_of_lt (by omega)
  simp only [makePulses_eq, StepCore.output, StepCore.restart, decide_eq_true hs, if_true, h2, h3,
    and_self]

/-- The timers after a call without a step. -/
lemma makePulses_timers_of_not_stepNow (cfg : StepConfig) (hs : ¬ s.stepNow period enable p) :
    (s.makePulses cfg period enable p).timer1 = s.timer1 - period ∧
    (s.makePulses cfg period enable p).timer2 = s.timer2 - period ∧
    (s.makePulses cfg period enable p).timer3 = s.timer3 - period := by
  simp only [makePulses_eq, StepCore.output, StepCore.restart, StepCore.tick, tickTimer_eq,
    decide_eq_false hs, Bool.false_eq_true, if_false, and_self]

/-- The direction in which a step is made is that of the movement, and a step the other way
has to wait for the last timer. -/
lemma DirOk.stepNow (h : s.DirOk d) (hs : s.stepNow period enable p) :
    s.nextDir period enable p = (s.nextAddval period enable p).sign ∧
    (s.nextDir period enable p ≠ d → s.timer3 ≤ period) := by
  obtain ⟨hhold, -, hne⟩ := stepNow_run hs
  have hclass : s.timer3 - period ≠ 0 → (0 ≤ s.nextAddval period enable p ↔ d = 1) := fun h3 =>
    (h.nextAddval h3).resolve_left (by rw [hhold]; exact Bool.false_ne_true)
  have hsign : (s.nextAddval period enable p).sign = addvalDir (s.nextAddval period enable p)
      s.currDir := by
    rcases lt_or_gt_of_ne hne with hlt | hgt
    · rw [Int.sign_eq_neg_one_of_neg hlt, addvalDir, if_neg (by omega), if_pos hlt]
    · rw [Int.sign_eq_one_of_pos hgt, addvalDir, if_pos hgt]
  have hdir : s.timer3 - period ≠ 0 → (s.nextAddval period enable p).sign = d := by
    intro h3
    have hc := hclass h3
    rw [hsign, addvalDir]
    rcases h.dir with rfl | rfl
    · rw [if_pos (by omega)]
    · rw [if_neg (by omega), if_pos (by omega)]
  by_cases h2 : s.timer2 - period = 0
  · have hn : s.nextDir period enable p = (s.nextAddval period enable p).sign := by
      rw [nextDir, tickTimer_eq, if_pos h2, hsign]
    refine ⟨hn, fun hnd => ?_⟩
    by_contra h3
    exact hnd (hn.trans (hdir (by omega)))
  · have hle := h.le23
    have hn : s.nextDir period enable p = d := by
      rw [nextDir, tickTimer_eq, if_neg h2]
      exact h.currDir (by omega)
    exact ⟨hn.trans (hdir (by omega)).symm, fun hnd => absurd hn hnd⟩

/-- Every call keeps this; a step sets the direction. -/
lemma DirOk.makePulses (h : s.DirOk d) (hp : DelaysFit p) :
    (s.makePulses cfg period enable p).DirOk
      (if s.stepNow period enable p then s.nextDir period enable p else d) := by
  by_cases hs : s.stepNow period enable p
  · rw [if_pos hs]
    obtain ⟨hhold, -, hne⟩ := stepNow_run hs
    obtain ⟨hdir, -⟩ := h.stepNow hs
    obtain ⟨h1, h2, h3⟩ := makePulses_timers_of_stepNow cfg hp hs
    refine ⟨?_, by omega, by omega, fun hh => ?_, fun _ => rfl, fun _ => .inr ?_⟩
    · rw [hdir]
      rcases lt_or_gt_of_ne hne with hlt | hgt
      · exact .inr (Int.sign_eq_neg_one_of_neg hlt)
      · exact .inl (Int.sign_eq_one_of_pos hgt)
    · rw [show (s.makePulses cfg period enable p).holdDds = false from hhold] at hh
      cases hh
    · show 0 ≤ s.nextAddval period enable p ↔ _
      rw [hdir, Int.sign_eq_one_iff_pos]
      omega
  · rw [if_neg hs]
    obtain ⟨h1, h2, h3⟩ := makePulses_timers_of_not_stepNow cfg hs
    have hle12 := h.le12
    have hle23 := h.le23
    refine ⟨h.dir, by omega, by omega, fun hh => ?_, fun hh => ?_, fun hh => ?_⟩
    · rw [h3]
      exact timer3_of_nextHold h.hold hh
    · show s.nextDir period enable p = d
      rw [h2] at hh
      rw [nextDir, tickTimer_eq, if_neg hh]
      exact h.currDir (by omega)
    · exact h.nextAddval (h3 ▸ hh)

lemma DirOk.init : Stepgen.init.DirOk 1 :=
  ⟨.inl rfl, le_refl _, le_refl _, fun h => absurd h Bool.false_ne_true, fun h => absurd rfl h,
    fun h => absurd rfl h⟩

end Direction

end Stepgen

end MachinekitHal
