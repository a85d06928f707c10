import Mathlib.Tactic
import MachinekitHal.Lib.Casts

/-!
`pwmgen.c`: the PWM and PDM generator, one channel of `make_pulses` and `update`.

Numbers are rational; a division by zero is no result.

* `PwmMode`, `PwmParams`, `PwmTimers`: what `update` hands to `make_pulses`, and the state of
  that function with the values of the pins.
* `PwmTimers.modeStep`, `PwmTimers.makePulses`: the step of a mode, and one call.
* `PwmPins`, `PwmSpeed`, `Pwmgen`: the pins that `update` reads, the numbers that it keeps for
  them, and the data of a channel.
* `limitDc`, `validScale`, `PwmPins.mode`, `pwmDuty`, `Pwmgen.calcPeriod`: the parts of `update`.
* `Pwmgen.update`: one call.
-/

namespace MachinekitHal

open Casts

/-! ### Pulses -/

/-- `pwm_mode`. -/
inductive PwmMode where
  | disabled | pure | dither | pdm
  deriving DecidableEq

/-- The parameters of `make_pulses`. -/
structure PwmParams where
  /-- length of PWM period, ns -/
  period : ℤ
  /-- desired high time, ns -/
  highTime : ℤ
  mode : PwmMode
  direction : Bool
  deriving DecidableEq

/-- The state of `make_pulses`, with the values of the output pins. -/
structure PwmTimers where
  /-- timer for PWM period -/
  periodTimer : ℤ
  /-- timer for high time -/
  highTimer : ℤ
  currOutput : Bool
  out : Bool × Bool
  deriving DecidableEq

namespace PwmTimers

variable (s : PwmTimers)

/-- The pure mode: both timers are reset at the end of a period. -/
def pureStep (periodns : ℤ) (p : PwmParams) : PwmTimers :=
  -- current state is high, update cumlative high time
  let highTimer := if s.currOutput then s.highTimer + periodns else s.highTimer
  -- have we been high long enough?
  let currOutput := s.currOutput && !decide (p.highTime ≤ highTimer)
  let periodTimer := s.periodTimer + periodns
  -- have we reached the end of a period?
  if p.period ≤ periodTimer then
    { s with periodTimer := 0, highTimer := 0, currOutput := currOutput || decide (0 < p.highTime) }
  else { s with periodTimer, highTimer, currOutput }

/-- The dither mode: both timers keep the remainder from the last period. -/
def ditherStep (periodns : ℤ) (p : PwmParams) : PwmTimers :=
  let highTimer := if s.currOutput then s.highTimer - periodns else s.highTimer
  let currOutput := s.currOutput && !decide (highTimer ≤ 0)
  let periodTimer := s.periodTimer + periodns
  if p.period ≤ periodTimer then
    { s with periodTimer := periodTimer - p.period
             highTimer := highTimer + p.highTime
             currOutput := currOutput || decide (0 < highTimer + p.highTime) }
  else { s with periodTimer, highTimer, currOutput }

/-- The PDM mode. -/
def pdmStep (periodns : ℤ) (p : PwmParams) : PwmTimers :=
  -- add desired high time to running total, subtract actual high time
  let highTimer := s.highTimer + p.highTime - if s.currOutput then periodns else 0
  { s with highTimer, currOutput := 0 < highTimer }

/-- The output pins: PWM, or up and down. -/
def output (outputType : ℕ) (p : PwmParams) : PwmTimers :=
  { s with out :=
      if outputType < 2 then (s.currOutput, s.out.2)
      else (s.currOutput && !p.direction, s.currOutput && p.direction) }

/-- The step of a mode. -/
def modeStep (periodns : ℤ) (p : PwmParams) : PwmTimers :=
  match p.mode with
  | .pure => s.pureStep periodns p
  | .dither => s.ditherStep periodns p
  | .pdm => s.pdmStep periodns p
  -- disabled, drive output off and zero accumulator
  | .disabled => { s with currOutput := false, highTimer := 0, periodTimer := 0 }

/-- `make_pulses`, for one channel. -/
def makePulses (outputType : ℕ) (periodns : ℤ) (p : PwmParams) : PwmTimers :=
  (s.modeStep periodns p).output outputType p

end PwmTimers

/-! ### Parameters -/

/-- The pins that `update` reads; it corrects some of them. -/
structure PwmPins where
  enable : Bool
  value : ℚ
  scale : ℚ
  offset : ℚ
  /-- (max) output frequency in Hz -/
  pwmFreq : ℚ
  /-- 0 = pure PWM, 1 = dithered PWM -/
  ditherPwm : Bool
  minDc : ℚ
  maxDc : ℚ
  deriving DecidableEq

/-- The number of periods in a PWM cycle, and its reciprocal. -/
structure PwmPeriods where
  periods : ℤ
  recip : ℚ
  deriving DecidableEq

/-- `pwmgen_t`: the pins, what is kept for them, and what `update` sets. -/
structure Pwmgen where
  pins : PwmPins
  oldScale : ℚ
  scaleRecip : ℚ
  oldPwmFreq : ℚ
  oldPeriodns : ℤ
  periods : PwmPeriods
  params : PwmParams
  currDc : ℚ
  dirPin : Bool
  deriving DecidableEq

/-- A division by zero has no result. -/
def checkedDiv (a b : ℚ) : Option ℚ := if b = 0 then none else some (a / b)

/-- Both limits must be between 0 and 1 and max must be greater than min. -/
def limitDc (minDc maxDc : ℚ) : ℚ × ℚ :=
  let maxDc := if 1 < maxDc then 1 else maxDc
  let minDc := if maxDc < minDc then maxDc else minDc
  let minDc := if minDc < 0 then 0 else minDc
  let maxDc := if maxDc < minDc then minDc else maxDc
  (minDc, maxDc)

/-- A scale that is too small is no scale. -/
def validScale (scale : ℚ) : ℚ := if scale < 1e-20 ∧ -1e-20 < scale then 1 else scale

/-- The mode that the pins ask for. -/
def PwmPins.mode (q : PwmPins) : PwmMode :=
  if q.enable = false then .disabled
  else if q.pwmFreq = 0 then .pdm
  else if q.ditherPwm then .dither
  else .pure

/-- The value command as a duty cycle within the limits; it is negative in direction 1. -/
def pwmDuty (outputType : ℕ) (scaleRecip : ℚ) (q : PwmPins) : ℚ :=
  let dc := q.value * scaleRecip + q.offset
  -- unidirectional mode, no negative output
  let dc := if outputType = 0 ∧ dc < 0 then 0 else dc
  if 0 ≤ dc then if q.maxDc < dc then q.maxDc else if dc < q.minDc then q.minDc else dc
  else if dc < -q.maxDc then -q.maxDc else if -q.minDc < dc then -q.minDc else dc

/-- The direction is that of the duty cycle before it is limited. -/
def pwmDirection (outputType : ℕ) (scaleRecip : ℚ) (q : PwmPins) : Bool :=
  outputType ≠ 0 ∧ q.value * scaleRecip + q.offset < 0

namespace Pwmgen

/-- The cast to a `long`. -/
def toLong (x : ℚ) : ℤ := if 0 ≤ x then ⌊x⌋ else ⌈x⌉

variable (cv : IntConversion) (outputType : ℕ) (periodns : ℤ) (g : Pwmgen)

/-- Validates the duty cycle limits. -/
def updateLimits : Pwmgen :=
  { g with pins := { g.pins with minDc := (limitDc g.pins.minDc g.pins.maxDc).1
                                 maxDc := (limitDc g.pins.minDc g.pins.maxDc).2 } }

/-- Does scale calcs only when scale changes. -/
def updateScale : Option Pwmgen :=
  if g.pins.scale ≠ g.oldScale then do
    let recip ← checkedDiv 1 (validScale g.pins.scale)
    return { g with oldScale := g.pins.scale
                    pins := { g.pins with scale := validScale g.pins.scale }
                    scaleRecip := recip }
  else some g

/-- A frequency from 0.5 Hz to one in 2 base periods. -/
def validFreq (freq : ℚ) : Option ℚ :=
  if freq < 0.5 then some 0.5
  else do
    let maxFreq ← checkedDiv (1e9 / 2) periodns
    return if maxFreq < freq then maxFreq else freq

/-- The period calcs. -/
def calcPeriod (mode : PwmMode) : Option Pwmgen :=
  -- zero or negative means PDM mode
  if g.pins.pwmFreq ≤ 0 then
    some { g with pins := { g.pins with pwmFreq := 0 }
                  params := { g.params with period := periodns }
                  oldPwmFreq := 0 }
  -- positive means PWM mode
  else do
    let freq ← validFreq periodns g.pins.pwmFreq
    let length ← checkedDiv 1e9 freq
    if mode = .pure then
      -- period must be integral multiple of periodns
      let count ← checkedDiv length periodns
      let periods := cv.toInt (count + 0.5)
      let recip ← checkedDiv 1 periods
      -- actual max freq after rounding
      let freq ← checkedDiv 1e9 (periods * periodns : ℤ)
      return { g with pins := { g.pins with pwmFreq := freq }
                      periods := ⟨periods, recip⟩
                      params := { g.params with period := periods * periodns }
                      oldPwmFreq := freq }
    else
      return { g with pins := { g.pins with pwmFreq := freq }
                      params := { g.params with period := toLong length }
                      oldPwmFreq := freq }

/-- The high time and the current duty cycle in a mode. -/
def updateDuty (mode : PwmMode) : Pwmgen :=
  let dc := pwmDuty outputType g.scaleRecip g.pins
  let direction := pwmDirection outputType g.scaleRecip g.pins
  let outdc := if direction then -dc else dc
  -- round to nearest pure PWM duty cycle
  let highPeriods := cv.toInt (g.periods.periods * outdc + 0.5)
  { g with
    params :=
      { g.params with
        highTime := if mode = .pure then highPeriods * periodns
          else toLong (g.params.period * outdc + 0.5)
        direction }
    currDc :=
      if mode = .pure then
        if 0 ≤ dc then highPeriods * g.periods.recip else -highPeriods * g.periods.recip
      else dc
    dirPin := if outputType = 1 then direction else g.dirPin }

/-- `update`, for one channel. -/
def update : Option Pwmgen := do
  let g ← g.updateLimits.updateScale
  let mode := g.pins.mode
  -- force recalc if max_freq is changed
  let oldMode := if g.pins.pwmFreq ≠ g.oldPwmFreq then .disabled else g.params.mode
  -- do the period calcs when mode, pwm_freq, or periodns changes
  let g ← if oldMode ≠ mode ∨ periodns ≠ g.oldPeriodns then g.calcPeriod cv periodns mode
    else some g
  let g := g.updateDuty cv outputType periodns mode
  return { g with params := { g.params with mode }, oldPeriodns := periodns }

/-- What `export_pwmgen` sets; the other numbers are 0. -/
def init : Pwmgen where
  pins := ⟨false, 0, 1, 0, 0, false, 0, 1⟩
  oldScale := 2
  scaleRecip := 0
  oldPwmFreq := -1
  oldPeriodns := -1
  periods := ⟨0, 0⟩
  params := ⟨50000, 0, .disabled, false⟩
  currDc := 0
  dirPin := false

end Pwmgen

end MachinekitHal
