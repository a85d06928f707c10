import MachinekitHal.Components.Pwmgen
import MachinekitHal.Lib.Word

/-!
`pwmgenv2.c`: the second PWM and PDM generator, one instance of `update`.

`update` works on copies of the pins and computes new parameters only when one of them has
changed; corrections go to the pins, not to the copies. Times are `hal_s32_t`.

* `Pwmgenv2`: the pins, their tracked values, and what `update` hands to `make_pulses`.
* `Pwmgenv2.calcPeriod`, `Pwmgenv2.setDuty`, `Pwmgenv2.compute`: a new parameter set.
* `Pwmgenv2.update`: one call.
* `PwmAct`, `Pwmgen.step`, `Pwmgenv2.step`: the pins of either generator are set, or its `update`
  is called.
* `PwmAgree`: what is asked for after `twoCalls`, two calls with the same pins.
-/

namespace MachinekitHal

open Casts Word

/-- `pwmgen_t`: the pins with their tracked values, and the private state of `update`. -/
structure Pwmgenv2 where
  pins : PwmPins
  jitterCorrect : Bool
  old : PwmPins
  oldJitterCorrect : Bool
  scaleRecip : ℚ
  periods : PwmPeriods
  params : PwmParams
  paramsJitterCorrect : Bool
  currDc : ℚ
  dirPin : Bool
  deriving DecidableEq

namespace Pwmgenv2

variable (cv : IntConversion) (outputType : ℕ) (periodns : ℤ) (u : Pwmgenv2)

/-- Validates the duty cycle limits. -/
def updateLimits : Pwmgenv2 :=
  { u with pins := { u.pins with minDc := (limitDc u.pins.minDc u.pins.maxDc).1
                                 maxDc := (limitDc u.pins.minDc u.pins.maxDc).2 } }

/-- The period calcs for a copy `q` of the pins. -/
def calcPeriod (q : PwmPins) : Option Pwmgenv2 :=
  -- zero or negative means PDM mode
  if q.pwmFreq ≤ 0 then
    some { u with pins := { u.pins with pwmFreq := 0 }
                  params := { u.params with period := wrapInt periodns } }
  -- positive means PWM mode
  else do
    let validFreq ← Pwmgen.validFreq periodns q.pwmFreq
    let length ← checkedDiv 1e9 q.pwmFreq
    if q.mode = .pure then
      -- period must be integral multiple of periodns
      let count ← checkedDiv length periodns
      let periods := cv.toInt (count + 0.5)
      let recip ← checkedDiv 1 periods
      let period := wrapInt (periods * periodns)
      -- actual max freq after rounding
      let freq ← checkedDiv 1e9 period
      return { u with pins := { u.pins with pwmFreq := freq }
                      periods := ⟨periods, recip⟩
                      params := { u.params with period } }
    else
      return { u with pins := { u.pins with pwmFreq := validFreq }
                      params := { u.params with period := cv.toInt length } }

/-- The direction, the high time and the current duty cycle for a copy `q` of the pins. -/
def setDuty (q : PwmPins) : Pwmgenv2 :=
  let dc := pwmDuty outputType u.scaleRecip q
  let direction := pwmDirection outputType u.scaleRecip q
  let outdc := if direction then -dc else dc
  -- round to nearest pure PWM duty cycle
  let highPeriods := cv.toInt (u.periods.periods * outdc + 0.5)
  { u with
    params :=
      { u.params with
        highTime := if q.mode = .pure then wrapInt (highPeriods * periodns)
          else cv.toInt (u.params.period * outdc + 0.5)
        direction }
    currDc :=
      if q.mode = .pure then
        if 0 ≤ dc then highPeriods * u.periods.recip else -highPeriods * u.periods.recip
      else dc
    dirPin := if outputType = 1 then direction else u.dirPin }

/-- A new parameter set for a copy `q` of the pins. -/
def compute (q : PwmPins) : Option Pwmgenv2 := do
  -- a scale that is too small is replaced on the pin
  let u := { u with pins := { u.pins with scale := validScale q.scale } }
  let recip ← checkedDiv 1 q.scale
  let u := { u with scaleRecip := recip
                    params := { u.params with mode := q.mode } }
  let u ← u.calcPeriod cv periodns q
  return { u.setDuty cv outputType periodns q with paramsJitterCorrect := u.jitterCorrect }

/-- `update`, for one instance. -/
def update : Option Pwmgenv2 :=
  let u := u.updateLimits
  -- cop out until we know the thread period from make_pulses
  if periodns < 0 then some u
  -- no driving pin has changed
  else if u.pins = u.old ∧ u.jitterCorrect = u.oldJitterCorrect then some u
  else
    let u := { u with old := u.pins
                      oldJitterCorrect := u.jitterCorrect }
    u.compute cv outputType periodns u.pins

/-- What `export_pwmgen` sets; the other numbers are 0. -/
def init : Pwmgenv2 where
  pins := ⟨false, 0, 1, 0, 0, false, 0, 1⟩
  jitterCorrect := false
  old := ⟨false, 0, 1, 0, -1, false, 0, 0⟩
  oldJitterCorrect := false
  scaleRecip := 0
  periods := ⟨0, 0⟩
  params := ⟨50000, 0, .disabled, false⟩
  paramsJitterCorrect := false
  currDc := 0
  dirPin := false

end Pwmgenv2

/-- The pins are set, or `update` is called with the period that it finds. -/
inductive PwmAct where
  | set (q : PwmPins) (jitterCorrect : Bool)
  | update (periodns : ℤ)

section Steps

variable (cv : IntConversion) (outputType : ℕ)

def Pwmgen.step (g : Pwmgen) : PwmAct → Option Pwmgen
  | .set q _ => some { g with pins := q }
  | .update periodns => g.update cv outputType periodns

def Pwmgenv2.step (u : Pwmgenv2) : PwmAct → Option Pwmgenv2
  | .set q jitterCorrect => some { u with pins := q, jitterCorrect }
  | .update periodns => u.update cv outputType periodns

/-- The pins are set, and `update` is called twice. -/
def Pwmgen.twoCalls (periodns : ℤ) (q : PwmPins) (g : Pwmgen) : Option Pwmgen := do
  let g ← ({ g with pins := q } : Pwmgen).update cv outputType periodns
  g.update cv outputType periodns

def Pwmgenv2.twoCalls (periodns : ℤ) (q : PwmPins) (jitterCorrect : Bool) (u : Pwmgenv2) :
    Option Pwmgenv2 := do
  let u ← ({ u with pins := q, jitterCorrect } : Pwmgenv2).update cv outputType periodns
  u.update cv outputType periodns

end Steps

/-- The base period is `T` as soon as `make_pulses` has run, and -1 before. -/
def PwmAct.At (T : ℤ) : PwmAct → Prop
  | .set _ _ => True
  | .update periodns => periodns = T ∨ periodns = -1

/-- Both have a result, with the same parameters and the same current duty cycle. -/
def PwmAgree (g : Option Pwmgen) (u : Option Pwmgenv2) : Prop :=
  ∃ g' u', g = some g' ∧ u = some u' ∧ u'.params = g'.params ∧ u'.currDc = g'.currDc

end MachinekitHal
