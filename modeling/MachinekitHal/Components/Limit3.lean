import Mathlib.Tactic
import MachinekitHal.Lib.Casts

/-!
`limit3.icomp`: the output follows the input within limits to its position, velocity and
acceleration.

Numbers are rational. A division by zero, which only the landing can meet, gives what
floating point gives there.

* `Limits`: the parameters and the period, as long as they do not change.
* `Limit3`, `Limit3Call`: the data of an instance, and what one call reads.
* `Target`, `Goal`: what the component worries about, and the numbers that go with it.
* `Exit`: the ways the function ends.
* `limit3`: the function.
-/

namespace MachinekitHal

open Casts

/-! ### Data -/

/-- Limits that a caller may set. -/
structure Limits where
  min_ : ℚ
  max_ : ℚ
  maxv : ℚ
  maxa : ℚ
  fperiod : ℚ
  min_le_max : min_ ≤ max_
  maxv_pos : 0 < maxv
  maxa_pos : 0 < maxa
  fperiod_pos : 0 < fperiod

/-- The pins that the function writes, and the variables of the instance. -/
structure Limit3 where
  out : ℚ
  outVel : ℚ
  stopped : Bool
  outAcc : ℚ
  inPosOld : ℚ
  outOld : ℚ
  deriving DecidableEq

/-- The pins that the function reads anew in every call. -/
structure Limit3Call where
  in_ : ℚ
  load : Bool
  start : Bool
  smoothSteps : BitVec 32

/-- A fudge amount for division errors. -/
def EPSILON : ℚ := 1 / 10 ^ 9

/-- Distance = avg. velocity * time -/
def sGivenViVfT (vi vf t : ℚ) : ℚ := (vf + vi) / 2 * t

/-- Time = chg. velocity / acceleration -/
def tGivenViVfA (vi vf a : ℚ) : ℚ := (vf - vi) / a

/-- Final velocity = initial velocity + acceleration * time -/
def vfGivenViAT (vi a t : ℚ) : ℚ := vi + a * t

/-- `SIGN` -/
def sign (n : ℚ) : ℚ := if 0 ≤ n then 1 else -1

namespace Limits

variable (L : Limits) (s : Limit3) (c : Limit3Call)

/-- `SET_NEXT_STATE` -/
def setNextState (out in_ : ℚ) : Limit3 where
  outAcc := ((out - s.out) / L.fperiod - s.outVel) / L.fperiod
  outVel := (out - s.out) / L.fperiod
  stopped := |(out - s.out) / L.fperiod| < EPSILON
  outOld := s.out
  out := out
  inPosOld := in_

/-! ### Distances and times -/

/-- The input velocity. -/
def inVel : ℚ := (c.in_ - s.inPosOld) / L.fperiod

/-- The most negative and the most positive velocity reachable in one period. -/
def minVel : ℚ := max (vfGivenViAT s.outVel (-L.maxa) L.fperiod) (-L.maxv)
def maxVel : ℚ := min (vfGivenViAT s.outVel L.maxa L.fperiod) L.maxv

/-- The positions they lead to. -/
def minPos : ℚ := s.out + L.minVel s * L.fperiod
def maxPos : ℚ := s.out + L.maxVel s * L.fperiod

/-- The time to stop, from the previous period on. -/
def stopTimeMax : ℚ := |tGivenViVfA (L.maxVel s) 0 L.maxa| + L.fperiod
def stopTimeMin : ℚ := |tGivenViVfA (L.minVel s) 0 L.maxa| + L.fperiod

/-- Where the output stops. -/
def stopPosMax : ℚ := s.out + sGivenViVfT (L.maxVel s) 0 (L.stopTimeMax s)
def stopPosMin : ℚ := s.out + sGivenViVfT (L.minVel s) 0 (L.stopTimeMin s)

/-- The time to match the input velocity; the output runs one period behind. -/
def inVelTimeMax : ℚ := |tGivenViVfA (L.maxVel s) (L.inVel s c) L.maxa| - L.fperiod
def inVelTimeMin : ℚ := |tGivenViVfA (L.minVel s) (L.inVel s c) L.maxa| - L.fperiod

/-- The output position after the velocities match. -/
def outPosMax : ℚ := L.maxPos s + sGivenViVfT (L.maxVel s) (L.inVel s c) (L.inVelTimeMax s c)
def outPosMin : ℚ := L.minPos s + sGivenViVfT (L.minVel s) (L.inVel s c) (L.inVelTimeMin s c)

/-- The input position after the velocities match. -/
def inPosMax : ℚ := c.in_ + L.inVel s c * L.inVelTimeMax s c
def inPosMin : ℚ := c.in_ + L.inVel s c * L.inVelTimeMin s c

/-- `VALID_NEXT`: a position that is reachable in one period. -/
def ValidNext (pos : ℚ) : Prop := pos ≤ L.maxPos s ∧ L.minPos s ≤ pos
  deriving Decidable

end Limits

/-! ### The goal -/

/-- What the component worries about: to stop, one of the limits, or the input. -/
inductive Target where
  | stop | maxLimit | minLimit | input
  deriving DecidableEq

/-- The goal, and the positions that can be achieved. -/
structure Goal where
  posMin : ℚ
  posMax : ℚ
  posCur : ℚ
  posPrev : ℚ
  velDiff : ℚ
  achPosMin : ℚ
  achPosMax : ℚ

namespace Limits

variable (L : Limits) (s : Limit3) (c : Limit3Call)

/-- The choice of the current goal. -/
def target : Target :=
  -- is the start pin cleared?
  if ¬ c.start then .stop
  -- are we headed to crash into a min/max limit?
  else if L.stopPosMax s > L.max_ + EPSILON ∧ ¬ L.ValidNext s L.max_ then .maxLimit
  else if L.stopPosMin s < L.min_ - EPSILON ∧ ¬ L.ValidNext s L.min_ then .minLimit
  -- if input is outside min/max limit but heading back in, is there time to keep heading
  -- toward the limit?
  else if c.in_ ≥ L.max_ ∧ L.inPosMax s c > L.outPosMax s c then .maxLimit
  else if c.in_ ≤ L.min_ ∧ L.inPosMin s c < L.outPosMin s c then .minLimit
  else .input

/-- Where the output is to stop when the start pin is cleared. -/
def stopGoal : ℚ :=
  if s.out > L.stopPosMin s ∧ s.out < L.stopPosMax s then s.out
  else if L.stopTimeMax s < L.stopTimeMin s then L.stopPosMax s
  else L.stopPosMin s

/-- A goal that stands still. -/
def fixedGoal (pos : ℚ) : Goal where
  posMin := pos
  posMax := pos
  posCur := pos
  posPrev := pos
  velDiff := -s.outVel
  achPosMin := L.stopPosMin s
  achPosMax := L.stopPosMax s

/-- The input as a goal. -/
def inputGoal : Goal where
  posMin := L.inPosMin s c
  posMax := L.inPosMax s c
  posCur := c.in_
  posPrev := s.inPosOld
  velDiff := s.outVel - L.inVel s c
  achPosMin := L.outPosMin s c
  achPosMax := L.outPosMax s c

/-- The goal of a target. -/
def goal : Goal :=
  match L.target s c with
  | .stop => L.fixedGoal s (L.stopGoal s)
  | .maxLimit => L.fixedGoal s L.max_
  | .minLimit => L.fixedGoal s L.min_
  | .input => L.inputGoal s c

/-- The time to reach goal position and velocity with uniform acceleration. -/
def goalTime : ℚ :=
  let g := L.goal s c
  -- difference in position, last cycle
  let posDiff := s.out - g.posPrev
  if |g.velDiff| < EPSILON then 0 else posDiff / ((g.velDiff + 0) / 2)

end Limits

/-! ### The acceleration -/

/-- The ways the function ends: the goal is reached in this period; full acceleration up or
down; a landing; full acceleration down or up against an overshoot; or none of them. -/
inductive Exit where
  | reach | up | down | land | brakeDown | brakeUp | coast

namespace Limits

variable (L : Limits) (s : Limit3) (c : Limit3Call)

/-- The choice between them. -/
def exit : Exit :=
  let g := L.goal s c
  let t := L.goalTime s c
  if L.ValidNext s g.posCur ∧ |t| ≤ L.fperiod then .reach
  -- if no danger of overshoot, accel at max in direction of goal
  else if g.achPosMax < g.posMax + EPSILON then .up
  else if g.achPosMin > g.posMin - EPSILON then .down
  -- if close to reaching goal, try to grease a landing
  else if |t| < L.fperiod * c.smoothSteps.toNat then .land
  -- if moving toward goal and in danger of overshoot, accelerate in opposite direction
  else if g.posMax + EPSILON < g.achPosMax ∧ g.posPrev > s.out then .brakeDown
  else if g.posMin - EPSILON > g.achPosMin ∧ g.posPrev < s.out then .brakeUp
  else .coast

/-- The magnitude of the time to the goal, rounded up to an integral number of periods. -/
def landTime (I : IntConversion) : ℚ :=
  let t := L.goalTime s c
  I.toInt ((t - EPSILON * sign t) / L.fperiod + sign t) * L.fperiod

/-- The landing: uniform acceleration to reach the goal in time, within limits. -/
def landPos (I : IntConversion) : ℚ :=
  let velDiff := (L.goal s c).velDiff
  let ti := L.landTime s c I
  if ti = 0 then
    -- the acceleration is infinite, or no number, for which `fmax` returns its other argument
    if 0 < velDiff then L.maxPos s else L.minPos s
  else
    let a := (velDiff - 0) / ti
    let v := s.outVel + a * L.fperiod
    min (L.maxPos s) (max (L.minPos s) (s.out + v * L.fperiod))

/-- The position that the function ends with. -/
def nextPos (I : IntConversion) : ℚ :=
  match L.exit s c with
  | .reach => (L.goal s c).posCur
  | .up | .brakeUp => L.maxPos s
  | .down | .brakeDown => L.minPos s
  | .land => L.landPos s c I
  | .coast => (L.minPos s + L.maxPos s) / 2

/-- The function of the component. -/
def limit3 (I : IntConversion) (s : Limit3) (c : Limit3Call) : Limit3 :=
  if c.load then
    -- apply first order limit
    let inPosLim := min L.max_ (max L.min_ c.in_)
    L.setNextState s inPosLim inPosLim
  else L.setNextState s (L.nextPos s c I) c.in_

/-- The state after `k` calls. -/
def states (I : IntConversion) (s : Limit3) (c : ℕ → Limit3Call) : ℕ → Limit3
  | 0 => s
  | k + 1 => L.limit3 I (states I s c k) (c k)

end Limits

end MachinekitHal
