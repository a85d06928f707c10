import Mathlib.Tactic
import Mathlib.Order.WithBot
import MachinekitHal.Lib.WrappedCounter

/-!
The step generators of hostmot2, over the rational numbers.

* `processTramRead`: counts and position from the accumulators.
* `positionControl`, `prepareTramWrite`: the position controller and the step rates.
* `Channel`: an instance with its mode and table registers; `updateMode`, `writeModes`,
  `forceWriteMode`: what is written to them.
* `accDelta_ofInt`: a move that wraps the accumulator is off by one sub-count.
* `Run`: the module, with the true accumulators at the reads so far.
* `Run.drifted`: the sub-counts have lost one for each wrap.
* `position_exact_iff`: they are those of the true accumulator as long as this is in the block of
  `2 ^ 32` sub-counts that it started in.
-/

namespace MachinekitHal.Hm2Stepgen

/-- The pins of an instance. -/
structure Pins where
  positionCmd : ℚ
  velocityCmd : ℚ
  counts : BitVec 32
  positionFb : ℚ
  velocityFb : ℚ
  enable : Bool
  controlType : Bool
  dbgFfVel : ℚ
  dbgVelError : ℚ
  dbgSToMatch : ℚ
  dbgErrAtMatch : ℚ
  dbgStepRate : BitVec 32
  dbgPosMinusPrevCmd : ℚ
  positionScale : ℚ
  maxvel : ℚ
  maxaccel : ℚ
  steplen : BitVec 32
  stepspace : BitVec 32
  stepType : BitVec 32
  table : Vector (BitVec 32) 4

/-- `hm2_stepgen_instance_t`. -/
structure Instance where
  pin : Pins
  tableHash : BitVec 32
  oldPositionCmd : ℚ
  prevAccumulator : BitVec 32
  subcounts : BitVec 64
  writtenStepType : BitVec 32
  tableWidth : BitVec 32

/-- `hm2_stepgen_t`. -/
structure Module where
  numInstances : ℕ
  inst : ℕ → Instance
  clockFrequency : BitVec 32
  stepRateReg : ℕ → BitVec 32

/-- A loop over the instances. -/
def Module.forInstances (m : Module) (f : ℕ → Instance → Instance) : Module :=
  { m with inst := fun i => if i < m.numInstances then f i (m.inst i) else m.inst i }

lemma Module.forInstances_inst {m : Module} {f : ℕ → Instance → Instance} {i : ℕ}
    (hi : i < m.numInstances) : (m.forInstances f).inst i = f i (m.inst i) := if_pos hi

/-! ### The accumulators -/

/-- `hm2_stepgen_tram_init`. -/
def tramInit (acc : ℕ → BitVec 32) (m : Module) : Module :=
  m.forInstances fun i e =>
    { e with prevAccumulator := acc i, oldPositionCmd := e.pin.positionCmd }

/-- A scale that is too close to zero is reset. -/
def checkScale (scale : ℚ) : ℚ :=
  if |scale| < 1 / 1000000 then (if 0 ≤ scale then 1 else -1) else scale

/-- `acc_delta`. -/
def accDelta (acc prev : BitVec 32) : BitVec 64 :=
  let delta := acc.setWidth 64 - prev.setWidth 64
  if 0x7fffffff < delta.toInt then delta - 0xffffffff#64
  else if delta.toInt < -0x80000000 then delta + 0xffffffff#64
  else delta

/-- The body of the loop of `hm2_stepgen_process_tram_read`. -/
def processAccumulator (acc : BitVec 32) (e : Instance) : Instance :=
  let scale := checkScale e.pin.positionScale
  let subcounts := e.subcounts + accDelta acc e.prevAccumulator
  { e with
    pin.positionScale := scale
    subcounts := subcounts
    pin.counts := (subcounts.sshiftRight 16).setWidth 32
    pin.positionFb := subcounts.toInt / 65536 / scale
    prevAccumulator := acc }

/-- `hm2_stepgen_process_tram_read`. -/
def processTramRead (acc : ℕ → BitVec 32) (m : Module) : Module :=
  m.forInstances fun i e => processAccumulator (acc i) e

/-! ### The position controller -/

/-- `match_accel`: the acceleration to the speed of position-cmd. -/
def matchAccel (maxaccel velocityError period : ℚ) : ℚ :=
  if 0 < velocityError then
    if maxaccel = 0 then -velocityError / period else -maxaccel
  else if velocityError < 0 then
    if maxaccel = 0 then velocityError / period else maxaccel
  else 0

/-- `seconds_to_vel_match`. -/
def secondsToVelMatch (velocityError matchAccel : ℚ) : ℚ :=
  if matchAccel = 0 then 0 else -velocityError / matchAccel

/-- The limits of `velocity_cmd` if the speeds match within a period. -/
def limitAccel (maxaccel velocityFb period velocityCmd : ℚ) : ℚ :=
  if 0 < maxaccel then
    if velocityFb + maxaccel * period < velocityCmd then velocityFb + maxaccel * period
    else if velocityCmd < velocityFb - maxaccel * period then velocityFb - maxaccel * period
    else velocityCmd
  else velocityCmd

/-- `velocity_cmd` from what is expected at the time of the match. -/
def velocityCmd (maxaccel velocityFb ffVel matchAccel seconds errorAtMatch period : ℚ) : ℚ :=
  if seconds < period then
    limitAccel maxaccel velocityFb period (ffVel - 1 / 2 * errorAtMatch / period)
  else
    let dv := -2 * matchAccel * period
    let dp := dv * seconds
    let accel := if |errorAtMatch + dp * 2| < |errorAtMatch| then -matchAccel else matchAccel
    velocityFb + accel * period

/-- `hm2_stepgen_instance_position_control`, with the new velocity. -/
def positionControl (period : ℚ) (e : Instance) : Instance × ℚ :=
  let ffVel := (e.pin.positionCmd - e.oldPositionCmd) / period
  let velocityError := e.pin.velocityFb - ffVel
  let accel := matchAccel e.pin.maxaccel velocityError period
  let seconds := secondsToVelMatch velocityError accel
  let avgV := (ffVel + e.pin.velocityFb) * (1 / 2)
  let positionAtMatch := e.pin.positionFb + avgV * (seconds + period)
  let positionCmdAtMatch := e.pin.positionCmd + ffVel * seconds
  let errorAtMatch := positionAtMatch - positionCmdAtMatch
  ({ e with
      pin.dbgPosMinusPrevCmd := e.pin.positionFb - e.oldPositionCmd
      pin.dbgFfVel := ffVel
      oldPositionCmd := e.pin.positionCmd
      pin.dbgVelError := velocityError
      pin.dbgSToMatch := seconds
      pin.dbgErrAtMatch := errorAtMatch },
    velocityCmd e.pin.maxaccel e.pin.velocityFb ffVel accel seconds errorAtMatch period)

/-! ### The step rates -/

/-- `physical_maxvel`: infinite if the step takes no time, or the scale is zero. -/
def physicalMaxvel (p : Pins) : WithTop ℚ :=
  if p.steplen + p.stepspace = 0 ∨ p.positionScale = 0 then ⊤
  else ((1000000000 / ((p.steplen + p.stepspace).toNat : ℚ) / |p.positionScale| : ℚ) : WithTop ℚ)

/-- A speed, at most the highest. -/
def atMost (highest : WithTop ℚ) (vel : ℚ) : ℚ :=
  if highest < vel then highest.untopD vel else vel

/-- `maxvel` and `maxaccel` are checked. -/
def checkLimits (p : Pins) : Pins :=
  { p with
    maxvel := atMost (physicalMaxvel p) |p.maxvel|
    maxaccel := |p.maxaccel| }

/-- The new velocity is clipped. -/
def clip (highest : WithTop ℚ) (vel : ℚ) : ℚ :=
  if highest < vel then highest.untopD vel
  else if highest < (-vel : ℚ) then -highest.untopD vel
  else vel

/-- Velocity-mode control. -/
def velocityControl (period : ℚ) (p : Pins) : ℚ :=
  if 0 < p.maxaccel then
    if p.maxaccel < (p.velocityCmd - p.velocityFb) / period then
      p.velocityFb + p.maxaccel * period
    else if (p.velocityCmd - p.velocityFb) / period < -p.maxaccel then
      p.velocityFb - p.maxaccel * period
    else p.velocityCmd
  else p.velocityCmd

/-- `hm2_stepgen_instance_prepare_tram_write`, with the step rate. -/
def instancePrepareTramWrite (toS32 : ℚ → BitVec 32) (clockFrequency : BitVec 32) (period : ℚ)
    (e : Instance) : Instance × BitVec 32 :=
  let physical := physicalMaxvel e.pin
  let e := { e with pin := checkLimits e.pin }
  let maxvel := if e.pin.maxvel = 0 then physical else (e.pin.maxvel : WithTop ℚ)
  let (e, newVel) := if e.pin.controlType then (e, velocityControl period e.pin)
    else positionControl period e
  let newVel := clip maxvel newVel
  let rate := toS32 (newVel * e.pin.positionScale * (4294967296 / (clockFrequency.toNat : ℚ)))
  ({ e with pin.velocityFb := newVel, pin.dbgStepRate := rate }, rate)

/-- The body of the loop of `hm2_stepgen_prepare_tram_write`. -/
def prepareInstance (toS32 : ℚ → BitVec 32) (clockFrequency : BitVec 32) (period : ℚ)
    (e : Instance) : Instance × BitVec 32 :=
  if e.pin.enable then instancePrepareTramWrite toS32 clockFrequency period e
  else ({ e with oldPositionCmd := e.pin.positionCmd, pin.velocityFb := 0 }, 0#32)

/-- `hm2_stepgen_prepare_tram_write`. The conversion to `s32` is a parameter, as C leaves open what
it makes of a rate that does not fit. -/
def prepareTramWrite (toS32 : ℚ → BitVec 32) (period : ℚ) (m : Module) : Module :=
  { m.forInstances fun _ e => (prepareInstance toS32 m.clockFrequency period e).1 with
    stepRateReg := fun i =>
      if i < m.numInstances then (prepareInstance toS32 m.clockFrequency period (m.inst i)).2
      else m.stepRateReg i }

/-! ### The mode -/

/-- The registers of an instance: the mode, the words written to the table, the last one first,
and its length. -/
structure Registers where
  mode : BitVec 32
  tableData : List (BitVec 32)
  tableLength : BitVec 32

/-- An instance, its place in `mode_reg` and its registers. -/
structure Channel where
  inst : Instance
  modeReg : BitVec 32
  hw : Registers

namespace Instance

/-- `*inst->hal.pin.table[k]`: there are four pointers, and they are NULL if `table_width` is at
most 2. -/
def tableWord (e : Instance) (k : ℕ) : Option (BitVec 32) :=
  if 2 < e.tableWidth then e.pin.table[k]? else none

/-- The hash over the table pins. -/
def hash (e : Instance) : Option (BitVec 32) := do
  let w₀ ← e.tableWord 0
  let w₁ ← e.tableWord 1
  let w₂ ← e.tableWord 2
  let w₃ ← e.tableWord 3
  return w₀ ^^^ w₁ ^^^ w₂ ^^^ w₃

/-- The turns of the loop from `*step_type - 1` down to 0, which counts with an `int`. -/
def tableTurns (e : Instance) : ℕ := ((e.pin.stepType - 1).toInt + 1).toNat

end Instance

/-- The loop: entry `j - 1` is written next. -/
def sendTable (tableWord : ℕ → Option (BitVec 32)) :
    ℕ → List (BitVec 32) → Option (List (BitVec 32))
  | 0, data => some data
  | j + 1, data => do
      let word ← tableWord (j / 4)
      sendTable tableWord j (((word >>> (j % 4 * 8)) &&& 0xff) :: data)

/-- `mode_reg[i] = 0`: the two checks of the step type. -/
def checkStepType (c : Channel) : Channel :=
  if c.inst.tableWidth < c.inst.pin.stepType ∨ 16 < c.inst.pin.stepType then { c with modeReg := 0 }
  else c

/-- `hm2_stepgen_update_mode`: the checks are not followed by a return. -/
def updateMode (c : Channel) : Option Channel :=
  let c := { c with inst.writtenStepType := c.inst.pin.stepType }
  if c.inst.pin.stepType ≤ 2 then some { c with modeReg := c.inst.pin.stepType }
  else do
    let hash ← c.inst.hash
    let c := checkStepType { c with inst.tableHash := hash }
    let data ← sendTable c.inst.tableWord c.inst.tableTurns c.hw.tableData
    return { c with
      modeReg := 3
      hw.tableData := data
      hw.tableLength := c.inst.pin.stepType }

/-- Whether `hm2_stepgen_write` updates the mode. -/
def modeChanged (e : Instance) : Option Bool :=
  if e.pin.stepType ≠ e.writtenStepType then some true
  else if 2 < e.pin.stepType then e.hash.map fun hash => hash ≠ e.tableHash
  else some false

/-- The end of the body of the loop of `hm2_stepgen_write`. -/
def writeMode (c : Channel) : Option Channel := do
  if ← modeChanged c.inst then
    let c ← updateMode c
    return { c with hw.mode := c.modeReg }
  else return c

/-- `hm2_stepgen_write`, as far as the mode goes. -/
def writeModes (n : ℕ) (cs : ℕ → Channel) : Option (ℕ → Channel) :=
  (List.range n).foldlM (fun cs i => (writeMode (cs i)).map (Function.update cs i)) cs

/-- `hm2_stepgen_force_write_mode`: all modes are written at once. -/
def forceWriteMode (n : ℕ) (cs : ℕ → Channel) : Option (ℕ → Channel) := do
  let cs ← (List.range n).foldlM (fun cs i => (updateMode (cs i)).map (Function.update cs i)) cs
  return fun i => if i < n then { cs i with hw.mode := (cs i).modeReg } else cs i

end MachinekitHal.Hm2Stepgen

namespace MachinekitHal.Hm2Stepgen

open WrappedCounter (setWidth_ofInt ofInt_sub_ofInt)

variable {A : ℕ → ℕ → ℤ} {toS32 : ℚ → BitVec 32} {m : Module} {i n : ℕ} {t t' : ℤ}

/-- The accumulator registers of true accumulators. -/
def registers (a : ℕ → ℤ) (i : ℕ) : BitVec 32 := BitVec.ofInt 32 (a i)

/-! ### One read -/

lemma toInt_ofInt_small {x : ℤ} (hlow : -4294967296 ≤ x) (hhigh : x ≤ 4294967296) :
    (BitVec.ofInt 64 x).toInt = x := by
  rw [BitVec.toInt_ofInt]
  exact Int.bmod_eq_of_le_mul_two (by omega) (by omega)

/-- The correction is `UINT32_MAX`, one less than the wrap. -/
lemma accDelta_ofInt (hmove : |t' - t| < 2147483648) :
    accDelta (BitVec.ofInt 32 t') (BitVec.ofInt 32 t)
      = BitVec.ofInt 64 (t' - t - (t' / 4294967296 - t / 4294967296)) := by
  have hdelta : (BitVec.ofInt 32 t').setWidth 64 - (BitVec.ofInt 32 t).setWidth 64
      = BitVec.ofInt 64 (t' % 4294967296 - t % 4294967296) := by
    rw [setWidth_ofInt (by decide), setWidth_ofInt (by decide), ofInt_sub_ofInt]
    rfl
  have htoInt := @toInt_ofInt_small (t' % 4294967296 - t % 4294967296) (by omega) (by omega)
  have hmax : (0xffffffff#64 : BitVec 64) = BitVec.ofInt 64 4294967295 := rfl
  rw [abs_lt] at hmove
  rw [accDelta, hdelta, htoInt, hmax]
  split_ifs with hup hdown
  · rw [ofInt_sub_ofInt]
    congr 1
    omega
  · rw [← BitVec.ofInt_add]
    congr 1
    omega
  · congr 1
    omega

/-! ### Runs -/

/-- The pins that others set. -/
def Module.setPins (m : Module) (p : ℕ → Pins) : Module :=
  { m with inst := fun i => { m.inst i with pin := p i } }

/-- The module after `n` reads, as the true accumulators move. Between the reads the pins and the
velocities change. -/
inductive Run (toS32 : ℚ → BitVec 32) (A : ℕ → ℕ → ℤ) : ℕ → Module → Prop
  | start (m : Module) : (∀ i, (m.inst i).subcounts = 0) →
      Run toS32 A 0 (tramInit (registers (A 0)) m)
  | hal {n : ℕ} {m : Module} (p : ℕ → Pins) : Run toS32 A n m → Run toS32 A n (m.setPins p)
  | write {n : ℕ} {m : Module} (period : ℚ) :
      Run toS32 A n m → Run toS32 A n (prepareTramWrite toS32 period m)
  | read {n : ℕ} {m : Module} :
      Run toS32 A n m → Run toS32 A (n + 1) (processTramRead (registers (A (n + 1))) m)

/-- The sub-counts of an instance are off by one for each wrap from `t₀` to `t`. -/
structure Drifted (t₀ t : ℤ) (e : Instance) : Prop where
  prevAccumulator : e.prevAccumulator = BitVec.ofInt 32 t
  subcounts : e.subcounts = BitVec.ofInt 64 (t - t₀ - (t / 4294967296 - t₀ / 4294967296))

lemma Drifted.read {t₀ : ℤ} {e : Instance} (h : Drifted t₀ t e) (hmove : |t' - t| < 2147483648) :
    Drifted t₀ t' (processAccumulator (BitVec.ofInt 32 t') e) where
  prevAccumulator := rfl
  subcounts := by
    show e.subcounts + accDelta (BitVec.ofInt 32 t') e.prevAccumulator = _
    rw [h.subcounts, h.prevAccumulator, accDelta_ofInt hmove, ← BitVec.ofInt_add]
    congr 1
    omega

lemma Drifted.prepare {t₀ : ℤ} {e : Instance} (h : Drifted t₀ t e) (clock : BitVec 32)
    (period : ℚ) : Drifted t₀ t (prepareInstance toS32 clock period e).1 := by
  rw [prepareInstance]
  split_ifs with henable
  · rw [instancePrepareTramWrite]
    dsimp only
    split_ifs
    all_goals exact ⟨h.prevAccumulator, h.subcounts⟩
  · exact ⟨h.prevAccumulator, h.subcounts⟩

/-- One sub-count is lost for each wrap. -/
lemma Run.drifted (h : Run toS32 A n m)
    (hmove : ∀ k < n, ∀ i < m.numInstances, |A (k + 1) i - A k i| < 2147483648)
    (hi : i < m.numInstances) : Drifted (A 0 i) (A n i) (m.inst i) := by
  induction h with
  | start m hzero =>
    rw [tramInit, @Module.forInstances_inst m _ i hi]
    refine ⟨rfl, ?_⟩
    rw [sub_self, sub_self, sub_zero]
    exact hzero i
  | hal p h ih =>
    have hdrift := ih hmove hi
    exact ⟨hdrift.prevAccumulator, hdrift.subcounts⟩
  | @write n m period h ih =>
    have hdrift := ih hmove hi
    have hinst : (prepareTramWrite toS32 period m).inst i
        = (prepareInstance toS32 m.clockFrequency period (m.inst i)).1 :=
      @Module.forInstances_inst m
        (fun _ e => (prepareInstance toS32 m.clockFrequency period e).1) i hi
    rw [hinst]
    exact hdrift.prepare m.clockFrequency period
  | @read n m h ih =>
    have hdrift := ih (fun k hk => hmove k (hk.trans n.lt_succ_self)) hi
    rw [processTramRead, @Module.forInstances_inst m _ i hi]
    exact hdrift.read (hmove n n.lt_succ_self i hi)

/-! ### Positions -/

/-- The sub-counts, the counts and the position of an instance are those of the true
accumulator. -/
structure Exact (t₀ t : ℤ) (e : Instance) : Prop where
  subcounts : e.subcounts.toInt = t - t₀
  counts : e.pin.counts = BitVec.ofInt 32 ((t - t₀) / 65536)
  positionFb : e.pin.positionFb = ((t - t₀ : ℤ) : ℚ) / 65536 / e.pin.positionScale

lemma sshiftRight_toInt (x : BitVec 64) : (x.sshiftRight 16).toInt = x.toInt / 65536 := by
  rw [BitVec.toInt_sshiftRight, Int.shiftRight_eq_div_pow]
  rfl

lemma toNat_bmod (x : BitVec 64) :
    (x.toNat : ℤ).bmod (2 ^ 32) = x.toInt.bmod (2 ^ 32) := by
  rw [BitVec.toInt_eq_toNat_bmod]
  exact (Int.bmod_bmod_of_dvd (Nat.pow_dvd_pow 2 (by norm_num))).symm

/-- Counts and position follow the sub-counts. -/
lemma exact_of_subcounts {t₀ : ℤ} {e : Instance} (acc : BitVec 32)
    (h : (processAccumulator acc e).subcounts.toInt = t - t₀) :
    Exact t₀ t (processAccumulator acc e) := by
  refine ⟨h, ?_, ?_⟩
  · show ((processAccumulator acc e).subcounts.sshiftRight 16).setWidth 32 = _
    refine BitVec.eq_of_toInt_eq ?_
    rw [BitVec.toInt_setWidth, BitVec.toInt_ofInt, ← h, ← sshiftRight_toInt]
    exact toNat_bmod _
  · show ((processAccumulator acc e).subcounts.toInt : ℚ) / 65536 / _ = _
    rw [h]
    rfl

/-- The true accumulator is the one of the sub-counts only in the block it started in. -/
lemma Drifted.toInt_iff {t₀ : ℤ} {e : Instance} (h : Drifted t₀ t e) :
    e.subcounts.toInt = t - t₀ ↔ t / 4294967296 = t₀ / 4294967296 := by
  rw [h.subcounts]
  constructor
  · intro hexact
    have hlow := @BitVec.le_two_mul_toInt 64 e.subcounts
    have hhigh := @BitVec.two_mul_toInt_lt 64 e.subcounts
    rw [h.subcounts, hexact] at hlow hhigh
    have hmod : (t - t₀) % 2 ^ 64 = (t - t₀ - (t / 4294967296 - t₀ / 4294967296)) % 2 ^ 64 := by
      rw [BitVec.toInt_ofInt] at hexact
      calc (t - t₀) % 2 ^ 64
          = (t - t₀ - (t / 4294967296 - t₀ / 4294967296)).bmod (2 ^ 64) % 2 ^ 64 := by rw [hexact]
        _ = (t - t₀ - (t / 4294967296 - t₀ / 4294967296)) % 2 ^ 64 := Int.bmod_emod
    omega
  · intro hblock
    rw [hblock, sub_self, sub_zero]
    exact toInt_ofInt_small (by omega) (by omega)

/-- **Behind a read the positions are exact if, and only if, the true accumulator is in the block
of `2 ^ 32` sub-counts that it started in**: each wrap loses one sub-count. -/
theorem position_exact_iff (h : Run toS32 A n m)
    (hmove : ∀ k ≤ n, ∀ i < m.numInstances, |A (k + 1) i - A k i| < 2147483648)
    (hi : i < m.numInstances) :
    Exact (A 0 i) (A (n + 1) i) ((processTramRead (registers (A (n + 1))) m).inst i) ↔
      A (n + 1) i / 4294967296 = A 0 i / 4294967296 := by
  have hdrift := h.read.drifted (fun k hk => hmove k (Nat.lt_succ_iff.1 hk)) hi
  have hinst : (processTramRead (registers (A (n + 1))) m).inst i
      = processAccumulator (registers (A (n + 1)) i) (m.inst i) :=
    @Module.forInstances_inst m _ i hi
  refine ⟨fun hexact => hdrift.toInt_iff.1 hexact.subcounts, fun hblock => ?_⟩
  have hsub := hdrift.toInt_iff.2 hblock
  rw [hinst] at hsub ⊢
  exact exact_of_subcounts _ hsub

/-- A step generator with a scale of 1. -/
def quiet : Instance where
  pin :=
    { positionCmd := 0, velocityCmd := 0, counts := 0, positionFb := 0, velocityFb := 0
      enable := false, controlType := false, dbgFfVel := 0, dbgVelError := 0, dbgSToMatch := 0
      dbgErrAtMatch := 0, dbgStepRate := 0, dbgPosMinusPrevCmd := 0, positionScale := 1
      maxvel := 0, maxaccel := 1, steplen := 16383, stepspace := 16383, stepType := 0
      table := Vector.replicate 4 0 }
  tableHash := 0
  oldPositionCmd := 0
  prevAccumulator := 0
  subcounts := 0
  writtenStepType := 0xffffffff
  tableWidth := 2

/-- A module with one step generator. -/
def oneStepgen : Module where
  numInstances := 1
  inst := fun _ => quiet
  clockFrequency := 50000000
  stepRateReg := fun _ => 0

/-- An accumulator that wraps between two reads, and back before the next one. -/
def upAndBack (n _i : ℕ) : ℤ := if n = 1 then 4294968296 else 4294966296

/-- The wrap back makes up for the wrap. -/
theorem position_exact_upAndBack :
    Exact (upAndBack 0 0) (upAndBack 2 0) ((processTramRead (registers (upAndBack 2))
      (processTramRead (registers (upAndBack 1))
        (tramInit (registers (upAndBack 0)) oneStepgen))).inst 0) := by
  refine (@position_exact_iff upAndBack (fun _ => 0) _ 0 1 (.read (.start oneStepgen fun _ => rfl))
    (fun k _ i _ => ?_) (by decide)).2 (by decide)
  rw [upAndBack, upAndBack, abs_lt]
  split_ifs <;> omega

/-- One sub-count backwards wraps the accumulator: it is lost. -/
theorem position_drifts :
    ¬ ∀ (toS32 : ℚ → BitVec 32) (A : ℕ → ℕ → ℤ) (n : ℕ) (m : Module) (i : ℕ),
      Run toS32 A n m →
      (∀ k ≤ n, ∀ i < m.numInstances, |A (k + 1) i - A k i| < 2147483648) →
      i < m.numInstances →
      Exact (A 0 i) (A (n + 1) i) ((processTramRead (registers (A (n + 1))) m).inst i) := by
  intro hall
  have hexact := hall (fun _ => 0) (fun n _ => -n) 0 _ 0 (.start oneStepgen fun _ => rfl)
    (fun k _ i _ => by push_cast; rw [neg_sub_neg, sub_add_cancel_left]; norm_num) (by decide)
  exact absurd hexact.subcounts (by decide)

end MachinekitHal.Hm2Stepgen
