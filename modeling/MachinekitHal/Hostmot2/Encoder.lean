import Mathlib.Tactic

/-!
The encoders of hostmot2.

* `Hm2Encoder.Pins`, `Hm2Encoder.Instance`, `Hm2Encoder.Module`: the pins, an instance and the
  module with all its instances. `Hm2Encoder.TramRead`: the registers after a read.
* `Hm2Encoder.controlReg`, `Hm2Encoder.write`: the control registers.
* `Hm2Encoder.updateRawcountsAndHandleIndex`, `Hm2Encoder.updatePosition`: counts and position.
* `Hm2Encoder.processTramRead`: the estimator, for all instances.

Floating-point arithmetic is a parameter.
-/

namespace MachinekitHal.Hm2Encoder

/-- The floating-point numbers of the pins and of the driver. -/
structure Doubles where
  Float : Type
  ofInt : ℤ → Float
  mul : Float → Float → Float
  div : Float → Float → Float
  fabs : Float → Float
  eq : Float → Float → Bool
  lt : Float → Float → Bool
  le : Float → Float → Bool

variable {D : Doubles}

/-- The pins of an instance. -/
structure Pins (D : Doubles) where
  rawcounts : BitVec 32
  rawlatch : BitVec 32
  count : BitVec 32
  countLatch : BitVec 32
  position : D.Float
  positionLatch : D.Float
  velocity : D.Float
  reset : Bool
  indexEnable : Bool
  latchEnable : Bool
  latchPolarity : Bool
  quadratureError : Bool
  quadratureErrorEnable : Bool
  inputA : Bool
  inputB : Bool
  inputIdx : Bool
  scale : D.Float
  indexInvert : Bool
  indexMask : Bool
  indexMaskInvert : Bool
  counterMode : Bool
  indexMode : Bool
  filter : Bool
  velTimeout : D.Float

/-- `state` -/
inductive State where
  | STOPPED
  | MOVING
  deriving DecidableEq

/-- `hm2_encoder_instance_t`. -/
structure Instance (D : Doubles) where
  pin : Pins D
  zeroOffset : BitVec 32
  prevRegCount : BitVec 16
  prevDSCounts : BitVec 32
  prevControl : BitVec 32
  prevEventRawcounts : BitVec 32
  prevEventRegTimestamp : BitVec 16
  tscNumRollovers : BitVec 32
  prevTimeOfInterest : BitVec 16
  state : State

/-- `hm2_encoder_t`, with the variable that `hm2_encoder_read_control_register` keeps. -/
structure Module (D : Doubles) where
  numInstances : ℕ
  inst : ℕ → Instance D
  lastErrorEnable : Bool
  secondsPerTsdivClock : D.Float

/-- The registers. -/
structure TramRead where
  counterReg : ℕ → BitVec 32
  readControlReg : ℕ → BitVec 32
  timestampCountReg : BitVec 32

/-- `hm2_encoder_get_reg_count`. -/
def TramRead.regCount (hw : TramRead) (i : ℕ) : BitVec 16 := (hw.counterReg i).setWidth 16

/-- `hm2_encoder_get_reg_timestamp`. -/
def TramRead.regTimestamp (hw : TramRead) (i : ℕ) : BitVec 16 :=
  (hw.counterReg i >>> 16).setWidth 16

/-- `hm2_encoder_get_reg_tsc`. -/
def TramRead.regTsc (hw : TramRead) : BitVec 16 := hw.timestampCountReg.setWidth 16

/-- The latched count. -/
def TramRead.latchedCount (hw : TramRead) (i : ℕ) : BitVec 16 :=
  (hw.readControlReg i >>> 16).setWidth 16

/-! ### The control registers -/

/-- `HM2_ENCODER_LATCH_ON_INDEX` -/
def latchOnIndex : BitVec 32 := 1 <<< 4

/-- `HM2_ENCODER_LATCH_ON_PROBE` -/
def latchOnProbe : BitVec 32 := 1 <<< 13

/-- `HM2_ENCODER_QUADRATURE_ERROR` -/
def quadratureError : BitVec 32 := 1 <<< 15

/-- `HM2_ENCODER_CONTROL_MASK` -/
def controlMask : BitVec 32 := 0x0001ffff

/-- A bit of a register. -/
def hasBit (reg bits : BitVec 32) : Bool := reg &&& bits ≠ 0

/-- `do_flag`. -/
def doFlag (reg : BitVec 32) (condition : Bool) (bits : BitVec 32) : BitVec 32 :=
  if condition then reg ||| bits else reg &&& ~~~bits

/-- `hm2_encoder_update_control_register`, for one instance. -/
def controlReg (p : Pins D) : BitVec 32 :=
  let reg := doFlag 0 p.indexEnable latchOnIndex
  let reg := doFlag reg (!p.indexEnable && p.latchEnable) latchOnProbe
  let reg := doFlag reg (p.indexEnable || p.latchEnable) (1 <<< 6)
  let reg := doFlag reg p.latchPolarity (1 <<< 12)
  let reg := doFlag reg p.indexInvert (1 <<< 3)
  let reg := doFlag reg p.indexMask (1 <<< 9)
  let reg := doFlag reg p.indexMaskInvert (1 <<< 8)
  let reg := doFlag reg p.counterMode (1 <<< 10)
  let reg := doFlag reg p.indexMode (1 <<< 16)
  doFlag reg p.filter (1 <<< 11)

/-- `hm2_encoder_force_write`: the control registers are written. -/
def forceWrite (m : Module D) : Module D :=
  { m with inst := fun i => { m.inst i with prevControl := controlReg (m.inst i).pin } }

/-- `hm2_encoder_write`; `other` says that another register of the module has to be written. -/
def write (m : Module D) (other : Bool) : Module D :=
  if (List.range m.numInstances).any fun i =>
      (m.inst i).prevControl &&& controlMask ≠ controlReg (m.inst i).pin &&& controlMask then
    forceWrite m
  else if other then forceWrite m
  else m

/-- The instance `i` changes. -/
def Module.set (m : Module D) (i : ℕ) (e : Instance D) : Module D :=
  { m with inst := Function.update m.inst i e }

/-- The check for quadrature errors of `hm2_encoder_read_control_register`. -/
def checkQuadrature (hw : TramRead) (m : Module D) (i : ℕ) : Module D :=
  if (m.inst i).pin.quadratureErrorEnable then
    if !m.lastErrorEnable then { forceWrite m with lastErrorEnable := true }
    else m.set i { m.inst i with
      pin.quadratureError := hasBit (hw.readControlReg i &&& controlMask) quadratureError }
  else { m.set i { m.inst i with pin.quadratureError := false } with lastErrorEnable := false }

/-- The inputs of an instance. -/
def readInputs (hw : TramRead) (m : Module D) (i : ℕ) : Module D :=
  m.set i { m.inst i with
    pin.inputA := hasBit (hw.readControlReg i) 1
    pin.inputB := hasBit (hw.readControlReg i) (1 <<< 1)
    pin.inputIdx := hasBit (hw.readControlReg i) (1 <<< 2) }

/-- `hm2_encoder_read_control_register`. -/
def readControlRegister (hw : TramRead) (m : Module D) : Module D :=
  (List.range m.numInstances).foldl (fun m i => readInputs hw (checkQuadrature hw m i) i) m

/-! ### Counts -/

/-- The difference of two registers, as one of at most 32768. -/
def regDiff (reg prev : BitVec 16) : ℤ :=
  let diff : ℤ := reg.toNat - prev.toNat
  let diff := if 32768 < diff then diff - 65536 else diff
  if diff < -32768 then diff + 65536 else diff

/-- The index is looked for, and found. -/
def indexEvent (hw : TramRead) (i : ℕ) (e : Instance D) : Bool :=
  hasBit e.prevControl latchOnIndex && !hasBit (hw.readControlReg i) latchOnIndex

/-- The probe is looked for instead, and found. -/
def probeEvent (hw : TramRead) (i : ℕ) (e : Instance D) : Bool :=
  !hasBit e.prevControl latchOnIndex && hasBit e.prevControl latchOnProbe &&
    !hasBit (hw.readControlReg i) latchOnProbe

/-- `hm2_encoder_instance_update_rawcounts_and_handle_index`. -/
def updateRawcountsAndHandleIndex (hw : TramRead) (i : ℕ) (e : Instance D) : Instance D :=
  let prevRawcounts := e.pin.rawcounts
  let latched := prevRawcounts + BitVec.ofInt 32 (regDiff (hw.latchedCount i) e.prevRegCount)
  { e with
    pin := { e.pin with
      rawcounts := prevRawcounts + BitVec.ofInt 32 (regDiff (hw.regCount i) e.prevRegCount)
      indexEnable := if indexEvent hw i e then false else e.pin.indexEnable
      rawlatch := if probeEvent hw i e then latched else e.pin.rawlatch }
    zeroOffset := if indexEvent hw i e then latched else e.zeroOffset
    prevRegCount := hw.regCount i }

/-- `hm2_encoder_instance_update_position`. -/
def updatePosition (e : Instance D) : Instance D :=
  let zeroOffset := if e.pin.reset then e.pin.rawcounts else e.zeroOffset
  let count := e.pin.rawcounts - zeroOffset
  let countLatch := e.pin.rawlatch - zeroOffset
  { e with
    zeroOffset := zeroOffset
    pin := { e.pin with
      count := count
      countLatch := countLatch
      position := D.div (D.ofInt count.toInt) e.pin.scale
      positionLatch := D.div (D.ofInt countLatch.toInt) e.pin.scale } }

/-! ### The estimator -/

/-- The index or the probe is looked for. -/
def latching (e : Instance D) : Bool :=
  hasBit e.prevControl (latchOnIndex ||| latchOnProbe)

/-- The clocks since the last event. -/
def dTClocks (e : Instance D) (timeOfInterest : BitVec 16) (rollovers : BitVec 32) : BitVec 32 :=
  timeOfInterest.setWidth 32 - e.prevEventRegTimestamp.setWidth 32 + rollovers <<< 16

/-- The rollovers of the time stamp counter. -/
def rollovers (e : Instance D) (timeOfInterest : BitVec 16) : BitVec 32 :=
  if timeOfInterest < e.prevTimeOfInterest then e.tscNumRollovers + 1 else e.tscNumRollovers

/-- `HM2_ENCODER_STOPPED`. -/
def tramReadStopped (hw : TramRead) (i : ℕ) (e : Instance D) : Instance D :=
  if hw.regCount i = e.prevRegCount ∧ !latching e then
    -- still not moving, but `reset` can change the position
    updatePosition e
  else
    let e := updatePosition (updateRawcountsAndHandleIndex hw i e)
    { e with
      prevEventRawcounts := e.pin.rawcounts
      prevEventRegTimestamp := hw.regTimestamp i
      prevDSCounts := 0
      tscNumRollovers := 0
      prevTimeOfInterest := hw.regTimestamp i
      state := .MOVING }

/-- The time since the last event reached `vel_timeout`. -/
def timedOut (seconds : D.Float) (hw : TramRead) (e : Instance D) : Bool :=
  D.le e.pin.velTimeout
    (D.mul (D.ofInt (dTClocks e hw.regTsc (rollovers e hw.regTsc)).toInt) seconds)

/-- The velocity without an event: it is at most that of one count since the last one. -/
def slowVelocity (seconds : D.Float) (hw : TramRead) (e : Instance D) : D.Float :=
  let dT := dTClocks e hw.regTsc (rollovers e hw.regTsc)
  let dSCounts : ℤ := if D.lt (D.ofInt 0) (D.mul e.pin.velocity e.pin.scale) then 1 else -1
  let vel := D.div (D.div (D.ofInt dSCounts) e.pin.scale) (D.mul (D.ofInt dT.toInt) seconds)
  if 0 < dT.toInt ∧ D.lt (D.fabs vel) (D.fabs e.pin.velocity) then vel else e.pin.velocity

/-- The estimate without an event. -/
def slowEstimate (seconds : D.Float) (hw : TramRead) (e : Instance D) : Instance D :=
  { e with
    tscNumRollovers := rollovers e hw.regTsc
    pin := { e.pin with velocity := slowVelocity seconds hw e } }

/-- `HM2_ENCODER_MOVING`, without an event since the last read. -/
def tramReadStill (seconds : D.Float) (hw : TramRead) (i : ℕ) (e : Instance D) : Instance D :=
  let e := updatePosition e
  if timedOut seconds hw e then
    { e with
      tscNumRollovers := rollovers e hw.regTsc
      pin := { e.pin with velocity := D.ofInt 0 }
      state := .STOPPED }
  else
    let e := slowEstimate seconds hw e
    -- the index or the probe has to be handled even though no pulses arrived
    let e := if latching e then updateRawcountsAndHandleIndex hw i e else e
    { e with prevTimeOfInterest := hw.regTsc }

/-- The velocity at an event. -/
def eventVelocity (seconds : D.Float) (hw : TramRead) (i : ℕ) (e : Instance D) : D.Float :=
  let dSCounts := e.pin.rawcounts - e.prevEventRawcounts
  let dT := dTClocks e (hw.regTimestamp i) (rollovers e (hw.regTimestamp i))
  if dSCounts = 1 ∧ e.prevDSCounts.slt 0 ∨ dSCounts = -1 ∧ (0#32).slt e.prevDSCounts then
    -- one edge back
    D.ofInt 0
  else if 0 < dT.toInt then
    D.div (D.div (D.ofInt dSCounts.toInt) e.pin.scale) (D.mul (D.ofInt dT.toInt) seconds)
  else e.pin.velocity

/-- `HM2_ENCODER_MOVING`, with an event. -/
def tramReadEvent (seconds : D.Float) (hw : TramRead) (i : ℕ) (e : Instance D) : Instance D :=
  let e := updatePosition (updateRawcountsAndHandleIndex hw i e)
  { e with
    pin := { e.pin with velocity := eventVelocity seconds hw i e }
    tscNumRollovers := 0
    prevDSCounts := e.pin.rawcounts - e.prevEventRawcounts
    prevEventRawcounts := e.pin.rawcounts
    prevEventRegTimestamp := hw.regTimestamp i
    prevTimeOfInterest := hw.regTimestamp i }

/-- A scale of 0 is replaced. -/
def checkScale (e : Instance D) : Instance D :=
  if D.eq e.pin.scale (D.ofInt 0) then { e with pin := { e.pin with scale := D.ofInt 1 } } else e

/-- The estimator of an instance. -/
def estimate (seconds : D.Float) (hw : TramRead) (i : ℕ) (e : Instance D) : Instance D :=
  match e.state with
  | .STOPPED => tramReadStopped hw i e
  | .MOVING =>
    if hw.regCount i = e.prevRegCount then tramReadStill seconds hw i e
    else tramReadEvent seconds hw i e

/-- `hm2_encoder_instance_process_tram_read`. -/
def instanceProcessTramRead (hw : TramRead) (m : Module D) (i : ℕ) : Module D :=
  let m := readControlRegister hw (m.set i (checkScale (m.inst i)))
  m.set i (estimate m.secondsPerTsdivClock hw i (m.inst i))

/-- `hm2_encoder_process_tram_read`. -/
def processTramRead (hw : TramRead) (m : Module D) : Module D :=
  (List.range m.numInstances).foldl (instanceProcessTramRead hw) m

/-- `hm2_encoder_tram_init`, for one instance. -/
def tramInit (hw : TramRead) (i : ℕ) (e : Instance D) : Instance D :=
  let count := (hw.regCount i).setWidth 32
  { e with
    pin := { e.pin with
      rawcounts := count
      rawlatch := count
      count := 0
      countLatch := 0
      position := D.ofInt 0
      positionLatch := D.ofInt 0
      velocity := D.ofInt 0
      quadratureError := false }
    zeroOffset := count
    prevRegCount := hw.regCount i
    state := .STOPPED }

end MachinekitHal.Hm2Encoder
