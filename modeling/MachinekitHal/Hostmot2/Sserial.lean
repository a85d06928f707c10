import Mathlib.Tactic

/-!
The smart-serial ports of hostmot2.

* `Sserial.Conf`, `Sserial.Pins`, `Sserial.Remote`, `Sserial.Port`: a field of the process
  data, its pins, a remote card and an instance of the module.
* `Sserial.setbits`: puts a field into the data registers of a card.
* `Sserial.packConf`, `packConfs`, `packRemotes`: the pins into the registers. The variable
  `buff` of the loops is not set in every branch, so it is an argument of all of them.
* `Sserial.stepPort`: the state machine of one port; `none` where the function returns.
* `Sserial.hm2SserialPrepareTramWrite`: the loop over the ports.

Floating-point arithmetic is a parameter.
-/

namespace MachinekitHal.Sserial

/-- `DataType`. -/
inductive DataType where
  | pad
  | bits
  | unsigned
  | signed
  | stream
  | boolean
  | encoder
  | float
  | other (code : ℕ)
  deriving DecidableEq

/-- `DataDir`; `hm2_sserial_create_pins` accepts no other. -/
inductive DataDir where
  | lbpIn
  | lbpIO
  | lbpOut
  deriving DecidableEq

/-- `hm2_sserial_data_t`. The shifts of `setbits` are defined for these lengths. -/
structure Conf where
  dataLength : ℕ
  dataType : DataType
  dataDir : DataDir
  length_pos : 0 < dataLength
  length_le : dataLength ≤ 64
  deriving DecidableEq

/-- The field is written: `DataDir & 0xC0`. -/
def Conf.output (conf : Conf) : Bool := conf.dataDir ≠ .lbpIn

/-- The floating-point numbers of the pins and of the driver. -/
structure FloatArith where
  /-- `hal_float_t` -/
  Float64 : Type
  /-- `float` -/
  Float32 : Type
  toSingle : Float64 → Float32
  gt : Float32 → Float64 → Bool
  lt : Float32 → Float64 → Bool
  /-- `(u32)((val / (float)fullscale) * (~0ull >> (64 - len)))` -/
  unsigned : Float32 → Float64 → ℕ → BitVec 32
  /-- `(s32)(val / fullscale * 2147483647)` -/
  signed : Float32 → Float64 → BitVec 32
  singleBits : Float32 → BitVec 32
  doubleBits : Float64 → BitVec 64

/-- `hm2_sserial_pins_t`: the pins that are written to the card. -/
structure Pins (A : FloatArith) where
  u32Pin : BitVec 32
  floatPin : A.Float64
  bitPins : ℕ → Bool
  invert : ℕ → Bool
  boolean : Bool
  maxlim : A.Float64
  minlim : A.Float64
  fullscale : A.Float64

/-- The data registers of a card. -/
@[ext] structure Regs where
  reg0 : BitVec 32
  reg1 : BitVec 32
  reg2 : BitVec 32
  deriving DecidableEq

/-- `hm2_sserial_remote_t`. -/
structure Remote (A : FloatArith) where
  index : ℕ
  confs : List (Conf × Pins A)
  status : BitVec 32
  regs : Regs
  regCsAddr : BitVec 32

/-- `hm2_sserial_instance_t`. -/
structure Port (A : FloatArith) where
  index : ℕ
  tag : BitVec 32
  remotes : List (Remote A)
  commandRegRead : BitVec 32
  commandRegWrite : BitVec 32
  faultCount : BitVec 32
  faultInc : BitVec 32
  faultDec : BitVec 32
  faultLim : BitVec 32
  run : Bool
  state : BitVec 32
  timer : BitVec 32

/-! ### Registers -/

/-- `num_write_bits`, as `hm2_sserial_create_pins` adds it up. A register is registered with
the TRAM if bits are written to it. -/
def numWriteBits : List Conf → ℕ
  | [] => 0
  | conf :: confs => (if conf.output then conf.dataLength else 0) + numWriteBits confs

/-- The registers of the card, zeroed where they are registered. -/
def Regs.zeroed (regs : Regs) (bits : ℕ) : Regs where
  reg0 := if 0 < bits then 0 else regs.reg0
  reg1 := if 32 < bits then 0 else regs.reg1
  reg2 := if 64 < bits then 0 else regs.reg2

/-- `~0ull`. -/
def ones : BitVec 64 := BitVec.allOnes 64

/-- `setbits`. -/
def setbits (regs : Regs) (val : BitVec 64) (start len : ℕ) : Regs :=
  let stop := start + len
  if stop ≤ 32 then
    let mask0 := ones >>> (64 - len)
    { regs with reg0 := regs.reg0 ||| ((val &&& mask0) <<< start).setWidth 32 }
  else if stop ≤ 64 then
    if 32 ≤ start then
      let mask1 := ones >>> (64 - len)
      { regs with reg1 := regs.reg1 ||| ((val &&& mask1) <<< (start - 32)).setWidth 32 }
    else
      let mask0 := ones >>> (32 + start)
      let mask1 := (ones >>> (96 - stop)) <<< (32 - start)
      { regs with
        reg0 := regs.reg0 ||| ((val &&& mask0) <<< start).setWidth 32
        reg1 := regs.reg1 ||| ((val &&& mask1) >>> (32 - start)).setWidth 32 }
  else if 64 ≤ start then
    let mask2 := ones >>> (64 - len)
    { regs with reg2 := regs.reg2 ||| ((val &&& mask2) <<< (start - 64)).setWidth 32 }
  else if 32 ≤ start then
    let mask1 := ones >>> start
    let mask2 := (ones >>> (128 - stop)) <<< (64 - start)
    { regs with
      reg1 := regs.reg1 ||| ((val &&& mask1) <<< (start - 32)).setWidth 32
      reg2 := regs.reg2 ||| ((val &&& mask2) >>> (64 - start)).setWidth 32 }
  else
    let mask0 := ones >>> (32 + start)
    let mask1 := (0xFFFFFFFF : BitVec 64) <<< (32 - start)
    let mask2 := (ones >>> (128 - stop)) <<< (64 - start)
    { reg0 := regs.reg0 ||| ((val &&& mask0) <<< start).setWidth 32
      -- the one register that is assigned
      reg1 := ((val &&& mask1) >>> (32 - start)).setWidth 32
      reg2 := regs.reg2 ||| ((val &&& mask2) >>> (64 - start)).setWidth 32 }

/-! ### Pins -/

variable {A : FloatArith}

/-- The pin, limited to its range. -/
def Pins.limited (pin : Pins A) : A.Float32 :=
  let val := A.toSingle pin.floatPin
  let val := if A.gt val pin.maxlim then A.toSingle pin.maxlim else val
  if A.lt val pin.minlim then A.toSingle pin.minlim else val

/-- The bit pins, the lowest one first. -/
def Pins.packed (pin : Pins A) : ℕ → BitVec 64
  | 0 => 0
  | b + 1 => pin.packed b |||
      ((BitVec.ofBool (pin.bitPins b)).setWidth 64 <<< b ^^^
        (BitVec.ofBool (pin.invert b)).setWidth 64 <<< b)

/-- The word of a field in `buff`, by the type of the field. -/
def packConf (conf : Conf) (pin : Pins A) (buff : BitVec 64) : BitVec 64 :=
  let len := conf.dataLength
  match conf.dataType with
  | .pad => buff
  | .bits => pin.packed len
  | .unsigned => (A.unsigned pin.limited pin.fullscale len).setWidth 64
  | .signed =>
    ((A.signed pin.limited pin.fullscale).sshiftRight (32 - len)).signExtend 64 &&&
      ones >>> (64 - len)
  | .stream => pin.u32Pin.setWidth 64 &&& ones >>> (64 - len)
  | .boolean => if pin.boolean ^^ pin.invert 0 then ones >>> (64 - len) else 0
  -- assume that a counter is not written
  | .encoder => buff
  | .float =>
    if len = 32 then
      -- `memcpy` of four bytes
      buff &&& ones <<< 32 ||| (A.singleBits (A.toSingle pin.floatPin)).setWidth 64
    else if len = 64 then A.doubleBits pin.floatPin
    else buff
  | .other _ => buff

/-- A float field of another length is warned about once, then ignored. -/
def Conf.warned (conf : Conf) : Conf :=
  if conf.dataType = .float ∧ conf.dataLength ≠ 32 ∧ conf.dataLength ≠ 64 then
    { conf with dataType := .pad }
  else conf

/-- The fields of a card: the fields left, `buff` and the registers. -/
def packConfs : List (Conf × Pins A) → ℕ → BitVec 64 → Regs →
    List (Conf × Pins A) × BitVec 64 × Regs
  | [], _, buff, regs => ([], buff, regs)
  | (conf, pin) :: rest, bitcount, buff, regs =>
    if conf.output then
      let buff := packConf conf pin buff
      let (rest, buff, regs) := packConfs rest (bitcount + conf.dataLength) buff
        (setbits regs buff bitcount conf.dataLength)
      ((conf.warned, pin) :: rest, buff, regs)
    else
      let (rest, buff, regs) := packConfs rest bitcount buff regs
      ((conf, pin) :: rest, buff, regs)

/-- The fields without their pins. -/
def Remote.fields (chan : Remote A) : List Conf := chan.confs.map Prod.fst

/-- The pins of a card. -/
def packRemote (chan : Remote A) (buff : BitVec 64) : Remote A × BitVec 64 :=
  let (confs, buff, regs) :=
    packConfs chan.confs 0 buff (chan.regs.zeroed (numWriteBits chan.fields))
  ({ chan with confs := confs, regs := regs }, buff)

/-- The pins of a port. -/
def packRemotes : List (Remote A) → BitVec 64 → List (Remote A) × BitVec 64
  | [], buff => ([], buff)
  | chan :: rest, buff =>
    let (chan, buff) := packRemote chan buff
    let (rest, buff) := packRemotes rest buff
    (chan :: rest, buff)

/-! ### Ports -/

/-- `hm2_sserial_setmode`: the words written to the card, with their addresses. `modes` are
the characters of `sserial_modes`. -/
def hm2SserialSetmode (modes : ℕ → ℕ → Char) (inst : Port A) : List (BitVec 32 × BitVec 32) :=
  inst.remotes.filterMap fun chan =>
    let mode := modes inst.index chan.index
    if mode ≠ 'x' then some (chan.regCsAddr, (BitVec.ofNat 32 mode.toNat - 48) <<< 24) else none

/-- `hm2_sserial_check_errors`: a card reports an error. The lowest bit is not looked at. -/
def hm2SserialCheckErrors (inst : Port A) : Bool :=
  inst.remotes.any fun chan => chan.status &&& 0xFF00E1FF#32 &&& 0xFFFFFFFE#32 ≠ 0

/-- State `0x01` with the command register clear: the faults are counted and the pins packed. -/
def transfer (inst : Port A) (buff : BitVec 64) : Port A × BitVec 64 :=
  let count := if hm2SserialCheckErrors inst then inst.faultCount + inst.faultInc
    else inst.faultCount
  let count := if count > inst.faultDec then count - inst.faultDec else 0
  let (remotes, buff) := packRemotes inst.remotes buff
  ({ inst with faultCount := count, remotes := remotes, commandRegWrite := 0x1000 ||| inst.tag },
    buff)

/-- What one turn of the loop leaves. -/
structure Turn (A : FloatArith) where
  port : Port A
  writes : List (BitVec 32 × BitVec 32)
  buff : BitVec 64

/-- The state machine of a port; `none` where the function returns. -/
def stepPort (modes : ℕ → ℕ → Char) (period : ℤ) (inst : Port A) (buff : BitVec 64) :
    Option (Turn A) :=
  if inst.state = 0x00 then
    if !inst.run then none
    else some ⟨{ inst with state := 0x11, timer := 0, commandRegWrite := 0x900 ||| inst.tag,
                           faultCount := 0 }, hm2SserialSetmode modes inst, buff⟩
  else if inst.state = 0x01 then
    if !inst.run then some ⟨{ inst with state := 0x02 }, [], buff⟩
    else if inst.faultCount > inst.faultLim then
      some ⟨{ inst with state := 0x20, run := false, commandRegWrite := 0x800 }, [], buff⟩
    else if inst.commandRegRead ≠ 0 then
      some ⟨{ inst with faultCount := inst.faultCount + inst.faultInc,
                        commandRegWrite := 0x80000000 }, [], buff⟩
    else
      let (port, buff) := transfer inst buff
      some ⟨port, [], buff⟩
  else if inst.state = 0x02 then
    some ⟨{ inst with state := 0x10, timer := 0, commandRegWrite := 0x800 }, [], buff⟩
  else if inst.state = 0x10 ∨ inst.state = 0x11 then
    let timer := inst.timer + BitVec.ofInt 32 period
    let done : Port A := { inst with state := inst.state &&& 0x0F, timer := timer,
                                     commandRegWrite := 0x80000000 }
    if inst.commandRegRead ≠ 0 then
      if timer < 2100000000 then some ⟨{ inst with timer := timer }, [], buff⟩
      -- timeout: carry on
      else some ⟨{ done with faultCount := inst.faultCount + inst.faultInc }, [], buff⟩
    else some ⟨done, [], buff⟩
  else if inst.state = 0x20 then
    some ⟨{ inst with commandRegWrite := 0x80000000,
                      state := if inst.run then inst.state else 0x02 }, [], buff⟩
  else some ⟨{ inst with state := 0 }, [], buff⟩

/-- `hm2_sserial_prepare_tram_write`: the ports and the words written to their cards. The
messages and the variables that only decide about them are left out. `buff` is the variable
of the function, which is not initialised. -/
def hm2SserialPrepareTramWrite (modes : ℕ → ℕ → Char) (period : ℤ) :
    List (Port A) → BitVec 64 → List (Port A × List (BitVec 32 × BitVec 32))
  | [], _ => []
  | inst :: rest, buff =>
    match stepPort modes period inst buff with
    | none => (inst :: rest).map fun p => (p, [])
    | some turn =>
      (turn.port, turn.writes) :: hm2SserialPrepareTramWrite modes period rest turn.buff

end MachinekitHal.Sserial
