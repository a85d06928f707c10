import MachinekitHal.Lib.Runs
import MachinekitHal.Lib.Turns
import MachinekitHal.Lib.Word

/-!
The realtime half of the oscilloscope, and how its record is read.

* `Halscope.Shm`, `Halscope.Rt`: the shared control structure and the one of the realtime half.
* `Halscope.captureSample`, `Halscope.checkTrigger`, `Halscope.sample`: the functions of
  `scope_rt`.
* `Halscope.captureCopyData`: the record as the user half copies it.
* `Halscope.ScopeSys.step`: calls of `sample` with the values of the channels, and what the user
  half does between two of them. Beside the state stands what was captured since the start of
  the capture.
-/

namespace MachinekitHal.Halscope

/-- `scope_state_t`. -/
inductive ScopeState where
  | IDLE
  | INIT
  | PRE_TRIG
  | TRIG_WAIT
  | POST_TRIG
  | DONE
  | RESET
  deriving DecidableEq

/-- The types of the values that can be traced. -/
inductive HalType where
  | bit
  | float
  | s32
  | u32
  | s64
  | u64
  | other
  deriving DecidableEq

/-- `scope_data_t`. -/
abbrev Cell := BitVec 64

/-- `scope_shm_control_t`. -/
structure Shm where
  bufLen : ℕ
  mult : ℕ
  recLen : ℕ
  sampleLen : ℕ
  preTrig : ℕ
  trigChan : ℕ
  trigLevel : Cell
  trigEdge : Bool
  forceTrig : Bool
  autoTrig : Bool
  start : ℕ
  curr : ℕ
  samples : ℕ
  state : ScopeState
  dataType : ℕ → HalType
  dataLen : ℕ → ℕ

/-- `scope_rt_control_t`, with the variable that `check_trigger` keeps. -/
structure Rt where
  buffer : ℕ → Cell
  multCntr : ℕ
  autoTimer : ℕ
  dataType : ℕ → HalType
  dataLen : ℕ → ℕ
  compareResult : Bool

/-! ### A sample -/

/-- The bytes of a cell that a value of this length takes. -/
def mask (len : ℕ) : Cell :=
  if len = 1 then 0xFF else if len = 4 then 0xFFFFFFFF else BitVec.allOnes 64

/-- The lengths that are captured. -/
def captured (len : ℕ) : Bool := len = 1 || len = 4 || len = 8

/-- The channels of `capture_sample`, from `dest` on. -/
def captureChannels (dataLen : ℕ → ℕ) (values : ℕ → Cell) :
    List ℕ → ℕ → (ℕ → Cell) → ℕ → Cell
  | [], _, buffer => buffer
  | n :: rest, dest, buffer =>
    if captured (dataLen n) then
      captureChannels dataLen values rest (dest + 1) (Function.update buffer dest
        (buffer dest &&& ~~~ mask (dataLen n) ||| values n &&& mask (dataLen n)))
    else captureChannels dataLen values rest dest buffer

/-- The state of both halves. -/
structure Scope where
  shm : Shm
  rt : Rt

/-- The next place of a sample in the buffer. -/
def Shm.advance (shm : Shm) (pos : ℕ) : ℕ :=
  if shm.bufLen < pos + shm.sampleLen + shm.sampleLen then 0 else pos + shm.sampleLen

/-- `capture_sample`. -/
def captureSample (s : Scope) (values : ℕ → Cell) : Scope where
  shm := { s.shm with curr := s.shm.advance s.shm.curr }
  rt := { s.rt with
    buffer := captureChannels s.rt.dataLen values (List.range 16) s.shm.curr s.rt.buffer }

/-! ### The trigger -/

/-- A value against the trigger level; numbers in the IEEE format are compared as integers. -/
def compare (type : HalType) (value level : Cell) : Bool :=
  match type with
  | .bit => value &&& 0xFF ≠ 0
  | .float =>
    if value.msb then
      if level.msb then
        (value ^^^ 0x8000000000000000).ult (level ^^^ 0x8000000000000000)
      else false
    else if level.msb then true
    else level.ult value
  | .s32 => (level.setWidth 32).slt (value.setWidth 32)
  | .u32 => (level.setWidth 32).ult (value.setWidth 32)
  | .s64 => level.slt value
  | .u64 => level.ult value
  | .other => false

/-- The edge of `check_trigger`. -/
def checkEdge (s : Scope) (values : ℕ → Cell) : Bool × Scope :=
  if s.shm.trigChan = 0 then (false, s)
  else
    let n := s.shm.trigChan - 1
    let result := compare (s.rt.dataType n) (values n) s.shm.trigLevel
    let edge := if s.shm.trigEdge then result && !s.rt.compareResult
      else !result && s.rt.compareResult
    (edge, { s with rt := { s.rt with compareResult := result } })

/-- `check_trigger`. -/
def checkTrigger (s : Scope) (values : ℕ → Cell) : Bool × Scope :=
  if s.shm.forceTrig then (true, s)
  else if s.shm.autoTrig then
    let s := { s with rt := { s.rt with autoTimer := s.rt.autoTimer + 1 } }
    if s.shm.recLen ≤ s.rt.autoTimer then (true, s) else checkEdge s values
  else checkEdge { s with rt := { s.rt with autoTimer := 0 } } values

/-! ### The state machine -/

/-- The fields that a reset and the start of a capture clear. -/
def Shm.cleared (shm : Shm) : Shm :=
  { shm with curr := 0, start := 0, samples := 0, forceTrig := false }

/-- The start of a capture. -/
def sampleInit (s : Scope) : Scope where
  shm := { s.shm.cleared with state := .PRE_TRIG }
  rt := { s.rt with autoTimer := 0, dataType := s.shm.dataType, dataLen := s.shm.dataLen }

/-- A sample is acquired, and counted. -/
def acquire (s : Scope) (values : ℕ → Cell) : Scope where
  shm := { (captureSample s values).shm with samples := s.shm.samples + 1 }
  rt := (captureSample s values).rt

/-- The next state. -/
def Scope.become (s : Scope) (state : ScopeState) : Scope where
  shm := { s.shm with state := state }
  rt := s.rt

/-- The oldest sample is discarded. -/
def discard (s : Scope) : Scope where
  shm := { s.shm with samples := s.shm.samples - 1, start := s.shm.advance s.shm.start }
  rt := s.rt

/-- The state machine of `sample`, at the calls that sample. -/
def sampleState (s : Scope) (values : ℕ → Cell) : Scope :=
  match s.shm.state with
  | .INIT => sampleInit s
  | .PRE_TRIG =>
    if s.shm.preTrig ≤ (acquire s values).shm.samples then
      -- a dummy call, to preset the result of the comparison
      (checkTrigger ((acquire s values).become .TRIG_WAIT) values).2
    else acquire s values
  | .TRIG_WAIT =>
    let (met, s) := checkTrigger (acquire s values) values
    if met then s.become .POST_TRIG else discard s
  | .POST_TRIG =>
    if s.shm.recLen ≤ (acquire s values).shm.samples then (acquire s values).become .DONE
    else acquire s values
  | .IDLE => s
  | .DONE => s
  | .RESET => s.become .IDLE

/-- The start of `sample`: a reset, and the count of the calls. -/
def beginSample (s : Scope) : Scope :=
  let s := if s.shm.state = .RESET then { s with shm := { s.shm.cleared with state := .IDLE } }
    else s
  { s with rt := { s.rt with multCntr := s.rt.multCntr + 1 } }

/-- `sample`. -/
def sample (s : Scope) (values : ℕ → Cell) : Scope :=
  let s := beginSample s
  -- not time to do anything yet
  if s.rt.multCntr < s.shm.mult then s
  else sampleState { s with rt := { s.rt with multCntr := 0 } } values

/-! ### The user half -/

/-- The copy loop of `capture_copy_data`. -/
def copySamples (buffer : ℕ → Cell) (sampleLen srcEnd : ℕ) : ℕ → ℕ → List (List Cell)
  | 0, _ => []
  | n + 1, src =>
    (List.range sampleLen).map (fun i => buffer (src + i)) ::
      copySamples buffer sampleLen srcEnd n
        (if srcEnd ≤ src + sampleLen then 0 else src + sampleLen)

/-- `capture_copy_data`: the samples in the display buffer. -/
def captureCopyData (s : Scope) : List (List Cell) :=
  copySamples s.rt.buffer s.shm.sampleLen (s.shm.recLen * s.shm.sampleLen) s.shm.samples s.shm.start

/-- The channels that are captured. -/
def channels (dataLen : ℕ → ℕ) : List ℕ := (List.range 16).filter fun n => captured (dataLen n)

/-- `start_capture`: `preTrig` is `(rec_len-2) * position`, and `set_rec_len` leaves room for
the enabled channels. -/
def startCapture (s : Scope) (preTrig : ℕ) (dataType : ℕ → HalType) (dataLen : ℕ → ℕ) :
    Option Scope :=
  if s.shm.state = .IDLE ∧ preTrig ≤ s.shm.recLen - 2 ∧
      (channels dataLen).length ≤ s.shm.sampleLen then
    some { s with shm := { s.shm with
      preTrig := preTrig, dataType := dataType, dataLen := dataLen, state := .INIT } }
  else none

/-! ### Runs -/

/-- A sample that was taken: at which of the sampling calls, and the values of the channels. -/
structure Taken where
  instant : ℕ
  values : ℕ → Cell

/-- The oscilloscope with the number of calls that sampled, the samples since the start of the
capture, and which of them met the trigger condition. -/
structure ScopeSys where
  scope : Scope
  instant : ℕ
  log : List Taken
  trigAt : Option ℕ

/-- A call of `sample`, and what the user half does. -/
inductive ScopeOp where
  | sample (values : ℕ → Cell)
  | startCapture (preTrig : ℕ) (dataType : ℕ → HalType) (dataLen : ℕ → ℕ)
  | reset
  /-- `capture_complete` -/
  | complete
  /-- `handle_watchdog_timeout` -/
  | timeout
  | setMult (mult : ℕ)
  | setTrigger (chan : ℕ) (level : Cell) (edge auto : Bool)
  | forceTrigger

namespace ScopeSys

/-- The record of a call of `sample`. -/
def record (s : ScopeSys) (values : ℕ → Cell) : ScopeSys :=
  let before := beginSample s.scope
  let scope := sample s.scope values
  if before.rt.multCntr < before.shm.mult then { s with scope := scope }
  else
    match before.shm.state with
    | .INIT => { scope := scope, instant := s.instant + 1, log := [], trigAt := none }
    | .PRE_TRIG | .POST_TRIG =>
      { s with scope := scope, instant := s.instant + 1, log := s.log ++ [⟨s.instant, values⟩] }
    | .TRIG_WAIT =>
      { scope := scope, instant := s.instant + 1, log := s.log ++ [⟨s.instant, values⟩]
        trigAt := if scope.shm.state = .POST_TRIG then some s.log.length else s.trigAt }
    | _ => { s with scope := scope, instant := s.instant + 1 }

/-- One operation; `none` if it is not possible. -/
def step (s : ScopeSys) : ScopeOp → Option ScopeSys
  | .sample values => some (s.record values)
  | .startCapture preTrig dataType dataLen =>
    (startCapture s.scope preTrig dataType dataLen).map fun scope => { s with scope := scope }
  | .reset => some { s with scope.shm.state := .RESET }
  | .complete =>
    if s.scope.shm.state = .DONE then some { s with scope.shm.state := .IDLE } else none
  | .timeout => some { s with scope.shm.state := .IDLE, scope.shm.samples := 0 }
  | .setMult mult => some { s with scope.shm.mult := mult }
  | .setTrigger chan level edge auto =>
    some { s with
      scope.shm.trigChan := chan
      scope.shm.trigLevel := level
      scope.shm.trigEdge := edge
      scope.shm.autoTrig := auto }
  | .forceTrigger => some { s with scope.shm.forceTrig := true }

/-- The oscilloscope after it is loaded and `set_rec_len` has been called. -/
def init (bufLen sampleLen : ℕ) (buffer : ℕ → Cell) : ScopeSys where
  scope := {
    shm := {
      bufLen := bufLen
      mult := 1
      recLen := bufLen / sampleLen
      sampleLen := sampleLen
      preTrig := 0
      trigChan := 0
      trigLevel := 0
      trigEdge := false
      forceTrig := false
      autoTrig := false
      start := 0
      curr := 0
      samples := 0
      state := .IDLE
      dataType := fun _ => .other
      dataLen := fun _ => 0 }
    rt := {
      buffer := buffer
      multCntr := 0
      autoTimer := 0
      dataType := fun _ => .other
      dataLen := fun _ => 0
      compareResult := false } }
  instant := 0
  log := []
  trigAt := none

end ScopeSys

end MachinekitHal.Halscope
