import MachinekitHal.Lib.Runs
import MachinekitHal.Lib.Turns
import MachinekitHal.Lib.Word

/-!
The FIFO between the realtime component `sampler` and the program that prints the samples.

* `Sampler.Fifo`: the shared memory of both. `Sampler.assign`, `Sampler.member`: the union in
  which a value is stored.
* `Sampler.sample`: the realtime function.
* `Sampler.Reader`, `Sampler.SamplerSys.read`: the read loop of `halsampler`, one access to the
  shared memory at a time.
* `Sampler.SamplerSys.step`: calls of `sample` between any two of them. Beside the state stands
  which samples have been stored, and which ones `sample` discarded.
-/

namespace MachinekitHal.Sampler

open Turns

/-- The types of the pins. -/
inductive HalType where
  | float
  | bit
  | u32
  | s32
  deriving DecidableEq

/-- `shmem_data_t`. -/
abbrev ShmemData := BitVec 64

/-- The bytes of the member of this type. -/
def mask : HalType → ShmemData
  | .float => BitVec.allOnes 64
  | .bit => 0xFF
  | .u32 | .s32 => 0xFFFFFFFF

/-- The value of a pin: a bit is 0 or 1. -/
def pinValue (type : HalType) (pin : ShmemData) : ShmemData :=
  match type with
  | .bit => if pin &&& mask .bit ≠ 0 then 1 else 0
  | .float => pin &&& mask .float
  | .u32 => pin &&& mask .u32
  | .s32 => pin &&& mask .s32

/-- The store to the member of this type. -/
def assign (type : HalType) (old value : ShmemData) : ShmemData :=
  old &&& ~~~ mask type ||| value &&& mask type

/-- The member of this type as it is printed. -/
def member (type : HalType) (data : ShmemData) : ShmemData := pinValue type data

/-- `fifo_t`: `in` and `out` are `inPos` and `outPos`. -/
structure Fifo where
  inPos : ℕ
  outPos : ℕ
  depth : ℕ
  numPins : ℕ
  lastSample : BitVec 64
  type : ℕ → HalType
  data : ℕ → ShmemData

/-- `sampler_t`: the pins of the realtime half. -/
structure Pins where
  currDepth : ℕ
  full : Bool
  overruns : BitVec 32
  sampleNum : BitVec 32

/-! ### The realtime half -/

/-- The loop that copies the first `n` pins to the cells from `dptr` on. -/
def copyPins (type : ℕ → HalType) (pins : ℕ → ShmemData) (dptr : ℕ) :
    ℕ → (ℕ → ShmemData) → ℕ → ShmemData
  | 0, data => data
  | n + 1, data =>
    let data := copyPins type pins dptr n data
    Function.update data (dptr + n)
      (assign (type n) (data (dptr + n)) (pinValue (type n) (pins n)))

/-- The record of a sample: the pins, and behind them the number of the sample. -/
def storeRecord (fifo : Fifo) (pins : ℕ → ShmemData) (num : BitVec 32) : ℕ → ShmemData :=
  let dptr := fifo.inPos * (fifo.numPins + 1)
  let data := copyPins fifo.type pins dptr fifo.numPins fifo.data
  Function.update data (dptr + fifo.numPins)
    (assign .u32 (data (dptr + fifo.numPins)) (num.setWidth 64))

/-- The FIFO is full: the next `in` is `out`. -/
def Fifo.isFull (fifo : Fifo) : Bool := next fifo.depth fifo.inPos = fifo.outPos

/-- `out` after the oldest sample has been overwritten, if the FIFO is full. -/
def Fifo.makeRoom (fifo : Fifo) : ℕ :=
  if fifo.isFull then next fifo.depth fifo.outPos else fifo.outPos

/-- `sample`, if it is enabled. -/
def sample (fifo : Fifo) (pins : Pins) (values : ℕ → ShmemData) : Fifo × Pins :=
  let newin := next fifo.depth fifo.inPos
  let tmpout := fifo.makeRoom
  ({ fifo with
      outPos := tmpout
      data := storeRecord fifo values pins.sampleNum
      inPos := newin },
    { full := fifo.isFull
      overruns := if fifo.isFull then pins.overruns + 1 else pins.overruns
      sampleNum := pins.sampleNum + 1
      currDepth := (if newin < tmpout then newin + fifo.depth else newin) - tmpout })

/-! ### The read loop -/

/-- The next access to the shared memory, with the variables that are read again. -/
inductive Reader where
  /-- `in` in the test for an empty FIFO -/
  | testIn
  /-- `out` in this test -/
  | testOut (tmpin : ℕ)
  | loadOut
  /-- the next cell of the record at `tmpout` -/
  | loadData (tmpout : ℕ) (buf : List ShmemData)
  | check (tmpout : ℕ) (buf : List ShmemData)
  | storeOut (tmpout : ℕ) (buf : List ShmemData)
  | done

/-- A record that has been printed. -/
structure Delivered where
  overrun : Bool
  number : ℕ
  values : List ShmemData

/-- `this_sample`. -/
def thisSample (fifo : Fifo) (buf : List ShmemData) : BitVec 64 :=
  member .u32 (buf.getD fifo.numPins 0)

/-- What is printed for the record in `buf`. -/
def printRecord (fifo : Fifo) (buf : List ShmemData) : Delivered where
  overrun := thisSample fifo buf ≠ fifo.lastSample + 1
  number := (thisSample fifo buf).toNat
  values := (List.range fifo.numPins).map fun n => member (fifo.type n) (buf.getD n 0)

/-- `samples` after a record. -/
def countdown (samples : ℤ) : ℤ := if 0 < samples then samples - 1 else samples

/-- The start of the loop. -/
def Reader.start (samples : ℤ) : Reader := if samples = 0 then .done else .testIn

/-- Both halves, with the samples that have been stored and the ones that `sample` discarded.
`first` and `last` are the numbers of samples that had been stored when the first and the latest
cell of the record were read. -/
structure SamplerSys where
  fifo : Fifo
  pins : Pins
  reader : Reader
  samples : ℤ
  delivered : List Delivered
  stored : List (ℕ → ShmemData)
  discarded : List ℕ
  first : ℕ
  last : ℕ

namespace SamplerSys

/-- The number of samples in the FIFO. -/
def held (s : SamplerSys) : ℕ := Turns.held s.fifo.depth s.fifo.inPos s.fifo.outPos

/-- A call of `sample`. -/
def sample (s : SamplerSys) (enable : Bool) (values : ℕ → ShmemData) : SamplerSys :=
  if enable then
    { s with
      fifo := (Sampler.sample s.fifo s.pins values).1
      pins := (Sampler.sample s.fifo s.pins values).2
      stored := s.stored ++ [values]
      discarded := if s.fifo.isFull then s.discarded ++ [s.stored.length - s.held]
        else s.discarded }
  else s

/-- The next access of the read loop. -/
def read (s : SamplerSys) : Option SamplerSys :=
  match s.reader with
  | .testIn => some { s with reader := .testOut s.fifo.inPos }
  | .testOut tmpin =>
    some { s with reader := if tmpin = s.fifo.outPos then .testIn else .loadOut }
  | .loadOut => some { s with reader := .loadData s.fifo.outPos [] }
  | .loadData tmpout buf =>
    let cell := s.fifo.data (tmpout * (s.fifo.numPins + 1) + buf.length)
    some { s with
      reader := if buf.length < s.fifo.numPins then .loadData tmpout (buf ++ [cell])
        else .check tmpout (buf ++ [cell])
      first := if buf.length = 0 then s.stored.length else s.first
      last := s.stored.length }
  | .check tmpout buf =>
    -- the sample may have been overwritten while it was read
    some { s with reader := if s.fifo.outPos = tmpout then .storeOut tmpout buf else .testIn }
  | .storeOut tmpout buf =>
    some { s with
      fifo := { s.fifo with
        outPos := next s.fifo.depth tmpout, lastSample := thisSample s.fifo buf }
      delivered := s.delivered ++ [printRecord s.fifo buf]
      samples := countdown s.samples
      reader := .start (countdown s.samples) }
  | .done => none

/-- A call of `sample`, or an access of the read loop. -/
inductive Op where
  | sample (enable : Bool) (values : ℕ → ShmemData)
  | read

/-- One step. -/
def step (s : SamplerSys) : Op → Option SamplerSys
  | .sample enable values => some (s.sample enable values)
  | .read => s.read

/-- After both halves have started; `halsampler` is to print `samples` records, or all. -/
def init (depth numPins : ℕ) (type : ℕ → HalType) (data : ℕ → ShmemData) (samples : ℤ) :
    SamplerSys where
  fifo := {
    inPos := 0, outPos := 0, depth := depth, numPins := numPins
    lastSample := BitVec.allOnes 64, type := type, data := data }
  pins := { currDepth := 0, full := false, overruns := 0, sampleNum := 0 }
  reader := .start samples
  samples := samples
  delivered := []
  stored := []
  discarded := []
  first := 0
  last := 0

/-- When a step is safe: the counter of the samples does not wrap; and when the read loop stores
`out`, the record it read was not rewritten between the accesses to its cells, and either `out` is
already the entry behind it, or it is still the entry of the record, which was not rewritten
either. -/
def safeStep (s : SamplerSys) : Op → Bool
  | .sample enable _ => !enable || decide (s.stored.length < 2 ^ 32)
  | .read =>
    match s.reader with
    | .storeOut tmpout _ =>
      decide (Quiet s.fifo.depth tmpout s.first s.last) &&
        (decide (s.fifo.outPos = next s.fifo.depth tmpout) ||
          decide (s.fifo.outPos = tmpout ∧
            Quiet s.fifo.depth tmpout s.last s.stored.length))
    | _ => true

end SamplerSys

end MachinekitHal.Sampler
