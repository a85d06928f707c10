import MachinekitHal.Hal.Ring
import MachinekitHal.Hal.Values
import MachinekitHal.Ring.Record

/-!
`delayline.c`: a delay line for any number of pins.

* `returnInstanceSamples`, `exportDelayline`: an instance from its `samples=` string and its
  `max_delay=` value.
* `HalDelayline.writeSampleToRing`: the function `sample`, which stores the input pins with the
  timestamp `input_ts`.
* `HalDelayline.readSampleFromRing`: the function `output`, which shows the record whose timestamp
  is `output_ts` and drops older ones.
* `Order`, `Period`, `HalDelayline.after`: the two functions in the periods of a thread.

The loops that read the ring go on until it is empty; `none` is "does not return". The arrays of
the instance have `MAX_SAMPLES` entries, which nothing compares with the `samples=` string.
-/

namespace MachinekitHal.Delayline

open Bytes Word

/-! ### An instance -/

/-- `MAX_SAMPLES`. -/
def maxSamples : ℕ := 9

/-- The type of a pin from its character. -/
def pintypeOf : Char → Option HalType
  | 'b' | 'B' => some .halBit
  | 'f' | 'F' => some .halFloat
  | 's' => some .halS32
  | 'u' => some .halU32
  | 'S' => some .halS64
  | 'U' => some .halU64
  | _ => none

/-- `return_instance_samples`: the number of pins, or `-1`. -/
def returnInstanceSamples (samples : List Char) : ℤ :=
  if samples.all fun c => (pintypeOf c).isSome then samples.length else -1

/-- `sizeof(sample_t) + n * sizeof(hal_data_u)`. -/
def sampleSize (n : ℕ) : ℕ := 8 + n * 8

/-- `record_space(sample_size) * max_delay * RB_HEADROOM`. The first product is a 32-bit word; the
rounding of the second one, in double precision, does not reach its integer part. -/
def rbsize (n : ℕ) (maxDelay : BitVec 32) : ℕ :=
  wrap32 (recordUsage (sampleSize n) * maxDelay.toNat) * 6 / 5

/-- The storage of the ring of an instance. -/
def ringBytes (n : ℕ) (maxDelay : BitVec 32) : ℕ :=
  ringStorageAlloc allocHalmem (toRingsize (rbsize n maxDelay))

/-- `hal_delayline_t` and the ring it belongs to. -/
structure HalDelayline where
  ring : RecordRing
  pinsOut : ℕ → HalDataU
  writeFail : BitVec 32
  tooOld : BitVec 32
  pintype : ℕ → HalType
  outputTs : BitVec 64
  inputTs : BitVec 64
  maxDelay : BitVec 32
  delay : BitVec 32
  nsamples : ℕ
  lastAbort : Bool

/-- `export_delayline`, when the memory for the ring and the pins is there; `buf` is what the
memory of the ring holds. -/
def exportDelayline (samples : List Char) (maxDelay : BitVec 32) (buf : Mem) :
    Option HalDelayline :=
  if returnInstanceSamples samples ≤ 0 then none
  else some {
    ring := .init allocHalmem (toRingsize (rbsize samples.length maxDelay)) buf
    pinsOut := fun _ => 0
    writeFail := 0
    tooOld := 0
    pintype := fun i => (samples[i]?.bind pintypeOf).getD .halTypeUnspecified
    outputTs := 0
    inputTs := 0
    maxDelay := maxDelay
    delay := 0
    nsamples := samples.length
    lastAbort := false }

/-! ### Values -/

/-- `set_bit_value(dst, get_bit_value(src))` and its siblings. -/
def assignValue (type : HalType) (dst src : HalDataU) : HalDataU :=
  match type with
  | .halBit => setBitValue dst (getBitValue src)
  | .halS32 | .halU32 => set32Value dst (get32Value src)
  | .halFloat | .halS64 | .halU64 => src
  | .halTypeUnspecified | .halTypeUninitialized => dst

/-- The value of a pin: what the getter of its type returns. -/
def typedValue (type : HalType) (u : HalDataU) : HalDataU :=
  match type with
  | .halBit => getBitValue u
  | .halS32 | .halU32 => get32Value u
  | _ => u

/-- The input pins as a function finds them. -/
structure Pins where
  enable : Bool
  abort : Bool
  pinDelay : BitVec 32
  pinsIn : ℕ → HalDataU

namespace HalDelayline

variable (hd : HalDelayline) (pins : Pins)

/-- `sample_size`. -/
def sampleSize : ℕ := Delayline.sampleSize hd.nsamples

/-- `(hal_u32_t)(input_ts - output_ts)`. -/
def lag : BitVec 32 := (hd.inputTs - hd.outputTs).setWidth 32

/-- A loop over the pins that assigns to each output pin. -/
def assignPins (src : ℕ → HalDataU) : ℕ → HalDataU := fun j =>
  if j < hd.nsamples then assignValue (hd.pintype j) (hd.pinsOut j) (src j) else hd.pinsOut j

/-! ### Sampling -/

/-- The first `n` pins stored to the record at `s`. -/
def storePins (src : ℕ → HalDataU) (s : ℕ) : ℕ → Mem → Mem
  | 0, m => m
  | n + 1, m =>
    let m := storePins src s n m
    let old := BitVec.ofNat 64 (load64 m (s + 8 + n * 8))
    store64 m (s + 8 + n * 8) (assignValue (hd.pintype n) old (src n)).toNat

/-- The record at `s` filled in. -/
def deposit (src : ℕ → HalDataU) (s : ℕ) : Mem :=
  hd.storePins src s hd.nsamples (store64 hd.ring.buf s hd.inputTs.toNat)

/-- The delay has increased: move the input timestamp. -/
def increase : HalDelayline :=
  if hd.lag < pins.pinDelay then
    let delay := if hd.maxDelay < pins.pinDelay then hd.maxDelay else pins.pinDelay
    { hd with delay := delay, inputTs := hd.outputTs + delay.setWidth 64 }
  else hd

/-- The sample is stored, or passed on if the line is not enabled. -/
def store : HalDelayline :=
  if !pins.enable then { hd with pinsOut := hd.assignPins pins.pinsIn }
  else
    match hd.ring.recordWriteBegin hd.sampleSize with
    | .error _ => { hd with writeFail := hd.writeFail + 1 }
    | .ok s =>
      { hd with
        ring := { hd.ring with buf := hd.deposit pins.pinsIn s }.recordWriteEnd s hd.sampleSize }

/-- `write_sample_to_ring`. -/
def writeSampleToRing : HalDelayline :=
  let hd := (hd.increase pins).store pins
  { hd with inputTs := hd.inputTs + 1 }

/-! ### Output -/

/-- `apply`. -/
def apply (s : ℕ) : ℕ → HalDataU :=
  hd.assignPins fun i => BitVec.ofNat 64 (load64 hd.ring.buf (s + 8 + i * 8))

/-- Flush the ring on a rising edge of the abort pin. -/
def flushOnAbort : Option HalDelayline :=
  if pins.abort && (pins.abort ^^ hd.lastAbort) then
    (RecordRing.recordFlushReader (hd.ring.size + 1) hd.ring).map fun r => { hd with ring := r }
  else some hd

/-- The delay has decreased: move the input timestamp. -/
def decrease : HalDelayline :=
  if pins.pinDelay < hd.lag then
    { hd with delay := pins.pinDelay, inputTs := hd.inputTs - pins.pinDelay.setWidth 64 }
  else hd

/-- The record at `s` is shown or counted as too old. -/
def present (s : ℕ) : HalDelayline :=
  if BitVec.ofNat 64 (load64 hd.ring.buf s) = hd.outputTs then { hd with pinsOut := hd.apply s }
  else { hd with tooOld := hd.tooOld + 1 }

/-- The loop over the records. -/
def readRecords : ℕ → HalDelayline → Option HalDelayline
  | 0, _ => none
  | fuel + 1, hd =>
    match hd.ring.recordRead with
    | none => none
    | some (.error _) => some hd
    | some (.ok (_, s)) =>
      -- do nothing if the timestamp is in the future
      if hd.outputTs < BitVec.ofNat 64 (load64 hd.ring.buf s) then some hd
      else
        match hd.ring.recordShift with
        | none => none
        | some (.error _) => readRecords fuel (hd.present s)
        | some (.ok r) => readRecords fuel { hd.present s with ring := r }

/-- `read_sample_from_ring`. -/
def readSampleFromRing : Option HalDelayline :=
  (hd.flushOnAbort pins).bind fun hd =>
    (readRecords (hd.ring.size + 1) (hd.decrease pins)).map fun hd =>
      { hd with outputTs := hd.outputTs + 1, lastAbort := pins.abort }

end HalDelayline

/-! ### Periods -/

/-- Which of the two functions runs first. -/
inductive Order where
  | sampleFirst | outputFirst

/-- The pins in a period, as each function finds them. -/
structure Period where
  sample : Pins
  output : Pins

namespace HalDelayline

/-- One period of the thread. -/
def period (order : Order) (hd : HalDelayline) (p : Period) : Option HalDelayline :=
  match order with
  | .sampleFirst => (hd.writeSampleToRing p.sample).readSampleFromRing p.output
  | .outputFirst =>
    (hd.readSampleFromRing p.output).map fun hd => hd.writeSampleToRing p.sample

/-- The instance after `n` periods. -/
def after (order : Order) (hd : HalDelayline) (h : ℕ → Period) : ℕ → Option HalDelayline
  | 0 => some hd
  | n + 1 => (after order hd h n).bind fun hd => hd.period order (h n)

end HalDelayline

end MachinekitHal.Delayline
