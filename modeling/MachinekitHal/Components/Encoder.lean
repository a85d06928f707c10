import MachinekitHal.Lib.Runs
import MachinekitHal.Lib.Word

/-!
`encoder.c`: the software encoder, one channel of `update` and `capture`.

`update` counts in a fast thread and stores into the buffer in use; `capture`, in a slower
thread, switches the buffers and reads the one that was in use. `update` can run in full in
front of every access of `capture` to what both of them, or others, use.

* `Counter`, `Counter.update`: the data of a channel and the fast function.
* `CapturePc`, `Counter.capture`: the accesses of `capture`. Fields that only `capture` uses
  go with the access in front; the estimate of the velocity is left out.
* `IndexSpec`: what the index latch is for.
* `EncSys`, `encStep`: both functions, and the inputs from outside.
* `encFits`: the steps for which the windows between the two functions are harmless.
-/

namespace MachinekitHal

open Runs Word

/-! ### Data -/

/-- `atomic`: data passed from the fast function to the slow one. -/
structure AtomicBuf where
  countDetected : Bool
  indexDetected : Bool
  latchDetected : Bool
  rawCount : ℤ
  indexCount : ℤ
  latchCount : ℤ

/-- `counter_t`, with the pins; the two buffers are those at `false` and `true`. -/
structure Counter where
  state : ℕ
  oldZ : ℕ
  zmask : ℕ
  buf : Bool → AtomicBuf
  bp : Bool
  rawCounts : ℤ
  indexEna : Bool
  reset : Bool
  rawCount : ℤ
  indexCount : ℤ
  latchCount : ℤ
  count : ℤ
  countLatch : ℤ
  oldLatch : Bool

/-- The pins that `update` reads. -/
structure EncInput where
  phaseA : Bool
  phaseB : Bool
  phaseZ : Bool
  x4Mode : Bool
  counterMode : Bool
  latchIn : Bool
  latchRising : Bool
  latchFalling : Bool

/-! ### The fast function -/

/-- The lookup tables of the state machine for quadrature decoding. -/
def lutX4 : List ℕ := [0x00, 0x44, 0x88, 0x0C, 0x80, 0x04, 0x08, 0x4C,
  0x40, 0x04, 0x08, 0x8C, 0x00, 0x84, 0x48, 0x0C]
def lutX1 : List ℕ := [0x00, 0x44, 0x08, 0x0C, 0x80, 0x04, 0x08, 0x0C,
  0x00, 0x04, 0x08, 0x0C, 0x00, 0x04, 0x08, 0x0C]
def lutCtr : List ℕ := [0x00, 0x48, 0x00, 0x00, 0x00, 0x00, 0x00, 0x00,
  0x00, 0x08, 0x00, 0x00, 0x00, 0x00, 0x00, 0x00]

/-- The new state of the state machine. -/
def EncInput.decode (i : EncInput) (state : ℕ) : ℕ :=
  -- add input bits to state code
  let state := if i.phaseA then state ||| 0x01 else state
  let state := if i.phaseB then state ||| 0x02 else state
  if i.counterMode then lutCtr.getD (state &&& 0x0D) 0
  else if i.x4Mode then lutX4.getD (state &&& 0x0F) 0
  else lutX1.getD (state &&& 0x0F) 0

/-- The counting of a state. -/
def countOf (state : ℕ) : ℤ :=
  if state &&& 0x40 ≠ 0 then 1 else if state &&& 0x80 ≠ 0 then -1 else 0

namespace Counter

/-- `update`, for one channel. -/
def update (i : EncInput) (c : Counter) : Counter :=
  let b := c.buf c.bp
  let state := i.decode c.state
  -- should we count?
  let counts := countOf state ≠ 0
  let rawCounts := if counts then wrapInt (c.rawCounts + countOf state) else c.rawCounts
  -- the old phase Z with the new one
  let z := (c.oldZ <<< 1) ||| i.phaseZ.toNat
  -- index enabled and rising edge on phase Z
  let index := z &&& c.zmask = 1
  -- latch enabled and desired edge on latch-in
  let latch := (i.latchIn && !c.oldLatch && i.latchRising) ||
    (!i.latchIn && c.oldLatch && i.latchFalling)
  let b := { b with countDetected := if counts then true else b.countDetected
                    rawCount := if counts then rawCounts else b.rawCount
                    indexDetected := if index then true else b.indexDetected
                    indexCount := if index then rawCounts else b.indexCount
                    latchDetected := if latch then true else b.latchDetected
                    latchCount := if latch then rawCounts else b.latchCount }
  { c with state, rawCounts, buf := Function.update c.buf c.bp b
           oldZ := z &&& 3
           zmask := if index then 0 else c.zmask
           oldLatch := i.latchIn }

end Counter

/-! ### The slow function -/

/-- The next access of `capture` after the buffers have been switched. -/
inductive Stage where
  | testIndex | clearIndex | readIndex | clearEna | testLatch | clearLatch | readLatch
  | readEna | writeZmask (ena : Bool) | readReset | resetRaw | testCount | clearCount
  | readCount | output
  deriving DecidableEq

/-- Where `capture` is: not called, at the switch of the buffers, or behind it with the
buffer `buf` that was in use. -/
inductive CapturePc where
  | idle
  | switch (buf : Bool)
  | work (buf : Bool) (stage : Stage)
  deriving DecidableEq

namespace Counter

/-- Writes one of the buffers. -/
def setBuf (c : Counter) (buf : Bool) (b : AtomicBuf) : Counter :=
  { c with buf := Function.update c.buf buf b }

/-- One access of `capture` after the switch, and the next one; there is none after the
output. -/
def work (c : Counter) (buf : Bool) : Stage → Counter × Option Stage
  -- handle index
  | .testIndex => (c, if (c.buf buf).indexDetected then some .clearIndex else some .testLatch)
  | .clearIndex => (c.setBuf buf { c.buf buf with indexDetected := false }, some .readIndex)
  | .readIndex => ({ c with indexCount := (c.buf buf).indexCount }, some .clearEna)
  | .clearEna => ({ c with indexEna := false }, some .testLatch)
  -- handle latch
  | .testLatch => (c, if (c.buf buf).latchDetected then some .clearLatch else some .readEna)
  | .clearLatch => (c.setBuf buf { c.buf buf with latchDetected := false }, some .readLatch)
  | .readLatch => ({ c with latchCount := (c.buf buf).latchCount }, some .readEna)
  -- update Zmask based on index_ena
  | .readEna => (c, some (.writeZmask c.indexEna))
  | .writeZmask ena => ({ c with zmask := if ena then 3 else 0 }, some .readReset)
  -- check reset input
  | .readReset => (c, if c.reset then some .resetRaw else some .testCount)
  | .resetRaw => ({ c with rawCount := c.rawCounts
                           indexCount := c.rawCounts }, some .testCount)
  -- process data from update()
  | .testCount => (c, if (c.buf buf).countDetected then some .clearCount else some .output)
  | .clearCount => (c.setBuf buf { c.buf buf with countDetected := false }, some .readCount)
  | .readCount => ({ c with rawCount := (c.buf buf).rawCount }, some .output)
  -- compute net counts
  | .output => ({ c with count := wrapInt (c.rawCount - c.indexCount)
                         countLatch := wrapInt (c.latchCount - c.indexCount) }, none)

end Counter

/-! ### The index latch -/

/-- The index latch: not armed, armed, or with the raw count of an edge that is in one of the
buffers. -/
inductive IndexMode where
  | idle
  | armed
  | latched (buf : Bool) (raw : ℤ)
  deriving DecidableEq

/-- The latch, the last level of phase Z, the index count and how often index-enable has been
cleared. -/
structure IndexSpec where
  mode : IndexMode
  prevZ : Bool
  count : ℤ
  clears : ℕ

namespace IndexSpec

variable (x : IndexSpec)

/-- A level of phase Z while `buf` is in use: the first rising edge is latched. -/
def edge (z buf : Bool) (raw : ℤ) : IndexSpec :=
  { x with prevZ := z
           mode := if z = true ∧ x.prevZ = false ∧ x.mode = .armed then .latched buf raw
             else x.mode }

/-- `capture` reads `buf`: if the edge is there, its count becomes the index count. -/
def read (buf : Bool) : IndexSpec :=
  match x.mode with
  | .latched b raw =>
    if b = buf then { x with mode := .idle, count := raw, clears := x.clears + 1 } else x
  | _ => x

/-- `capture` has seen index-enable. -/
def see (ena : Bool) : IndexSpec :=
  { x with mode := if ena = true ∧ x.mode = .idle then .armed else x.mode }

end IndexSpec

/-! ### Both functions -/

/-- A channel, and where `capture` is. History: the latch, the number of times that `capture`
has cleared index-enable, the raw counts at the last switch, and whether the reset has been
done since then. -/
structure EncSys extends Counter where
  pc : CapturePc
  spec : IndexSpec
  cleared : ℕ
  rawAtSwitch : ℤ
  sawReset : Bool

/-- A run of `update`, index-enable raised, another level of reset, or an access of
`capture`. -/
inductive EncAct where
  | update (i : EncInput)
  | raise
  | reset (level : Bool)
  | capture

namespace EncSys

variable (s : EncSys)

/-- What an access of `capture` does to the history. -/
def workSpec (buf : Bool) : Stage → IndexSpec
  | .testIndex => s.spec.read buf
  | .writeZmask ena => s.spec.see ena
  | .resetRaw => { s.spec with count := s.rawCounts }
  | _ => s.spec

/-- One access of `capture`. -/
def capture : EncSys :=
  match s.pc with
  -- point to active buffer
  | .idle => { s with pc := .switch s.bp }
  -- tell update() to use the other buffer
  | .switch buf => { s with bp := !buf
                            pc := .work buf .testIndex
                            rawAtSwitch := s.rawCounts
                            sawReset := false }
  | .work buf stage =>
    { s.toCounter.work buf stage |>.1 with
      pc := match (s.toCounter.work buf stage).2 with
        | some next => .work buf next
        | none => .idle
      spec := s.workSpec buf stage
      cleared := if stage = .clearEna then s.cleared + 1 else s.cleared
      rawAtSwitch := s.rawAtSwitch
      sawReset := if stage = .resetRaw then true else s.sawReset }

/-- `update`. -/
def updateStep (i : EncInput) : EncSys :=
  { s with toCounter := s.toCounter.update i
           spec := s.spec.edge i.phaseZ s.bp (s.toCounter.update i).rawCounts }

end EncSys

/-- One step. -/
def encStep (s : EncSys) : EncAct → Option EncSys
  | .update i => some (s.updateStep i)
  | .raise => some { s with indexEna := true }
  | .reset level => some { s with reset := level }
  | .capture => some s.capture

/-- The mask has not been updated since the switch. -/
def Stage.window : Stage → Bool
  | .readReset | .resetRaw | .testCount | .clearCount | .readCount | .output => false
  | _ => true

def CapturePc.window : CapturePc → Bool
  | .work _ stage => stage.window
  | _ => false

/-- The test of `update` for an enabled rising edge on phase Z. -/
def Counter.indexEdge (c : Counter) (z : Bool) : Prop :=
  ((c.oldZ <<< 1) ||| z.toNat) &&& c.zmask = 1
  deriving Decidable

/-- The steps for which the windows between the two functions are harmless: there is no enabled
edge on phase Z between the switch and the update of the mask, and no count between the
switch and the reset if the buffer has one. -/
def encFits (s : EncSys) : EncAct → Prop
  | .update i => s.pc.window = true → ¬ s.indexEdge i.phaseZ
  | .capture => ∀ buf, s.pc = .work buf .resetRaw → (s.buf buf).countDetected = true →
      (s.buf buf).rawCount = s.rawCounts
  | _ => True

/-- All is 0. -/
def EncSys.init : EncSys :=
  { state := 0, oldZ := 0, zmask := 0, buf := fun _ => ⟨false, false, false, 0, 0, 0⟩, bp := false
    rawCounts := 0, indexEna := false, reset := false, rawCount := 0, indexCount := 0
    latchCount := 0, count := 0, countLatch := 0, oldLatch := false
    pc := .idle, spec := ⟨.idle, false, 0, 0⟩, cleared := 0, rawAtSwitch := 0, sawReset := false }

end MachinekitHal
