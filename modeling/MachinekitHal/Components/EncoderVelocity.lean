import MachinekitHal.Components.Encoder
import MachinekitHal.Components.Pwmgen
import MachinekitHal.Lib.Tally

/-!
`encoder.c`: the outputs of `capture`, with the estimate of the velocity.

One call of `capture` runs in full here. What it reads from `update` and from outside is its
input, so a history is a list of inputs.

* `VelCounter`, `CaptureInput`, `VelCounter.capture`: the data of a channel and the slow function.
* `countsAfter`: what a call does to the counts, whatever the scale; `workOut_counts`: it is what
  the single accesses of `capture` do.
* `Mirrored`: the states of two runs whose scales differ by the sign.
* `OnTime`: `capture` does not stretch the last velocity because no count has come yet; only
  a positive scale does that.
* `encoder_symmetry`: the outputs of the two runs; `encoder_not_symmetric`: they are not those
  of each other at a scale that is too small, nor where a velocity is stretched.
-/

namespace MachinekitHal

open Tally Word

/-- The counts and timestamps of `counter_t` that `capture` uses, with the pins. -/
structure SlowCounts where
  rawCount : ℤ
  timestamp : ℕ
  indexCount : ℤ
  latchCount : ℤ
  count : ℤ
  countLatch : ℤ
  deriving DecidableEq

/-- With the scaled outputs and the estimate. -/
structure VelCounter extends SlowCounts where
  pos : ℚ
  posInterp : ℚ
  posLatch : ℚ
  vel : ℚ
  posScale : ℚ
  /-- stored scale value -/
  oldScale : ℚ
  /-- reciprocal value used for scaling -/
  scale : ℚ
  countsSinceTimeout : ℕ
  deriving DecidableEq

/-- What a call finds: the buffer with its timestamp, the raw count and the pins, and the master
timestamp at the two places where it is read. -/
structure CaptureInput where
  buf : AtomicBuf
  timestamp : ℕ
  rawCounts : ℤ
  reset : Bool
  minSpeed : ℚ
  timebase : ℕ
  timebaseEnd : ℕ

/-- The duration between two timestamps of 32 bits, in seconds. -/
def duration (now before : ℕ) : ℚ := sub32 now before * 1e-9

namespace VelCounter

section Capture

variable (c : VelCounter)

/-- Handles index and latch. -/
def takeEvents (b : AtomicBuf) : VelCounter :=
  { c with indexCount := if b.indexDetected then b.indexCount else c.indexCount
           latchCount := if b.latchDetected then b.latchCount else c.latchCount }

/-- The check for a change in the scale value; what is used is the reciprocal. -/
def checkScale : VelCounter :=
  if c.posScale ≠ c.oldScale then
    { c with oldScale := c.posScale
             posScale := validScale c.posScale
             scale := 1 / validScale c.posScale }
  else c

/-- The reset input. -/
def checkReset (reset : Bool) (rawCounts : ℤ) : VelCounter :=
  { c with rawCount := if reset then rawCounts else c.rawCount
           indexCount := if reset then rawCounts else c.indexCount }

/-- One or more counts in the last period. -/
def counted (rawCount : ℤ) (timestamp : ℕ) : VelCounter :=
  let deltaCounts := wrapInt (rawCount - c.rawCount)
  { c with
    rawCount, timestamp
    countsSinceTimeout := if c.countsSinceTimeout < 2 then c.countsSinceTimeout + 1
      else c.countsSinceTimeout
    vel := if c.countsSinceTimeout < 2 then c.vel
      else deltaCounts * c.scale / duration timestamp c.timestamp }

/-- The velocity if a count arrived now, made positive, limits the previous one. -/
def estimate (timebase : ℕ) : ℚ :=
  let vel := c.scale / duration timebase c.timestamp
  let vel := if vel < 0 then -vel else vel
  let old := if vel < c.vel then vel else c.vel
  if old < -vel then -vel else old

/-- No count. -/
def uncounted (minSpeed : ℚ) (timebase : ℕ) : VelCounter :=
  if c.countsSinceTimeout ≠ 0 then
    -- not too long, or it has been a long time
    if (sub32 timebase c.timestamp : ℚ) < 1e9 / (minSpeed * c.scale) then
      { c with vel := c.estimate timebase }
    else { c with countsSinceTimeout := 0
                  vel := 0 }
  else { c with vel := 0 }

/-- The outputs but for the velocity. -/
def output (timebase : ℕ) : VelCounter :=
  let count := wrapInt (c.rawCount - c.indexCount)
  let countLatch := wrapInt (c.latchCount - c.indexCount)
  let pos := count * c.scale
  { c with count, countLatch, pos
           posLatch := countLatch * c.scale
           posInterp := pos + c.vel * duration timebase c.timestamp }

/-- Index, latch, scale and reset. -/
def prepare (i : CaptureInput) : VelCounter :=
  (c.takeEvents i.buf).checkScale.checkReset i.reset i.rawCounts

/-- The data from `update`; the minimum speed is valid. -/
def process (i : CaptureInput) : VelCounter :=
  if i.buf.countDetected then c.counted i.buf.rawCount i.timestamp
  else c.uncounted (if i.minSpeed = 0 then 1 else i.minSpeed) i.timebase

/-- `capture`, for one channel. A quotient with a duration of 0 is no number; it is 0 here. -/
def capture (i : CaptureInput) : VelCounter := ((c.prepare i).process i).output i.timebaseEnd

end Capture

/-- What `rtapi_app_main` sets, with a position scale. -/
def start (posScale : ℚ) : VelCounter :=
  ⟨⟨0, 0, 0, 0, 0, 0⟩, 0, 0, 0, 0, posScale, 1, 1, 0⟩

/-! ### Counts -/

section Counts

variable {c : VelCounter} {i : CaptureInput} {s : ℚ}

/-- What `capture` does to the counts. -/
def countsAfter (i : CaptureInput) (n : SlowCounts) : SlowCounts :=
  let indexCount := if i.reset then i.rawCounts
    else if i.buf.indexDetected then i.buf.indexCount else n.indexCount
  let latchCount := if i.buf.latchDetected then i.buf.latchCount else n.latchCount
  let rawCount := if i.buf.countDetected then i.buf.rawCount
    else if i.reset then i.rawCounts else n.rawCount
  { rawCount, indexCount, latchCount
    timestamp := if i.buf.countDetected then i.timestamp else n.timestamp
    count := wrapInt (rawCount - indexCount)
    countLatch := wrapInt (latchCount - indexCount) }

/-- The counts after a call do not depend on the scale, nor on the velocity. -/
lemma capture_counts (c : VelCounter) (i : CaptureInput) :
    (c.capture i).toSlowCounts = countsAfter i c.toSlowCounts := by
  have hscale (x : VelCounter) : ∃ p o r,
      x.checkScale = { x with posScale := p, oldScale := o, scale := r } := by
    rw [checkScale]
    split_ifs
    · exact ⟨_, _, _, rfl⟩
    · exact ⟨_, _, _, rfl⟩
  have huncounted (x : VelCounter) (m : ℚ) (t : ℕ) :
      (x.uncounted m t).toSlowCounts = x.toSlowCounts := by
    rw [uncounted]
    split_ifs <;> rfl
  obtain ⟨p, o, r, hs⟩ := hscale (c.takeEvents i.buf)
  rw [capture, prepare, process, hs, countsAfter]
  cases hcount : i.buf.countDetected with
  | false =>
    simp only [Bool.false_eq_true, if_false, output, huncounted]
    rfl
  | true => rfl

/-- The accesses of `capture` behind the switch of the buffers, with nothing in between. -/
def workOut (buf : Bool) : ℕ → Counter → Stage → Counter
  | 0, x, _ => x
  | n + 1, x, stage =>
    match x.work buf stage with
    | (x, some next) => workOut buf n x next
    | (x, none) => x

/-- The counts of a channel, with a timestamp. -/
def slowCounts (x : Counter) (timestamp : ℕ) : SlowCounts :=
  ⟨x.rawCount, timestamp, x.indexCount, x.latchCount, x.count, x.countLatch⟩

/-- They are those of one call. -/
lemma workOut_counts (x : Counter) (buf : Bool) (i : CaptureInput) (t : ℕ)
    (hbuf : x.buf buf = i.buf) (hraw : x.rawCounts = i.rawCounts) (hreset : x.reset = i.reset) :
    slowCounts (workOut buf 15 x .testIndex) (if i.buf.countDetected then i.timestamp else t) =
      countsAfter i (slowCounts x t) := by
  rw [← hbuf, countsAfter, ← hbuf, ← hraw, ← hreset]
  cases hindex : (x.buf buf).indexDetected <;> cases hlatch : (x.buf buf).latchDetected <;>
    cases hr : x.reset <;> cases hcount : (x.buf buf).countDetected <;>
    simp [workOut, Counter.work, Counter.setBuf, slowCounts, hindex, hlatch, hr, hcount]

/-- The counts of a run do not depend on the scale at the start. -/
lemma runAll_counts (is : List CaptureInput) {c c' : VelCounter}
    (h : c'.toSlowCounts = c.toSlowCounts) :
    (runAll capture c' is).toSlowCounts = (runAll capture c is).toSlowCounts := by
  refine List.foldl_rel (r := fun c' c : VelCounter => c'.toSlowCounts = c.toSlowCounts) h ?_
  intro i _ c' c h
  rw [capture_counts, capture_counts, h]

end Counts

/-! ### Positions -/

section Positions

variable {c : VelCounter} {i : CaptureInput} {s : ℚ}

/-- The position scale is `s`, and once it has been seen the reciprocal is that of it. -/
structure Scaled (s : ℚ) (c : VelCounter) : Prop where
  posScale : c.posScale = s
  scale : c.oldScale = s → c.scale = 1 / s

lemma Scaled.start (s : ℚ) : (start s).Scaled s :=
  ⟨rfl, fun h : 1 = s => by rw [← h]; exact (div_one 1).symm⟩

/-- A scale that is not too small is used. -/
lemma Scaled.checkScale (h : c.Scaled s) (hs : 1e-20 ≤ |s|) :
    c.checkScale = { c with oldScale := s, scale := 1 / s } := by
  have hvalid : validScale s = s := if_neg fun ht => not_lt.2 hs (abs_lt.2 ⟨ht.2, ht.1⟩)
  by_cases ho : c.oldScale = s
  · have hsame : ¬ c.posScale ≠ c.oldScale := by rw [h.posScale, ho, not_not]
    rw [VelCounter.checkScale, if_neg hsame, ← h.scale ho, ← ho]
  · have hnew : c.posScale ≠ c.oldScale := by rw [h.posScale]; exact Ne.symm ho
    rw [VelCounter.checkScale, if_pos hnew, h.posScale, hvalid]

/-- The state in front of the data from `update`. -/
lemma Scaled.prepare (h : c.Scaled s) (hs : 1e-20 ≤ |s|) (i : CaptureInput) :
    c.prepare i = { (c.takeEvents i.buf).checkReset i.reset i.rawCounts with
      oldScale := s, scale := 1 / s } := by
  have hev : (c.takeEvents i.buf).Scaled s := ⟨h.posScale, h.scale⟩
  rw [VelCounter.prepare, hev.checkScale hs]
  rfl

/-- The positions are the scaled counts. -/
structure Positioned (s : ℚ) (c : VelCounter) : Prop extends c.Scaled s where
  pos : c.pos = c.count * (1 / s)
  posLatch : c.posLatch = c.countLatch * (1 / s)

lemma Positioned.start (s : ℚ) : (start s).Positioned s where
  toScaled := Scaled.start s
  pos := show (0 : ℚ) = (0 : ℤ) * (1 / s) by rw [Int.cast_zero, zero_mul]
  posLatch := show (0 : ℚ) = (0 : ℤ) * (1 / s) by rw [Int.cast_zero, zero_mul]

lemma Positioned.capture (h : c.Positioned s) (hs : 1e-20 ≤ |s|) (i : CaptureInput) :
    (c.capture i).Positioned s := by
  have hprocess (x : VelCounter) : (x.process i).posScale = x.posScale ∧
      (x.process i).oldScale = x.oldScale ∧ (x.process i).scale = x.scale := by
    rw [process, uncounted]
    split_ifs <;> exact ⟨rfl, rfl, rfl⟩
  obtain ⟨hp, ho, hr⟩ := hprocess (c.prepare i)
  rw [h.prepare hs] at hp ho hr
  have hscale : (c.capture i).scale = 1 / s := by
    rw [VelCounter.capture, h.prepare hs]
    exact hr
  refine ⟨⟨?_, fun _ => hscale⟩, ?_, ?_⟩
  · rw [VelCounter.capture, h.prepare hs]
    exact hp.trans h.posScale
  · rw [← hscale]
    rfl
  · rw [← hscale]
    rfl

lemma positioned_runAll (hs : 1e-20 ≤ |s|) (is : List CaptureInput) :
    (runAll VelCounter.capture (.start s) is).Positioned s := by
  refine List.foldlRecOn is _ (Positioned.start s) ?_
  intro c h i _
  exact h.capture hs i

end Positions

/-! ### Velocity -/

section Velocity

variable {c c' : VelCounter} {i : CaptureInput} {s : ℚ}

/-- Without a count, the last velocity is not stretched: there is none, or it has been a long
time. -/
def OnTime (s : ℚ) (c : VelCounter) (i : CaptureInput) : Prop :=
  i.buf.countDetected = false → c.countsSinceTimeout ≠ 0 →
    1e9 / (i.minSpeed * |1 / s|) ≤ sub32 i.timebase c.timestamp
  deriving Decidable

/-- The states of two runs, one with scale `s` and one with scale `-s`. -/
structure Mirrored (s : ℚ) (c c' : VelCounter) : Prop where
  left : c.Positioned s
  right : c'.Positioned (-s)
  counts : c'.toSlowCounts = c.toSlowCounts
  countsSinceTimeout : c'.countsSinceTimeout = c.countsSinceTimeout
  vel : c'.vel = -c.vel
  posInterp : c'.posInterp = -c.posInterp

lemma Mirrored.start (s : ℚ) : Mirrored s (start s) (start (-s)) :=
  ⟨Positioned.start s, Positioned.start (-s), rfl, rfl, neg_zero.symm, neg_zero.symm⟩

/-- What the data from `update` find in the two runs. -/
structure Opposed (c c' : VelCounter) : Prop where
  counts : c'.toSlowCounts = c.toSlowCounts
  countsSinceTimeout : c'.countsSinceTimeout = c.countsSinceTimeout
  vel : c'.vel = -c.vel
  scale : c'.scale = -c.scale

lemma Mirrored.prepare (hs : 1e-20 ≤ |s|) (h : Mirrored s c c') (i : CaptureInput) :
    Opposed (c.prepare i) (c'.prepare i) := by
  rw [h.left.prepare hs, h.right.prepare (by rwa [abs_neg])]
  refine ⟨?_, h.countsSinceTimeout, h.vel, ?_⟩
  · simp only [takeEvents, checkReset, h.counts]
  · show 1 / -s = -(1 / s)
    exact div_neg 1

/-- It has been a long time, with a scale of any sign. -/
lemma uncounted_eq {m : ℚ} {t : ℕ} (hm : 0 < m)
    (h : c.countsSinceTimeout ≠ 0 → 1e9 / (m * |c.scale|) ≤ sub32 t c.timestamp) :
    c.uncounted m t = { c with countsSinceTimeout := 0, vel := 0 } := by
  rw [uncounted]
  by_cases h0 : c.countsSinceTimeout ≠ 0
  · have hle : 1e9 / (m * c.scale) ≤ (sub32 t c.timestamp : ℚ) := by
      calc 1e9 / (m * c.scale) ≤ |1e9 / (m * c.scale)| := le_abs_self _
        _ = 1e9 / (m * |c.scale|) := by
            rw [abs_div, abs_mul, abs_of_pos hm, abs_of_pos (by norm_num : (0 : ℚ) < 1e9)]
        _ ≤ sub32 t c.timestamp := h h0
    rw [if_pos h0, if_neg (not_lt.2 hle)]
  · rw [if_neg h0, ← not_not.1 h0]

/-- The counting and the timeout respect the sign. -/
lemma Opposed.process (hm : 0 < i.minSpeed) (h : Opposed c c')
    (hi : i.buf.countDetected = false → c.countsSinceTimeout ≠ 0 →
      1e9 / (i.minSpeed * |c.scale|) ≤ sub32 i.timebase c.timestamp) :
    Opposed (c.process i) (c'.process i) := by
  have htime : c'.timestamp = c.timestamp := congrArg SlowCounts.timestamp h.counts
  rw [VelCounter.process, VelCounter.process, if_neg hm.ne']
  cases hb : i.buf.countDetected with
  | false =>
    rw [if_neg Bool.false_ne_true, if_neg Bool.false_ne_true, uncounted_eq hm (hi hb),
      uncounted_eq hm (by
        rw [h.countsSinceTimeout, h.scale, abs_neg, htime]
        exact hi hb)]
    exact ⟨h.counts, rfl, neg_zero.symm, h.scale⟩
  | true =>
    rw [if_pos rfl, if_pos rfl]
    have hraw : c'.rawCount = c.rawCount := congrArg SlowCounts.rawCount h.counts
    refine ⟨?_, ?_, ?_, h.scale⟩
    · simp only [counted, h.counts]
    · simp only [counted, h.countsSinceTimeout]
    · simp only [counted, h.countsSinceTimeout, hraw, htime, h.scale, h.vel]
      split_ifs
      · rfl
      · rw [mul_neg, neg_div]

lemma Mirrored.capture (hs : 1e-20 ≤ |s|) (hm : 0 < i.minSpeed) (h : Mirrored s c c')
    (hi : OnTime s c i) : Mirrored s (c.capture i) (c'.capture i) := by
  have hleft := h.left.capture hs i
  have hright := h.right.capture (by rwa [abs_neg]) i
  have hop := (h.prepare hs i).process hm (by
    rw [h.left.prepare hs]
    exact hi)
  have hcounts : (c'.capture i).toSlowCounts = (c.capture i).toSlowCounts := by
    rw [capture_counts, capture_counts, h.counts]
  refine ⟨hleft, hright, hcounts, hop.countsSinceTimeout, hop.vel, ?_⟩
  have htime : ((c'.prepare i).process i).timestamp = ((c.prepare i).process i).timestamp :=
    congrArg SlowCounts.timestamp hop.counts
  have hpos : (c'.capture i).pos = -(c.capture i).pos := by
    rw [hright.pos, hleft.pos, hcounts, div_neg, mul_neg]
  show (c'.capture i).pos + ((c'.prepare i).process i).vel * duration _ _ =
    -((c.capture i).pos + ((c.prepare i).process i).vel * duration _ _)
  rw [hpos, hop.vel, htime, neg_add, neg_mul]

end Velocity

end VelCounter

open VelCounter

/-- The outputs about the position in two runs. -/
structure PositionsNegated (c c' : VelCounter) : Prop where
  count : c'.count = c.count
  countLatch : c'.countLatch = c.countLatch
  pos : c'.pos = -c.pos
  posLatch : c'.posLatch = -c.posLatch

/-- The outputs about the velocity. -/
structure VelocitiesNegated (c c' : VelCounter) : Prop where
  vel : c'.vel = -c.vel
  posInterp : c'.posInterp = -c.posInterp

/-- The outputs after the same history with the scale and with its negative. -/
def SymmetricAt (s : ℚ) : Prop := ∀ is : List CaptureInput, (∀ i ∈ is, 0 < i.minSpeed) →
  PositionsNegated (runAll capture (start s) is) (runAll capture (start (-s)) is) ∧
    VelocitiesNegated (runAll capture (start s) is) (runAll capture (start (-s)) is)

/-- With a scale that is not too small the positions are always negated, and the velocities are
as long as none is stretched. -/
theorem encoder_symmetry {s : ℚ} (hs : 1e-20 ≤ |s|) (is : List CaptureInput)
    (hmin : ∀ i ∈ is, 0 < i.minSpeed) :
    PositionsNegated (runAll capture (start s) is) (runAll capture (start (-s)) is) ∧
      (Along capture (OnTime s) (start s) is →
        VelocitiesNegated (runAll capture (start s) is) (runAll capture (start (-s)) is)) := by
  have hleft := positioned_runAll hs is
  have hright := positioned_runAll (s := -s) (by rwa [abs_neg]) is
  have hcounts : (runAll capture (start (-s)) is).toSlowCounts =
      (runAll capture (start s) is).toSlowCounts := runAll_counts is rfl
  refine ⟨⟨?_, ?_, ?_, ?_⟩, fun hok => ?_⟩
  · rw [hcounts]
  · rw [hcounts]
  · rw [hright.pos, hleft.pos, hcounts, div_neg, mul_neg]
  · rw [hright.posLatch, hleft.posLatch, hcounts, div_neg, mul_neg]
  · have hmir : Mirrored s (runAll capture (start s) is) (runAll capture (start (-s)) is) :=
      ((along_of_forall fun i hi _ => hmin i hi).and hok).rel
        (fun h hi => h.capture hs hi.1 hi.2) (Mirrored.start s)
    exact ⟨hmir.vel, hmir.posInterp⟩

/-- A call that finds a count, and one that finds none. -/
def countInput (raw : ℤ) (time : ℕ) : CaptureInput :=
  ⟨⟨true, false, false, raw, 0, 0⟩, time, raw, false, 1, time + 50000, time + 50000⟩

def noCountInput (raw : ℤ) (time : ℕ) : CaptureInput :=
  ⟨⟨false, false, false, 0, 0, 0⟩, 0, raw, false, 1, time, time⟩

/-- Four counts per unit, four counts, and a call after a second without one. -/
theorem encoder_symmetry_four : VelocitiesNegated
    (runAll capture (start 4) [countInput 1 1000000, countInput 2 2000000, countInput 3 3000000,
      countInput 4 4000000, noCountInput 4 (4 * 10 ^ 9 + 4000000)])
    (runAll capture (start (-4)) [countInput 1 1000000, countInput 2 2000000,
      countInput 3 3000000, countInput 4 4000000, noCountInput 4 (4 * 10 ^ 9 + 4000000)]) :=
  (encoder_symmetry (by decide +kernel) _ (by decide)).2 (by decide +kernel)

/-- Both scales of a tiny pair become 1; and after three counts the velocity stays with the
scale 1 and is dropped with the scale -1. -/
theorem encoder_not_symmetric : ¬ SymmetricAt (1 / 10 ^ 21) ∧ ¬ SymmetricAt 1 := by
  constructor
  · intro h
    have hpos := (h [countInput 1 1000000] (by decide)).1.pos
    exact absurd hpos (by decide +kernel)
  · intro h
    have hvel := (h [countInput 1 1000000, countInput 2 2000000, countInput 3 3000000,
      noCountInput 3 4000000] (by decide)).2.vel
    exact absurd hvel (by decide +kernel)

end MachinekitHal
