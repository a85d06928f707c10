import MachinekitHal.Components.Delayline
import MachinekitHal.Ring.RecordUniform

/-!
The ring of a delay line as a queue of stamped samples.

* `stamp`, `sampleValue`: what is stored in a record.
* `SampleOf`, `writeSampleToRing_queue`: the function `sample` appends a record with the input
  timestamp and the values of the pins, or leaves the queue alone.
* `readRecords_queue`: the loop of `output` takes the records from the front of the queue whose
  timestamps are not in the future (`due`), one after the other (`presentAll`); it returns.
* `OutputOf`, `readSampleFromRing_queue`: the function `output`.
* `SameLine`: what no function changes.
-/

namespace MachinekitHal.Delayline

open Bytes Word

/-! ### Values -/

/-- A value that was assigned reads back by its type. -/
lemma typedValue_assignValue {type : HalType} (hvalid : halValidType type = true)
    (dst src : HalDataU) : typedValue type (assignValue type dst src) = typedValue type src := by
  have hbit : getBitValue (getBitValue src) = getBitValue src := by
    rw [getBitValue, getBitValue]
    refine BitVec.eq_of_toNat_eq ?_
    simp only [BitVec.toNat_setWidth, BitVec.extractLsb'_toNat, Nat.shiftRight_zero]
    omega
  have hword : get32Value (get32Value src) = get32Value src := by
    rw [get32Value, get32Value]
    refine BitVec.eq_of_toNat_eq ?_
    simp only [BitVec.toNat_setWidth, BitVec.extractLsb'_toNat, Nat.shiftRight_zero]
    omega
  cases type with
  | halBit => exact (getBitValue_set _ _).trans hbit
  | halS32 | halU32 => exact (get32Value_set _ _).trans hword
  | halFloat | halS64 | halU64 => rfl
  | halTypeUnspecified | halTypeUninitialized => cases hvalid

/-! ### Records -/

/-- The bytes of a record by their offset. -/
def recordMem (rec : Rec) : Mem := fun i => rec.bytes.getD i 0

/-- The timestamp of a record. -/
def stamp (rec : Rec) : BitVec 64 := BitVec.ofNat 64 (load64 (recordMem rec) 0)

/-- The `j`-th value of a record. -/
def sampleValue (rec : Rec) (j : ℕ) : HalDataU :=
  BitVec.ofNat 64 (load64 (recordMem rec) (8 + j * 8))

/-- A record as it stands in the ring. -/
lemma load64_record {rec : Rec} {buf : Mem} (hat : rec.At buf) {i : ℕ}
    (hi : i + 8 ≤ rec.bytes.length) :
    load64 buf (rec.off + 4 + i) = load64 (recordMem rec) i := by
  refine load64_congr fun k hk => ?_
  have hbyte := getElem?_loadBytes buf (rec.off + 4) rec.bytes.length (i + k)
  rw [hat.data, if_pos (by omega)] at hbyte
  rw [recordMem, List.getD_eq_getElem?_getD, hbyte, Option.getD_some, Nat.add_assoc _ i k]

/-- A record that was committed. -/
lemma load64_committed {buf : Mem} {s c i : ℕ} (hi : i + 8 ≤ c) :
    load64 (recordMem (committed buf s c)) i = load64 buf (s + i) := by
  refine load64_congr fun k hk => ?_
  have hbyte := getElem?_loadBytes buf s c (i + k)
  rw [if_pos (by omega)] at hbyte
  show (loadBytes buf s c).getD (i + k) 0 = _
  rw [List.getD_eq_getElem?_getD, hbyte, Option.getD_some, Nat.add_assoc]

namespace HalDelayline

variable {hd : HalDelayline} {pins : Pins} {live : List Rec}

/-! ### Sampling -/

section Deposit

variable {src : ℕ → HalDataU} {s x : ℕ}

lemma storePins_outside (hd : HalDelayline) {m : Mem} {n : ℕ} (hx : x < s + 8 ∨ s + 8 + n * 8 ≤ x) :
    hd.storePins src s n m x = m x := by
  induction n with
  | zero => rfl
  | succ n ih => rw [storePins, store64_apply_of_outside (by omega), ih (by omega)]

/-- The record holds the values of the pins. -/
lemma storePins_value {m : Mem} {n j : ℕ} (hj : j < n)
    (hvalid : halValidType (hd.pintype j) = true) :
    typedValue (hd.pintype j) (BitVec.ofNat 64 (load64 (hd.storePins src s n m) (s + 8 + j * 8)))
      = typedValue (hd.pintype j) (src j) := by
  induction n with
  | zero => exact absurd hj (Nat.not_lt_zero _)
  | succ n ih =>
    rw [storePins]
    rcases Nat.lt_or_ge j n with hlt | hge
    · rw [load64_congr fun k hk => store64_apply_of_outside (by omega)]
      exact ih hlt
    · obtain rfl : j = n := by omega
      rw [load64_store64 (BitVec.isLt _), BitVec.ofNat_toNat, BitVec.setWidth_eq]
      exact typedValue_assignValue hvalid _ _

lemma deposit_outside (hd : HalDelayline) (hx : x < s ∨ s + hd.sampleSize ≤ x) :
    hd.deposit src s x = hd.ring.buf x := by
  rw [HalDelayline.sampleSize, Delayline.sampleSize] at hx
  rw [deposit, storePins_outside hd (by omega), store64_apply_of_outside (by omega)]

lemma deposit_stamp (hd : HalDelayline) :
    load64 (hd.deposit src s) s = hd.inputTs.toNat := by
  rw [deposit, load64_congr fun k hk => storePins_outside hd (by omega),
    load64_store64 (BitVec.isLt _)]

end Deposit

/-- What no function changes. -/
structure SameLine (hd hd' : HalDelayline) : Prop where
  nsamples : hd'.nsamples = hd.nsamples
  pintype : hd'.pintype = hd.pintype
  maxDelay : hd'.maxDelay = hd.maxDelay
  size : hd'.ring.size = hd.ring.size

lemma SameLine.refl (hd : HalDelayline) : SameLine hd hd := ⟨rfl, rfl, rfl, rfl⟩

lemma SameLine.trans {hd₁ hd₂ hd₃ : HalDelayline} (h : SameLine hd₁ hd₂) (h' : SameLine hd₂ hd₃) :
    SameLine hd₁ hd₃ :=
  ⟨h'.nsamples.trans h.nsamples, h'.pintype.trans h.pintype, h'.maxDelay.trans h.maxDelay,
    h'.size.trans h.size⟩

lemma SameLine.sampleSize {hd' : HalDelayline} (h : SameLine hd hd') :
    hd'.sampleSize = hd.sampleSize := by
  rw [HalDelayline.sampleSize, h.nsamples, HalDelayline.sampleSize]

/-- `increase` moves the input timestamp and nothing else. -/
lemma increase_eq (hd : HalDelayline) (pins : Pins) : hd.increase pins =
    { hd with delay := (hd.increase pins).delay, inputTs := (hd.increase pins).inputTs } := by
  rw [increase]
  split_ifs <;> rfl

@[simp] lemma increase_ring (hd : HalDelayline) (pins : Pins) :
    (hd.increase pins).ring = hd.ring := by
  rw [increase_eq]

@[simp] lemma increase_writeFail (hd : HalDelayline) (pins : Pins) :
    (hd.increase pins).writeFail = hd.writeFail := by
  rw [increase_eq]

lemma increase_same (hd : HalDelayline) (pins : Pins) : SameLine hd (hd.increase pins) := by
  rw [increase_eq]
  exact ⟨rfl, rfl, rfl, rfl⟩

@[simp] lemma increase_sampleSize (hd : HalDelayline) (pins : Pins) :
    (hd.increase pins).sampleSize = hd.sampleSize := (increase_same hd pins).sampleSize

lemma store_outputTs (hd : HalDelayline) (pins : Pins) :
    (hd.store pins).outputTs = hd.outputTs ∧ (hd.store pins).inputTs = hd.inputTs ∧
      (hd.store pins).lastAbort = hd.lastAbort := by
  rw [store]
  split
  · exact ⟨rfl, rfl, rfl⟩
  · split <;> exact ⟨rfl, rfl, rfl⟩

lemma store_same (hd : HalDelayline) (pins : Pins) : SameLine hd (hd.store pins) := by
  rw [store]
  split
  · exact ⟨rfl, rfl, rfl, rfl⟩
  · split
    · exact ⟨rfl, rfl, rfl, rfl⟩
    · exact ⟨rfl, rfl, rfl, recordWriteEnd_size _ _ _⟩

lemma writeSampleToRing_same (hd : HalDelayline) (pins : Pins) :
    SameLine hd (hd.writeSampleToRing pins) := by
  have hstore := (increase_same hd pins).trans (store_same (hd.increase pins) pins)
  exact ⟨hstore.nsamples, hstore.pintype, hstore.maxDelay, hstore.size⟩

lemma writeSampleToRing_outputTs (hd : HalDelayline) (pins : Pins) :
    (hd.writeSampleToRing pins).outputTs = hd.outputTs := by
  show ((hd.increase pins).store pins).outputTs = hd.outputTs
  rw [(store_outputTs _ pins).1, increase_eq]

lemma writeSampleToRing_inputTs (hd : HalDelayline) (pins : Pins) :
    (hd.writeSampleToRing pins).inputTs = (hd.increase pins).inputTs + 1 := by
  show ((hd.increase pins).store pins).inputTs + 1 = _
  rw [(store_outputTs _ pins).2.1]

lemma sampleSize_lt (hn : hd.nsamples ≤ maxSamples) : hd.sampleSize < 2147483648 := by
  rw [maxSamples] at hn
  rw [HalDelayline.sampleSize, Delayline.sampleSize]
  omega

/-- A sample that is stored is a new record at the end of the queue. -/
lemma writeSampleToRing_stored (h : Uniform hd.sampleSize hd.ring live)
    (hn : hd.nsamples ≤ maxSamples)
    (hvalid : ∀ j < hd.nsamples, halValidType (hd.pintype j) = true) (hen : pins.enable = true)
    {s : ℕ} (hok : hd.ring.recordWriteBegin hd.sampleSize = .ok s) :
    (hd.writeSampleToRing pins).writeFail = hd.writeFail ∧
      ∃ rec, Uniform hd.sampleSize (hd.writeSampleToRing pins).ring (live ++ [rec]) ∧
        stamp rec = (hd.increase pins).inputTs ∧
        ∀ j < hd.nsamples, typedValue (hd.pintype j) (sampleValue rec j)
          = typedValue (hd.pintype j) (pins.pinsIn j) := by
  have hsmall := sampleSize_lt hn
  have hsame := increase_same hd pins
  have hstore : (hd.increase pins).store pins = { hd.increase pins with
      ring := { hd.ring with
        buf := (hd.increase pins).deposit pins.pinsIn s }.recordWriteEnd s hd.sampleSize } := by
    rw [store, hen, increase_ring, increase_sampleSize, hok]
    rfl
  have hring : (hd.writeSampleToRing pins).ring = { hd.ring with
      buf := (hd.increase pins).deposit pins.pinsIn s }.recordWriteEnd s hd.sampleSize := by
    show ((hd.increase pins).store pins).ring = _
    rw [hstore]
  have hfail : (hd.writeSampleToRing pins).writeFail = hd.writeFail := by
    show ((hd.increase pins).store pins).writeFail = hd.writeFail
    rw [hstore, increase_eq]
  obtain ⟨-, hbegun⟩ := h.toRingOk.recordWriteBegin (by omega) hok
  have hlen : hd.sampleSize = 8 + hd.nsamples * 8 := rfl
  have hspan := recordUsage_small hsmall
  have hframe : ∀ x, Used hd.ring.size hd.ring.head hd.ring.tail x →
      (hd.increase pins).deposit pins.pinsIn s x = hd.ring.buf x := fun x hx => by
    rw [deposit_outside _ (by
      by_contra hin
      rw [increase_sampleSize] at hin
      have hfour : 4 ≤ s := by
        rcases hbegun with ⟨hs, -⟩ | ⟨hs, -⟩ <;> omega
      exact hbegun.not_used (by omega) (by omega) hx), increase_ring]
  refine ⟨hfail, committed ((hd.increase pins).deposit pins.pinsIn s) s hd.sampleSize, ?_, ?_, ?_⟩
  · rw [hring]
    exact h.commit hsmall hok hframe
  · rw [stamp, load64_committed (by omega), Nat.add_zero, deposit_stamp, BitVec.ofNat_toNat,
      BitVec.setWidth_eq]
  · intro j hj
    have hvalid' : halValidType ((hd.increase pins).pintype j) = true := by
      rw [hsame.pintype]
      exact hvalid j hj
    rw [sampleValue, load64_committed (by omega), ← hsame.pintype, ← Nat.add_assoc]
    exact storePins_value (by rw [hsame.nsamples]; exact hj) hvalid'

/-- Otherwise the queue stays as it is; a sample that finds no room is counted. -/
lemma writeSampleToRing_kept (hno : pins.enable = true →
      ∀ s, hd.ring.recordWriteBegin hd.sampleSize ≠ .ok s) :
    (hd.writeSampleToRing pins).ring = hd.ring ∧
      (hd.writeSampleToRing pins).writeFail
        = if pins.enable then hd.writeFail + 1 else hd.writeFail := by
  show ((hd.increase pins).store pins).ring = hd.ring ∧
    ((hd.increase pins).store pins).writeFail = _
  rw [store, increase_ring, increase_sampleSize]
  cases hen : pins.enable with
  | false => exact ⟨rfl, increase_writeFail hd pins⟩
  | true =>
    cases hbegin : hd.ring.recordWriteBegin hd.sampleSize with
    | ok s => exact absurd hbegin (hno hen s)
    | error e => exact ⟨rfl, congrArg (· + 1) (increase_writeFail hd pins)⟩

/-- A record holds the values of the input pins. -/
def Holds (hd : HalDelayline) (pins : Pins) (rec : Rec) : Prop :=
  ∀ j < hd.nsamples, typedValue (hd.pintype j) (sampleValue rec j)
    = typedValue (hd.pintype j) (pins.pinsIn j)

/-- What became of a sample: it was stored, the line was not enabled, or there was no room. -/
inductive Outcome (hd : HalDelayline) (pins : Pins) (hd' : HalDelayline) : List Rec → Prop
  | stored {rec : Rec} (enabled : pins.enable = true) (kept : hd'.writeFail = hd.writeFail)
      (stamped : stamp rec = (hd.increase pins).inputTs) (holds : hd.Holds pins rec) :
      Outcome hd pins hd' [rec]
  | disabled (disabled : pins.enable = false) (kept : hd'.writeFail = hd.writeFail) :
      Outcome hd pins hd' []
  | failed (enabled : pins.enable = true)
      (full : ∀ s, hd.ring.recordWriteBegin hd.sampleSize ≠ .ok s)
      (counted : hd'.writeFail = hd.writeFail + 1) : Outcome hd pins hd' []

/-- What `sample` leaves behind when the records `live` are in the queue. -/
structure SampleOf (hd : HalDelayline) (pins : Pins) (live new : List Rec) (hd' : HalDelayline) :
    Prop where
  same : SameLine hd hd'
  queue : Uniform hd.sampleSize hd'.ring (live ++ new)
  outputTs : hd'.outputTs = hd.outputTs
  inputTs : hd'.inputTs = (hd.increase pins).inputTs + 1
  outcome : Outcome hd pins hd' new

/-- **`sample`** appends what it stores. -/
lemma writeSampleToRing_queue (pins : Pins) (h : Uniform hd.sampleSize hd.ring live)
    (hn : hd.nsamples ≤ maxSamples)
    (hvalid : ∀ j < hd.nsamples, halValidType (hd.pintype j) = true) :
    ∃ new, SampleOf hd pins live new (hd.writeSampleToRing pins) := by
  have hsame := writeSampleToRing_same hd pins
  have hout := writeSampleToRing_outputTs hd pins
  have hin := writeSampleToRing_inputTs hd pins
  by_cases hstored : pins.enable = true ∧ ∃ s, hd.ring.recordWriteBegin hd.sampleSize = .ok s
  · obtain ⟨hen, s, hok⟩ := hstored
    obtain ⟨hkept, rec, hqueue, hstamp, hholds⟩ :=
      writeSampleToRing_stored h hn hvalid hen hok
    exact ⟨[rec], hsame, hqueue, hout, hin, .stored hen hkept hstamp hholds⟩
  · have hno : pins.enable = true → ∀ s, hd.ring.recordWriteBegin hd.sampleSize ≠ .ok s :=
      fun hen s hok => hstored ⟨hen, s, hok⟩
    obtain ⟨hring, hfail⟩ := writeSampleToRing_kept hno
    have hqueue : Uniform hd.sampleSize (hd.writeSampleToRing pins).ring (live ++ []) := by
      rw [hring, List.append_nil]
      exact h
    refine ⟨[], hsame, hqueue, hout, hin, ?_⟩
    cases hen : pins.enable with
    | false => exact .disabled hen (by rw [hfail, hen]; rfl)
    | true => exact .failed hen (hno hen) (by rw [hfail, hen]; rfl)

/-! ### Output -/

/-- A record is not in the future. -/
def due (now : BitVec 64) (rec : Rec) : Bool := stamp rec ≤ now

/-- A record is shown, or counted as too old. -/
def presentRec (hd : HalDelayline) (rec : Rec) : HalDelayline :=
  if stamp rec = hd.outputTs then { hd with pinsOut := hd.assignPins (sampleValue rec) }
  else { hd with tooOld := hd.tooOld + 1 }

/-- Records are shown one after the other. -/
def presentAll (hd : HalDelayline) (recs : List Rec) : HalDelayline := recs.foldl presentRec hd

lemma presentRec_eq (hd : HalDelayline) (rec : Rec) : hd.presentRec rec =
    { hd with pinsOut := (hd.presentRec rec).pinsOut, tooOld := (hd.presentRec rec).tooOld } := by
  rw [presentRec]
  split_ifs <;> rfl

/-- Showing records changes the output pins and the count of old ones. -/
lemma presentAll_eq (hd : HalDelayline) (recs : List Rec) : hd.presentAll recs =
    { hd with pinsOut := (hd.presentAll recs).pinsOut, tooOld := (hd.presentAll recs).tooOld } := by
  induction recs generalizing hd with
  | nil => rfl
  | cons rec rest ih =>
    have hrest : presentAll hd (rec :: rest) = presentAll (hd.presentRec rec) rest := rfl
    rw [hrest, ih, presentRec]
    split_ifs <;> rfl

/-- Showing records does not look at the ring nor at the input timestamp. -/
lemma presentAll_moved (hd : HalDelayline) (r : RecordRing) (d : BitVec 32) (t : BitVec 64)
    (recs : List Rec) : presentAll { hd with ring := r, delay := d, inputTs := t } recs
      = { hd.presentAll recs with ring := r, delay := d, inputTs := t } := by
  induction recs generalizing hd with
  | nil => rfl
  | cons rec rest ih =>
    have hstep : presentRec { hd with ring := r, delay := d, inputTs := t } rec
        = { hd.presentRec rec with ring := r, delay := d, inputTs := t } := by
      simp only [presentRec]
      split_ifs <;> rfl
    rw [presentAll, List.foldl_cons, hstep]
    exact ih (hd.presentRec rec)

lemma presentAll_withRing (hd : HalDelayline) (recs : List Rec) (r : RecordRing) :
    presentAll { hd with ring := r } recs = { hd.presentAll recs with ring := r } := by
  have hmoved := presentAll_moved hd r hd.delay hd.inputTs recs
  rw [hmoved, presentAll_eq]

/-- The record that is presented is the one at the front of the queue. -/
lemma present_front {rec : Rec} (hat : rec.At hd.ring.buf)
    (hlen : rec.bytes.length = hd.sampleSize) : hd.present (rec.off + 4) = hd.presentRec rec := by
  rw [HalDelayline.sampleSize, Delayline.sampleSize] at hlen
  have hstamp := load64_record hat (i := 0) (by omega)
  rw [Nat.add_zero] at hstamp
  have hassign : hd.apply (rec.off + 4) = hd.assignPins (sampleValue rec) := by
    funext j
    rw [apply, assignPins, assignPins]
    split_ifs with hj
    · rw [Nat.add_assoc (rec.off + 4), load64_record hat (by omega), sampleValue]
    · rfl
  rw [present, presentRec, stamp, hstamp, hassign]

/-- **The loop over the records** takes those that are due. -/
lemma readRecords_queue (fuel : ℕ) (h : Uniform hd.sampleSize hd.ring live)
    (hn : hd.nsamples ≤ maxSamples) (hfuel : live.length < fuel) :
    ∃ r, readRecords fuel hd
        = some { hd.presentAll (live.takeWhile (due hd.outputTs)) with ring := r } ∧
      Uniform hd.sampleSize r (live.dropWhile (due hd.outputTs)) ∧ r.size = hd.ring.size := by
  have hsmall := sampleSize_lt hn
  induction live generalizing hd fuel with
  | nil =>
    obtain ⟨k, rfl⟩ : ∃ k, fuel = k + 1 := ⟨fuel - 1, by omega⟩
    refine ⟨hd.ring, ?_, h, rfl⟩
    rw [readRecords, h.toSettled.recordRead]
    rfl
  | cons rec rest ih =>
    rw [List.length_cons] at hfuel
    obtain ⟨k, rfl⟩ : ∃ k, fuel = k + 1 := ⟨fuel - 1, by omega⟩
    have hlen := h.length_eq rec (.head _)
    have hat := h.toSettled.front.2.1
    have hsize : hd.sampleSize = 8 + hd.nsamples * 8 := rfl
    have hstamp : BitVec.ofNat 64 (load64 hd.ring.buf (rec.off + 4)) = stamp rec := by
      rw [stamp, ← load64_record hat (by omega), Nat.add_zero]
    by_cases hdue : stamp rec ≤ hd.outputTs
    · obtain ⟨r', hshift, hrest, hsize', -⟩ := h.recordShift hsmall
      have hsame : SameLine hd { hd.presentRec rec with ring := r' } := by
        rw [presentRec_eq]
        exact ⟨rfl, rfl, rfl, hsize'⟩
      have hrest' : Uniform { hd.presentRec rec with ring := r' }.sampleSize r' rest := by
        rw [hsame.sampleSize]
        exact hrest
      have hout : { hd.presentRec rec with ring := r' }.outputTs = hd.outputTs := by
        rw [presentRec_eq]
      obtain ⟨r, hread, hring, hrsize⟩ := ih k hrest' (by rw [hsame.nsamples]; exact hn)
        (show rest.length < k by omega) (by rw [hsame.sampleSize]; exact hsmall)
      rw [hout] at hread hring
      rw [hsame.sampleSize] at hring
      refine ⟨r, ?_, ?_, hrsize.trans hsize'⟩
      · rw [readRecords, h.toSettled.recordRead]
        simp only [hstamp, if_neg (BitVec.not_lt.2 hdue), hshift, present_front hat hlen]
        rw [hread, List.takeWhile_cons_of_pos (by simpa [due] using hdue), presentAll_withRing]
        rfl
      · rw [List.dropWhile_cons_of_pos (by simpa [due] using hdue)]
        exact hring
    · have hlater : hd.outputTs < stamp rec := BitVec.not_le.1 hdue
      refine ⟨hd.ring, ?_, ?_, rfl⟩
      · rw [readRecords, h.toSettled.recordRead]
        simp only [hstamp, if_pos hlater]
        rw [List.takeWhile_cons_of_neg (by simpa [due] using hdue)]
        rfl
      · rw [List.dropWhile_cons_of_neg (by simpa [due] using hdue)]
        exact h

/-- A flush leaves the queue as it is or empties it. -/
lemma flushOnAbort_queue (pins : Pins) (h : Uniform hd.sampleSize hd.ring live)
    (hn : hd.nsamples ≤ maxSamples) :
    ∃ r live', hd.flushOnAbort pins = some { hd with ring := r } ∧
      Uniform hd.sampleSize r live' ∧ r.size = hd.ring.size ∧
      (live' = live ∨ live' = [] ∧ pins.abort = true) := by
  rw [flushOnAbort]
  split_ifs with hedge
  · have hlen := h.layout.length_le
    obtain ⟨r, hflush, hring, hsize⟩ :=
      h.recordFlushReader (sampleSize_lt hn) (Nat.lt_succ_of_le hlen)
    rw [Bool.and_eq_true] at hedge
    exact ⟨r, [], by rw [hflush]; rfl, hring, hsize, .inr ⟨rfl, hedge.1⟩⟩
  · exact ⟨hd.ring, live, rfl, h, rfl, .inl rfl⟩

/-- What `output` leaves behind when the records `live` are in the queue. -/
structure OutputOf (hd : HalDelayline) (pins : Pins) (live : List Rec) (hd' : HalDelayline) :
    Prop where
  same : SameLine hd hd'
  queue : Uniform hd.sampleSize hd'.ring (live.dropWhile (due hd.outputTs))
  outputTs : hd'.outputTs = hd.outputTs + 1
  inputTs : hd'.inputTs = (hd.decrease pins).inputTs
  writeFail : hd'.writeFail = hd.writeFail
  pinsOut : hd'.pinsOut = (hd.presentAll (live.takeWhile (due hd.outputTs))).pinsOut

/-- `decrease` moves the input timestamp and nothing else. -/
lemma decrease_eq (hd : HalDelayline) (pins : Pins) : hd.decrease pins =
    { hd with delay := (hd.decrease pins).delay, inputTs := (hd.decrease pins).inputTs } := by
  rw [decrease]
  split_ifs <;> rfl

/-- It does not look at the ring. -/
lemma decrease_withRing (hd : HalDelayline) (pins : Pins) (r : RecordRing) :
    decrease { hd with ring := r } pins =
      { hd with ring := r, delay := (hd.decrease pins).delay,
                inputTs := (hd.decrease pins).inputTs } := by
  have hlag : lag { hd with ring := r } = hd.lag := rfl
  by_cases hlt : pins.pinDelay < hd.lag
  · simp only [decrease, hlag, if_pos hlt]
  · simp only [decrease, hlag, if_neg hlt]

/-- **`output`** returns; it takes the records that are due. -/
lemma readSampleFromRing_queue (pins : Pins) (h : Uniform hd.sampleSize hd.ring live)
    (hn : hd.nsamples ≤ maxSamples) :
    ∃ live' hd', hd.readSampleFromRing pins = some hd' ∧ OutputOf hd pins live' hd' ∧
      (live' = live ∨ live' = [] ∧ pins.abort = true) := by
  obtain ⟨r, live', hflush, hring, hsize, hlive⟩ := flushOnAbort_queue pins h hn
  obtain ⟨hd₁, hhd₁⟩ : ∃ hd₁, hd₁ = decrease { hd with ring := r } pins := ⟨_, rfl⟩
  have heq := hhd₁
  rw [decrease_withRing] at heq
  have hring₁ : hd₁.ring = r := by rw [heq]
  have hsame₁ : SameLine hd hd₁ := by
    rw [heq]
    exact ⟨rfl, rfl, rfl, hsize⟩
  have hout₁ : hd₁.outputTs = hd.outputTs := by rw [heq]
  have hqueue : Uniform hd₁.sampleSize hd₁.ring live' := by
    rw [hsame₁.sampleSize, hring₁]
    exact hring
  obtain ⟨r', hread, hring', hsize'⟩ := readRecords_queue (r.size + 1) hqueue
    (by rw [hsame₁.nsamples]; exact hn) (Nat.lt_succ_of_le hring.layout.length_le)
  rw [hsame₁.sampleSize, hout₁] at hring'
  rw [hout₁] at hread
  have hshown := presentAll_eq hd₁ (live'.takeWhile (due hd.outputTs))
  have hinput : hd₁.inputTs = (hd.decrease pins).inputTs := by rw [heq]
  refine ⟨live', { hd₁.presentAll (live'.takeWhile (due hd.outputTs)) with
    ring := r', outputTs := hd.outputTs + 1, lastAbort := pins.abort }, ?_, ?_, hlive⟩
  · rw [readSampleFromRing, hflush, Option.bind_some, ← hhd₁, hread, Option.map_some]
    have hts : (hd₁.presentAll (live'.takeWhile (due hd.outputTs))).outputTs = hd.outputTs := by
      rw [hshown, hout₁]
    simp only [hts]
  · refine ⟨⟨?_, ?_, ?_, ?_⟩, hring', rfl, ?_, ?_, ?_⟩
    · show (hd₁.presentAll _).nsamples = _
      rw [hshown, hsame₁.nsamples]
    · show (hd₁.presentAll _).pintype = _
      rw [hshown, hsame₁.pintype]
    · show (hd₁.presentAll _).maxDelay = _
      rw [hshown, hsame₁.maxDelay]
    · exact hsize'.trans hsame₁.size
    · show (hd₁.presentAll _).inputTs = _
      rw [hshown, hinput]
    · show (hd₁.presentAll _).writeFail = _
      rw [hshown, heq]
    · show (hd₁.presentAll _).pinsOut = _
      rw [heq, presentAll_moved]

end HalDelayline

end MachinekitHal.Delayline
