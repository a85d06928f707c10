import MachinekitHal.Components.DelaylineQueue
import MachinekitHal.Lib.Labelled

/-!
Whether the ring of a delay line is large enough.

* `sampleLag`, `outputLag`, `lagAt`: how far the input timestamp is ahead of the output timestamp,
  from the delay pin alone.
* `PeriodOf`, `period_sampleFirst`: a period with `sample` in front of `output`.
* `capacity`: if every sample is stamped `e` periods ahead, `e` records are left in the queue, and
  `e + 2` slots are enough.
* `write_fail_zero`: the counter of write failures stays 0 if the ring has the slots; for
  `max_delay` 1 it has not (`write_fail_counts`).
-/

namespace MachinekitHal.Delayline

open Bytes Word

/-! ### The lag -/

/-- The lag with which a sample is stamped. -/
def sampleLag (maxDelay pin lag : ℕ) : ℕ := if lag < pin then min pin maxDelay else lag

/-- The lag that `output` leaves. -/
def outputLag (pin lag : ℕ) : ℕ := if pin ≤ lag then lag - pin else lag

/-- The lag before the `n`-th period. -/
def lagAt (maxDelay : ℕ) (h : ℕ → Period) : ℕ → ℕ
  | 0 => 0
  | n + 1 =>
    outputLag (h n).output.pinDelay.toNat
      (sampleLag maxDelay (h n).sample.pinDelay.toNat (lagAt maxDelay h n))

lemma sampleLag_le {maxDelay lag : ℕ} (hlag : lag ≤ maxDelay) (pin : ℕ) :
    sampleLag maxDelay pin lag ≤ maxDelay := by
  rw [sampleLag]
  split_ifs
  · exact min_le_right _ _
  · exact hlag

lemma outputLag_le (pin lag : ℕ) : outputLag pin lag ≤ lag := by
  rw [outputLag]
  split_ifs <;> omega

lemma lagAt_le (maxDelay : ℕ) (h : ℕ → Period) (n : ℕ) : lagAt maxDelay h n ≤ maxDelay := by
  induction n with
  | zero => exact Nat.zero_le _
  | succ n ih => exact (outputLag_le _ _).trans (sampleLag_le ih _)

namespace HalDelayline

variable {hd₀ hd hd' : HalDelayline} {pr : Period} {live : List Rec} {n lag : ℕ}

/-- The timestamps before the `n`-th period. -/
structure Clock (hd : HalDelayline) (n lag : ℕ) : Prop where
  outputTs : hd.outputTs = BitVec.ofNat 64 n
  inputTs : hd.inputTs = BitVec.ofNat 64 (n + lag)

/-- The difference as the code computes it. -/
lemma Clock.lag_eq (h : Clock hd n lag) : hd.lag = BitVec.ofNat 32 lag := by
  rw [HalDelayline.lag, h.inputTs, h.outputTs]
  refine BitVec.eq_of_toNat_eq ?_
  simp only [BitVec.toNat_setWidth, BitVec.toNat_sub, BitVec.toNat_ofNat]
  omega

/-- `increase` in terms of the lag. -/
lemma Clock.increase (h : Clock hd n lag) (pins : Pins) (hlt : lag < 4294967296) :
    (hd.increase pins).inputTs
      = BitVec.ofNat 64 (n + sampleLag hd.maxDelay.toNat pins.pinDelay.toNat lag) := by
  rw [HalDelayline.increase, h.lag_eq, sampleLag]
  have hiff : BitVec.ofNat 32 lag < pins.pinDelay ↔ lag < pins.pinDelay.toNat := by
    rw [BitVec.lt_def, BitVec.toNat_ofNat, Nat.mod_eq_of_lt hlt]
  have hmin : (if hd.maxDelay < pins.pinDelay then hd.maxDelay else pins.pinDelay).toNat
      = min pins.pinDelay.toNat hd.maxDelay.toNat := by
    split_ifs with hmax
    · rw [BitVec.lt_def] at hmax
      omega
    · rw [BitVec.lt_def] at hmax
      omega
  by_cases hpin : lag < pins.pinDelay.toNat
  · rw [if_pos (hiff.2 hpin), if_pos hpin, ← hmin, h.outputTs]
    refine BitVec.eq_of_toNat_eq ?_
    simp only [BitVec.toNat_add, BitVec.toNat_setWidth, BitVec.toNat_ofNat]
    omega
  · rw [if_neg (hpin ∘ hiff.1), if_neg hpin, h.inputTs]

/-- `decrease` in terms of the lag. -/
lemma Clock.decrease (h : Clock hd n (lag + 1)) (pins : Pins) (hlt : lag + 1 < 4294967296) :
    (hd.decrease pins).inputTs
      = BitVec.ofNat 64 (n + 1 + outputLag pins.pinDelay.toNat lag) := by
  rw [HalDelayline.decrease, h.lag_eq, outputLag]
  have hiff : pins.pinDelay < BitVec.ofNat 32 (lag + 1) ↔ pins.pinDelay.toNat ≤ lag := by
    rw [BitVec.lt_def, BitVec.toNat_ofNat, Nat.mod_eq_of_lt hlt, Nat.lt_succ_iff]
  have hpinlt := pins.pinDelay.isLt
  by_cases hpin : pins.pinDelay.toNat ≤ lag
  · rw [if_pos (hiff.2 hpin), if_pos hpin, h.inputTs]
    refine BitVec.eq_of_toNat_eq ?_
    simp only [BitVec.toNat_sub, BitVec.toNat_setWidth, BitVec.toNat_ofNat]
    omega
  · rw [if_neg (hpin ∘ hiff.1), if_neg hpin, h.inputTs]
    congr 1
    omega

/-! ### Instances -/

/-- An instance whose ring is not too large to be addressed and whose pins have types. -/
structure Instance (hd : HalDelayline) : Prop where
  nsamples_le : hd.nsamples ≤ maxSamples
  valid : ∀ j < hd.nsamples, halValidType (hd.pintype j) = true
  maxDelay_lt : hd.maxDelay.toNat < 2147483648

lemma pintypeOf_valid {c : Char} {type : HalType} (h : pintypeOf c = some type) :
    halValidType type = true := by
  unfold pintypeOf at h
  split at h <;> first | (cases h; rfl) | cases h

/-- What `export_delayline` sets up. -/
structure Exported (samples : List Char) (maxDelay : BitVec 32) (buf : Mem) (hd : HalDelayline) :
    Prop where
  accepted : ∀ c ∈ samples, ∃ type, pintypeOf c = some type ∧ halValidType type = true
  ring : hd.ring = .fresh (ringBytes samples.length maxDelay) buf
  nsamples : hd.nsamples = samples.length
  pintype : hd.pintype = fun i => (samples[i]?.bind pintypeOf).getD .halTypeUnspecified
  maxDelay : hd.maxDelay = maxDelay
  writeFail : hd.writeFail = 0
  clock : Clock hd 0 0

lemma exported {samples : List Char} {maxDelay : BitVec 32} {buf : Mem}
    (h : exportDelayline samples maxDelay buf = some hd) : Exported samples maxDelay buf hd := by
  rw [exportDelayline] at h
  split_ifs at h with hcount
  cases h
  refine ⟨fun c hc => ?_, rfl, rfl, rfl, rfl, rfl, rfl, rfl⟩
  rw [returnInstanceSamples] at hcount
  split_ifs at hcount with hall
  · obtain ⟨type, htype⟩ := Option.isSome_iff_exists.1 (List.all_eq_true.1 hall c hc)
    exact ⟨type, htype, pintypeOf_valid htype⟩
  · exact absurd (by decide) hcount

lemma Exported.isInstance {samples : List Char} {maxDelay : BitVec 32} {buf : Mem}
    (h : Exported samples maxDelay buf hd) (hn : samples.length ≤ maxSamples)
    (hmax : maxDelay.toNat < 2147483648) : Instance hd := by
  refine ⟨by rw [h.nsamples]; exact hn, fun j hj => ?_, by rw [h.maxDelay]; exact hmax⟩
  rw [h.nsamples] at hj
  obtain ⟨type, htype, hvalid⟩ := h.accepted _ (List.getElem_mem hj)
  rw [h.pintype]
  simp only [List.getElem?_eq_getElem hj, Option.bind_some, htype, Option.getD_some]
  exact hvalid

lemma ringBytes_mod (n : ℕ) (maxDelay : BitVec 32) : ringBytes n maxDelay % 64 = 0 := by
  have hlt : ∀ x, sizeAligned x < 4294967296 := fun x => wrap32_lt _
  rw [ringBytes, ringStorageAlloc, if_neg (by decide), cacheAlign, rtapiCacheline,
    alignUp_sixtyFour (hlt _)]
  split_ifs <;> omega

lemma Exported.queue {samples : List Char} {maxDelay : BitVec 32} {buf : Mem}
    (h : Exported samples maxDelay buf hd) (hpos : 0 < ringBytes samples.length maxDelay)
    (hlt : ringBytes samples.length maxDelay < 2147483648) :
    Uniform hd.sampleSize hd.ring [] := by
  rw [h.ring]
  exact .fresh (ringBytes_mod _ _) hpos hlt

lemma Instance.of_same (h : Instance hd₀) (hs : SameLine hd₀ hd) : Instance hd :=
  ⟨by rw [hs.nsamples]; exact h.nsamples_le, by rw [hs.nsamples, hs.pintype]; exact h.valid,
    by rw [hs.maxDelay]; exact h.maxDelay_lt⟩

/-! ### A period -/

/-- A period with `sample` in front of `output`. -/
structure PeriodOf (hd : HalDelayline) (pr : Period) (live new live' : List Rec)
    (hd₁ hd' : HalDelayline) : Prop where
  sampled : SampleOf hd pr.sample live new hd₁
  output : OutputOf hd₁ pr.output live' hd'
  flushed : live' = live ++ new ∨ live' = [] ∧ pr.output.abort = true

/-- Such a period comes to an end. -/
lemma period_sampleFirst (pr : Period) (hi : Instance hd)
    (hq : Uniform hd.sampleSize hd.ring live) :
    ∃ new live' hd₁ hd', hd.period .sampleFirst pr = some hd' ∧
      PeriodOf hd pr live new live' hd₁ hd' := by
  obtain ⟨new, hs⟩ := writeSampleToRing_queue pr.sample hq hi.nsamples_le hi.valid
  have hqueue := hs.queue
  rw [← hs.same.sampleSize] at hqueue
  obtain ⟨live', hd', hread, hout, hflush⟩ := readSampleFromRing_queue pr.output
    hqueue (by rw [hs.same.nsamples]; exact hi.nsamples_le)
  exact ⟨new, live', _, hd', hread, hs, hout, hflush⟩

namespace PeriodOf

variable {new live' : List Rec} {hd₁ : HalDelayline}

lemma same (h : PeriodOf hd pr live new live' hd₁ hd') : SameLine hd hd' :=
  h.sampled.same.trans h.output.same

lemma queue (h : PeriodOf hd pr live new live' hd₁ hd') (hc : Clock hd n lag) :
    Uniform hd.sampleSize hd'.ring (live'.dropWhile (due (BitVec.ofNat 64 n))) := by
  have hqueue := h.output.queue
  rw [h.sampled.same.sampleSize, h.sampled.outputTs, hc.outputTs] at hqueue
  exact hqueue

/-- The timestamps after a period. -/
lemma clock (h : PeriodOf hd pr live new live' hd₁ hd') (hi : Instance hd) (hc : Clock hd n lag)
    (hlag : lag ≤ hd.maxDelay.toNat) :
    Clock hd' (n + 1) (outputLag pr.output.pinDelay.toNat
      (sampleLag hd.maxDelay.toNat pr.sample.pinDelay.toNat lag)) := by
  have hmax := hi.maxDelay_lt
  have hle := sampleLag_le hlag pr.sample.pinDelay.toNat
  have hone : ∀ x : ℕ, BitVec.ofNat 64 x + 1 = BitVec.ofNat 64 (x + 1) := fun x =>
    (BitVec.ofNat_add x 1).symm
  have hclock₁ : Clock hd₁ n (sampleLag hd.maxDelay.toNat pr.sample.pinDelay.toNat lag + 1) := by
    refine ⟨h.sampled.outputTs.trans hc.outputTs, ?_⟩
    rw [h.sampled.inputTs, hc.increase pr.sample (by omega), hone, Nat.add_assoc]
  refine ⟨?_, ?_⟩
  · rw [h.output.outputTs, h.sampled.outputTs, hc.outputTs, hone]
  · rw [h.output.inputTs, hclock₁.decrease pr.output (by omega)]

end PeriodOf

/-! ### The records in the queue -/

/-- The records of a line that are stamped `e` periods ahead, of which those before `output` took
away are left. -/
structure Ahead (hd₀ : HalDelayline) (e n : ℕ) (hd : HalDelayline) (live : List Rec) : Prop where
  same : SameLine hd₀ hd
  queue : Uniform hd₀.sampleSize hd.ring live
  stamps : Labelled (fun p rec => stamp rec = BitVec.ofNat 64 (p + e)) (n - e) live n
  writeFail : hd.writeFail = 0

lemma Ahead.step {e : ℕ} (h : Ahead hd₀ e n hd live) (pr : Period) (hi : Instance hd₀)
    (hc : Clock hd n lag)
    (hlag : lag ≤ hd₀.maxDelay.toNat)
    (he : sampleLag hd₀.maxDelay.toNat pr.sample.pinDelay.toNat lag = e)
    (hroom : e + 2 ≤ hd₀.ring.size / recordUsage hd₀.sampleSize) :
    ∃ hd' live', hd.period .sampleFirst pr = some hd' ∧ Ahead hd₀ e (n + 1) hd' live' ∧
      Clock hd' (n + 1) (outputLag pr.output.pinDelay.toNat e) := by
  have hsize := h.same.sampleSize
  have hqueue := h.queue
  rw [← hsize] at hqueue
  have hinst := hi.of_same h.same
  obtain ⟨new, live', hd₁, hd', hperiod, hp⟩ := period_sampleFirst pr hinst hqueue
  have hmax := h.same.maxDelay
  have hlag' : lag ≤ hd.maxDelay.toNat := by rw [hmax]; exact hlag
  have hclock := hp.clock hinst hc hlag'
  rw [hmax, he] at hclock
  have hmaxlt := hi.maxDelay_lt
  have hinput := hc.increase pr.sample (by omega)
  rw [hmax, he] at hinput
  have hcount := h.stamps.length_le
  -- the new record, if there is one, has its place, and nothing failed
  have hsampled : Labelled (fun p rec => stamp rec = BitVec.ofNat 64 (p + e)) (n - e)
      (live ++ new) (n + 1) ∧ hd'.writeFail = 0 := by
    rw [hp.output.writeFail]
    cases hp.sampled.outcome with
    | stored _ hkept hstamp _ =>
      exact ⟨h.stamps.snoc (hstamp.trans hinput), hkept.trans h.writeFail⟩
    | disabled _ hkept =>
      rw [List.append_nil]
      exact ⟨h.stamps.mono le_rfl (Nat.le_succ n), hkept.trans h.writeFail⟩
    | failed _ hfull _ =>
      obtain ⟨s, hok⟩ := hqueue.recordWriteBegin (sampleSize_lt hinst.nsamples_le)
        (by rw [hsize, h.same.size]; omega)
      exact absurd hok (hfull s)
  refine ⟨hd', live'.dropWhile (due (BitVec.ofNat 64 n)), hperiod,
    ⟨h.same.trans hp.same, ?_, ?_, hsampled.2⟩, hclock⟩
  · have hleft := hp.queue hc
    rw [hsize] at hleft
    exact hleft
  · rcases hp.flushed with hlive | ⟨hlive, -⟩
    · rw [hlive]
      rcases Nat.lt_or_ge n e with hlt | hge
      · exact (hsampled.1.dropWhile _).mono (by omega) le_rfl
      · -- the record of the period `n - e` is the oldest one
        have hfirst := hsampled.1.dropWhile_first (f := due (BitVec.ofNat 64 n)) (by omega)
          fun rec hstamp => by
            rw [due, hstamp, Nat.sub_add_cancel hge]
            exact decide_eq_true (BitVec.le_refl _)
        exact hfirst.mono (by omega) le_rfl
    · rw [hlive]
      exact .nil (by omega)

/-- **Capacity.** In a line all of whose samples are stamped `e` periods ahead no write fails if
the ring has two slots more. -/
lemma capacity {e : ℕ} {h : ℕ → Period} (hi : Instance hd₀)
    (hqueue : Uniform hd₀.sampleSize hd₀.ring []) (hc : Clock hd₀ 0 0) (hfail : hd₀.writeFail = 0)
    (hroom : e + 2 ≤ hd₀.ring.size / recordUsage hd₀.sampleSize)
    (he : ∀ n, sampleLag hd₀.maxDelay.toNat (h n).sample.pinDelay.toNat
      (lagAt hd₀.maxDelay.toNat h n) = e) (n : ℕ) :
    ∃ hd live, after .sampleFirst hd₀ h n = some hd ∧ Ahead hd₀ e n hd live ∧
      Clock hd n (lagAt hd₀.maxDelay.toNat h n) := by
  induction n with
  | zero =>
    exact ⟨hd₀, [], rfl, ⟨.refl hd₀, hqueue, .nil (by omega), hfail⟩, hc⟩
  | succ n ih =>
    obtain ⟨hd, live, hafter, hahead, hclock⟩ := ih
    obtain ⟨hd', live', hperiod, hahead', hclock'⟩ :=
      hahead.step (h n) hi hclock (lagAt_le _ h n) (he n) hroom
    refine ⟨hd', live', ?_, hahead', ?_⟩
    · rw [after, hafter]
      exact hperiod
    · rw [lagAt, he n]
      exact hclock'

/-! ### With `output` in front of `sample` -/

/-- The records in the queue when `output` runs first: a sample is stamped with the period it was
taken in, which is too old in the next period. -/
structure Behind (hd₀ : HalDelayline) (n : ℕ) (hd : HalDelayline) (live : List Rec) : Prop where
  same : SameLine hd₀ hd
  queue : Uniform hd₀.sampleSize hd.ring live
  stamps : Labelled (fun p rec => stamp rec = BitVec.ofNat 64 p) (n - 1) live n
  writeFail : hd.writeFail = 0
  clock : Clock hd n 0

/-- `output` empties the queue. -/
lemma Behind.dropWhile_eq_nil (h : Behind hd₀ n hd live) (hlt : n < 18446744073709551616) :
    live.dropWhile (due (BitVec.ofNat 64 n)) = [] := by
  rcases Nat.eq_zero_or_pos n with rfl | hpos
  · have hcount := h.stamps.length_le
    have hnil : live = [] := List.length_eq_zero_iff.1 (by omega)
    rw [hnil, List.dropWhile_nil]
  · have hleft := h.stamps.dropWhile_first (f := due (BitVec.ofNat 64 n)) (by omega)
      fun rec hstamp => by
        rw [due, hstamp]
        refine decide_eq_true (BitVec.le_def.2 ?_)
        rw [BitVec.toNat_ofNat, BitVec.toNat_ofNat]
        omega
    have hcount := hleft.length_le
    exact List.length_eq_zero_iff.1 (by omega)

/-- One period keeps them, while the output timestamp does not wrap. -/
lemma Behind.step (h : Behind hd₀ n hd live) (pr : Period) (hi : Instance hd₀)
    (hroom : 2 ≤ hd₀.ring.size / recordUsage hd₀.sampleSize)
    (hlt : n < 18446744073709551616) :
    ∃ hd' live', hd.period .outputFirst pr = some hd' ∧ Behind hd₀ (n + 1) hd' live' := by
  have hsize := h.same.sampleSize
  have hqueue := h.queue
  rw [← hsize] at hqueue
  have hinst := hi.of_same h.same
  obtain ⟨live', hd₁, hread, hout, hflush⟩ :=
    readSampleFromRing_queue pr.output hqueue hinst.nsamples_le
  have hempty : live'.dropWhile (due hd.outputTs) = [] := by
    rw [h.clock.outputTs]
    rcases hflush with hl | ⟨hl, -⟩
    · rw [hl, h.dropWhile_eq_nil hlt]
    · rw [hl, List.dropWhile_nil]
  have hqueue₁ := hout.queue
  rw [hempty, ← hout.same.sampleSize] at hqueue₁
  have hinst₁ := hinst.of_same hout.same
  obtain ⟨new, hs⟩ :=
    writeSampleToRing_queue pr.sample hqueue₁ hinst₁.nsamples_le hinst₁.valid
  have hone : ∀ x : ℕ, BitVec.ofNat 64 x + 1 = BitVec.ofNat 64 (x + 1) := fun x =>
    (BitVec.ofNat_add x 1).symm
  -- no delay is less than the lag 0, nor greater than the lag -1
  have hin₁ : hd₁.inputTs = BitVec.ofNat 64 n := by
    rw [hout.inputTs, decrease, h.clock.lag_eq, if_neg BitVec.not_lt_zero, h.clock.inputTs,
      Nat.add_zero]
  have hout₁ : hd₁.outputTs = BitVec.ofNat 64 (n + 1) := by
    rw [hout.outputTs, h.clock.outputTs, hone]
  have hlag₁ : hd₁.lag = BitVec.allOnes 32 := by
    rw [HalDelayline.lag, hin₁, hout₁]
    refine BitVec.eq_of_toNat_eq ?_
    simp only [BitVec.toNat_setWidth, BitVec.toNat_sub, BitVec.toNat_ofNat, BitVec.toNat_allOnes]
    omega
  have hsame₁ : hd₁.increase pr.sample = hd₁ := by
    have hpin := pr.sample.pinDelay.isLt
    have hno : ¬ BitVec.allOnes 32 < pr.sample.pinDelay := by
      rw [BitVec.lt_def, BitVec.toNat_allOnes]
      omega
    rw [increase, hlag₁, if_neg hno]
  have hclock : Clock (hd₁.writeSampleToRing pr.sample) (n + 1) 0 := by
    refine ⟨hs.outputTs.trans hout₁, ?_⟩
    rw [hs.inputTs, hsame₁, hin₁, hone, Nat.add_zero]
  have hsize₁ := hout.same.sampleSize.trans hsize
  have hnew : Labelled (fun p rec => stamp rec = BitVec.ofNat 64 p) n new (n + 1) ∧
      (hd₁.writeSampleToRing pr.sample).writeFail = 0 := by
    have hnone : hd₁.writeFail = 0 := hout.writeFail.trans h.writeFail
    cases hs.outcome with
    | stored _ hkept hstamp _ =>
      rw [hsame₁, hin₁] at hstamp
      exact ⟨.cons le_rfl hstamp (.nil le_rfl), hkept.trans hnone⟩
    | disabled _ hkept => exact ⟨.nil (Nat.le_succ n), hkept.trans hnone⟩
    | failed _ hfull _ =>
      obtain ⟨s, hok⟩ := hqueue₁.recordWriteBegin (sampleSize_lt hinst₁.nsamples_le)
        (by rw [hsize₁, hout.same.size, h.same.size]; exact hroom)
      exact absurd hok (hfull s)
  refine ⟨_, new, ?_, (h.same.trans hout.same).trans hs.same, ?_, hnew.1, hnew.2, hclock⟩
  · rw [period, hread]
    rfl
  · have hq := hs.queue
    rw [hsize₁, List.nil_append] at hq
    exact hq

/-- **Capacity** with `output` in front: two slots are enough. -/
lemma capacity_outputFirst {h : ℕ → Period} (hi : Instance hd₀)
    (hqueue : Uniform hd₀.sampleSize hd₀.ring []) (hc : Clock hd₀ 0 0) (hfail : hd₀.writeFail = 0)
    (hroom : 2 ≤ hd₀.ring.size / recordUsage hd₀.sampleSize) :
    ∀ n ≤ 18446744073709551616, ∃ hd live, after .outputFirst hd₀ h n = some hd ∧
      Behind hd₀ n hd live := by
  intro n hn
  induction n with
  | zero => exact ⟨hd₀, [], rfl, .refl hd₀, hqueue, .nil le_rfl, hfail, hc⟩
  | succ n ih =>
    obtain ⟨hd, live, hafter, hbehind⟩ := ih (by omega)
    obtain ⟨hd', live', hperiod, hbehind'⟩ := hbehind.step (h n) hi hroom hn
    refine ⟨hd', live', ?_, hbehind'⟩
    rw [after, hafter]
    exact hperiod

end HalDelayline

/-! ### The sizing -/

open HalDelayline

/-- The records that fit behind each other in the ring of an instance. -/
def ringSlots (n : ℕ) (maxDelay : BitVec 32) : ℕ :=
  ringBytes n maxDelay / recordUsage (sampleSize n)

/-- When the ring is large enough for a constant delay: with `sample` in front it needs two slots
more than the delay; with `output` in front two, until the timestamps wrap. -/
def HasRoom (order : Order) (slots delay periods : ℕ) : Prop :=
  match order with
  | .sampleFirst => delay + 2 ≤ slots
  | .outputFirst => 2 ≤ slots ∧ periods ≤ 18446744073709551616

/-- **Capacity of a delay line.** With a constant delay no write fails in any number of periods, if
the ring of the instance has the slots. -/
theorem write_fail_zero {order : Order} {samples : List Char} {maxDelay delay : BitVec 32}
    {buf : Mem} {hd₀ : HalDelayline} {h : ℕ → Period} {n : ℕ}
    (hnew : exportDelayline samples maxDelay buf = some hd₀) (hn : samples.length ≤ maxSamples)
    (hmax : maxDelay.toNat < 2147483648) (hdelay : delay ≤ maxDelay)
    (hconst : ∀ m, (h m).sample.pinDelay = delay ∧ (h m).output.pinDelay = delay)
    (hlt : ringBytes samples.length maxDelay < 2147483648)
    (hroom : HasRoom order (ringSlots samples.length maxDelay) delay.toNat n) :
    ∃ hd, hd₀.after order h n = some hd ∧ hd.writeFail = 0 := by
  have hE := exported hnew
  have hi := hE.isInstance hn hmax
  have hslots : hd₀.ring.size / recordUsage hd₀.sampleSize = ringSlots samples.length maxDelay := by
    rw [ringSlots, hE.ring, HalDelayline.sampleSize, hE.nsamples]
    rfl
  have hpos : 0 < ringBytes samples.length maxDelay := by
    refine Nat.pos_of_ne_zero fun hzero => ?_
    rw [ringSlots, hzero, Nat.zero_div] at hroom
    cases order with
    | sampleFirst => exact absurd hroom (by rw [HasRoom]; omega)
    | outputFirst => exact absurd hroom.1 (by decide)
  have hqueue := hE.queue hpos hlt
  cases order with
  | sampleFirst =>
      have hlag : ∀ m, lagAt hd₀.maxDelay.toNat h m = 0 := by
        intro m
        induction m with
        | zero => rfl
        | succ m ih =>
            rw [lagAt, ih, (hconst m).1, (hconst m).2, hE.maxDelay, sampleLag, outputLag]
            have hle := BitVec.le_def.1 hdelay
            split_ifs <;> omega
      obtain ⟨hd, live, hafter, hahead, -⟩ :=
        capacity (h := h) (e := delay.toNat) hi hqueue hE.clock
        hE.writeFail (by rw [hslots]; exact hroom) (fun m => by
          rw [hlag, (hconst m).1, hE.maxDelay, sampleLag]
          have hle := BitVec.le_def.1 hdelay
          split_ifs <;> omega) n
      exact ⟨hd, hafter, hahead.writeFail⟩
  | outputFirst =>
      obtain ⟨hd, live, hafter, hbehind⟩ := capacity_outputFirst (h := h) hi hqueue hE.clock
        hE.writeFail (by rw [hslots]; exact hroom.1) n hroom.2
      exact ⟨hd, hafter, hbehind.writeFail⟩

/-- The pins with a delay of `d` periods, enabled. -/
def delayed (d : BitVec 32) : Period :=
  let pins : Pins := { enable := true, abort := false, pinDelay := d, pinsIn := fun _ => 0 }
  { sample := pins, output := pins }

/-- A delay of 1000 periods fails no write. -/
theorem write_fail_zero_thousand : ∃ hd₀ hd,
    exportDelayline ['f', 'b'] 1000 (fun _ => 0) = some hd₀ ∧
      hd₀.after .sampleFirst (fun _ => delayed 1000) 5000 = some hd ∧ hd.writeFail = 0 := by
  obtain ⟨hd₀, hnew⟩ : ∃ hd₀, exportDelayline ['f', 'b'] 1000 (fun _ => 0) = some hd₀ := ⟨_, rfl⟩
  have hroom : (1000 : BitVec 32).toNat + 2 ≤ ringSlots 2 1000 := by decide
  obtain ⟨hd, hafter, hfail⟩ := @write_fail_zero .sampleFirst _ _ 1000 _ _
    (fun _ => delayed 1000) 5000 hnew (by decide) (by decide) (by decide) (fun _ => ⟨rfl, rfl⟩)
    (by decide) hroom
  exact ⟨hd₀, hd, hnew, hafter, hfail⟩

/-- For `max_delay` 1 and one pin the ring has two slots; the third sample finds no room. -/
theorem write_fail_counts :
    ¬ ∀ (order : Order) (samples : List Char) (maxDelay delay : BitVec 32) (buf : Mem)
      (hd₀ : HalDelayline) (h : ℕ → Period) (n : ℕ),
      exportDelayline samples maxDelay buf = some hd₀ → samples.length ≤ maxSamples →
      1 ≤ maxDelay.toNat → maxDelay.toNat < 2147483648 → delay ≤ maxDelay →
      (∀ m, (h m).sample.pinDelay = delay ∧ (h m).output.pinDelay = delay) →
      ∃ hd, hd₀.after order h n = some hd ∧ hd.writeFail = 0 := by
  intro hall
  obtain ⟨hd₀, hnew⟩ : ∃ hd₀, exportDelayline ['f'] 1 (fun _ => 0) = some hd₀ := ⟨_, rfl⟩
  obtain ⟨hd, hafter, hfail⟩ := hall .sampleFirst ['f'] 1 1 (fun _ => 0) hd₀ (fun _ => delayed 1) 3
    hnew (by decide) (by decide) (by decide) (by decide) fun _ => ⟨rfl, rfl⟩
  have hrun : ((exportDelayline ['f'] 1 (fun _ => 0)).bind fun hd₀ =>
      hd₀.after .sampleFirst (fun _ => delayed 1) 3).map HalDelayline.writeFail = some 1 := by
    decide
  rw [hnew, Option.bind_some, hafter, Option.map_some, hfail] at hrun
  exact absurd hrun (by decide)

end MachinekitHal.Delayline
