import Mathlib.Data.List.TakeWhile
import MachinekitHal.Components.DelaylineCapacity

/-!
What a delay line puts out.

* `steadyLag`: the lag that a constant delay pin leads to. `sampleLag_steady`: it is reached after
  `max_delay` periods.
* `Consecutive`: the records of all periods are in the queue, from the first one that `output` has
  not taken; a record is taken when its timestamp is reached, or wraps.
* `outputs_lag`: after twice `max_delay` periods the outputs are the inputs of `steadyLag` periods
  before.
* `outputs_delayed`: the delay line law. `outputs_late`: a delay of 0 may leave a lag.
-/

namespace MachinekitHal.Delayline

open Bytes Word

/-! ### The lag of a constant delay -/

/-- The lag under a constant delay `d`, when the lag was `lag` at first. -/
def steadyLag (d lag : ℕ) : ℕ := if d = 0 then lag else d

/-- The lag with which the sample of a period is stamped. -/
def stampLag (maxDelay : ℕ) (h : ℕ → Period) (p : ℕ) : ℕ :=
  sampleLag maxDelay (h p).sample.pinDelay.toNat (lagAt maxDelay h p)

lemma stampLag_le (maxDelay : ℕ) (h : ℕ → Period) (p : ℕ) : stampLag maxDelay h p ≤ maxDelay :=
  sampleLag_le (lagAt_le maxDelay h p) _

section Steady

variable {maxDelay d T : ℕ} {h : ℕ → Period}

/-- A positive delay takes the lag away, a period at a time at least. -/
lemma lagAt_decreases (hd : 1 ≤ d) (hle : d ≤ maxDelay)
    (hconst : ∀ m, T ≤ m → (h m).sample.pinDelay.toNat = d ∧ (h m).output.pinDelay.toNat = d)
    (k : ℕ) : lagAt maxDelay h (T + k) ≤ maxDelay - k := by
  induction k with
  | zero => exact lagAt_le maxDelay h T
  | succ k ih =>
    obtain ⟨hs, ho⟩ := hconst (T + k) (Nat.le_add_right T k)
    rw [← Nat.add_assoc, lagAt, hs, ho, sampleLag, outputLag]
    split_ifs <;> omega

/-- A delay of 0 leaves it as it is. -/
lemma lagAt_zero (hconst : ∀ m, T ≤ m → (h m).sample.pinDelay.toNat = 0 ∧
      (h m).output.pinDelay.toNat = 0) (k : ℕ) :
    lagAt maxDelay h (T + k) = lagAt maxDelay h T := by
  induction k with
  | zero => rfl
  | succ k ih =>
    obtain ⟨hs, ho⟩ := hconst (T + k) (Nat.le_add_right T k)
    rw [← Nat.add_assoc, lagAt, hs, ho, sampleLag, outputLag, if_neg (Nat.not_lt_zero _),
      if_pos (Nat.zero_le _), Nat.sub_zero]
    exact ih

/-- The samples are stamped with the steady lag in the end. -/
lemma sampleLag_steady (hle : d ≤ maxDelay)
    (hconst : ∀ m, T ≤ m → (h m).sample.pinDelay.toNat = d ∧ (h m).output.pinDelay.toNat = d)
    {p : ℕ} (hp : T + maxDelay ≤ p) :
    stampLag maxDelay h p = steadyLag d (lagAt maxDelay h T) := by
  obtain ⟨k, rfl⟩ : ∃ k, p = T + k := ⟨p - T, by omega⟩
  rw [stampLag, (hconst (T + k) (Nat.le_add_right T k)).1, steadyLag, sampleLag]
  rcases Nat.eq_zero_or_pos d with rfl | hpos
  · rw [lagAt_zero hconst, if_neg (Nat.not_lt_zero _), if_pos rfl]
  · have hzero := lagAt_decreases hpos hle hconst k
    rw [if_pos (by omega), if_neg (by omega)]
    exact min_eq_left hle

end Steady

namespace HalDelayline

variable {hd₀ hd hd' : HalDelayline} {pr : Period} {live : List Rec} {n : ℕ} {h : ℕ → Period}

/-! ### What is shown -/

/-- Records with other timestamps do not change the output pins. -/
lemma presentAll_others (hd : HalDelayline) {recs : List Rec}
    (hne : ∀ rec ∈ recs, stamp rec ≠ hd.outputTs) :
    (hd.presentAll recs).pinsOut = hd.pinsOut := by
  induction recs generalizing hd with
  | nil => rfl
  | cons rec rest ih =>
    have hfirst : hd.presentRec rec = { hd with tooOld := hd.tooOld + 1 } := by
      rw [presentRec, if_neg (hne rec (.head _))]
    rw [presentAll, List.foldl_cons, hfirst]
    exact ih { hd with tooOld := hd.tooOld + 1 } fun rec' hmem =>
      hne rec' (.tail _ hmem)

/-- The last record with the output timestamp is shown. -/
lemma presentAll_shows (hd : HalDelayline) {pre post : List Rec} {rec : Rec}
    (hnow : stamp rec = hd.outputTs) (hpost : ∀ rec' ∈ post, stamp rec' ≠ hd.outputTs) {j : ℕ}
    (hj : j < hd.nsamples) (hvalid : halValidType (hd.pintype j) = true) :
    typedValue (hd.pintype j) ((hd.presentAll (pre ++ rec :: post)).pinsOut j)
      = typedValue (hd.pintype j) (sampleValue rec j) := by
  obtain ⟨hd₁, hhd₁⟩ : ∃ hd₁, hd₁ = hd.presentAll pre := ⟨_, rfl⟩
  have heq := presentAll_eq hd pre
  rw [← hhd₁] at heq
  have hout : hd₁.outputTs = hd.outputTs := by rw [heq]
  have htype : hd₁.pintype = hd.pintype := by rw [heq]
  have hcount : hd₁.nsamples = hd.nsamples := by rw [heq]
  have hall : hd.presentAll (pre ++ rec :: post)
      = presentAll { hd₁ with pinsOut := hd₁.assignPins (sampleValue rec) } post := by
    have hstep : hd₁.presentRec rec = { hd₁ with pinsOut := hd₁.assignPins (sampleValue rec) } := by
      rw [presentRec, hout, if_pos hnow]
    rw [presentAll, List.foldl_append, List.foldl_cons]
    show presentAll ((hd.presentAll pre).presentRec rec) post = _
    rw [← hhd₁, hstep]
  rw [hall, presentAll_others _ (fun rec' hmem => by
    show stamp rec' ≠ hd₁.outputTs
    rw [hout]
    exact hpost rec' hmem)]
  show typedValue (hd.pintype j) (hd₁.assignPins (sampleValue rec) j) = _
  rw [assignPins, hcount, if_pos hj, htype, typedValue_assignValue hvalid]

/-! ### The queue -/

/-- The first period whose timestamp has the high bits of that of the `n`-th period. -/
def epoch (n : ℕ) : ℕ := n / 18446744073709551616 * 18446744073709551616

/-- The record of a period. -/
def RecordOf (hd₀ : HalDelayline) (h : ℕ → Period) (p : ℕ) (rec : Rec) : Prop :=
  stamp rec = BitVec.ofNat 64 (p + stampLag hd₀.maxDelay.toNat h p) ∧
    hd₀.Holds (h p).sample rec

/-- The records of the periods from `first` on are in the queue. -/
structure Consecutive (hd₀ : HalDelayline) (h : ℕ → Period) (n : ℕ) (hd : HalDelayline)
    (live : List Rec) (first : ℕ) : Prop where
  same : SameLine hd₀ hd
  queue : Uniform hd₀.sampleSize hd.ring live
  clock : Clock hd n (lagAt hd₀.maxDelay.toNat h n)
  records : Labelled (RecordOf hd₀ h) first live n
  full : first + live.length = n
  epoch_le : epoch n ≤ first
  taken : ∀ p, epoch n ≤ p → p < first → p + stampLag hd₀.maxDelay.toNat h p < n ∨
    epoch n + 18446744073709551616 ≤ p + stampLag hd₀.maxDelay.toNat h p

/-- When the timestamp of a period of this epoch is due. -/
lemma due_iff {p e : ℕ} {rec : Rec} (hstamp : stamp rec = BitVec.ofNat 64 (p + e))
    (hp : epoch n ≤ p) (hlt : p + e < epoch n + 18446744073709551616) :
    due (BitVec.ofNat 64 n) rec = true ↔ p + e ≤ n := by
  rw [epoch] at hp hlt
  rw [due, hstamp, decide_eq_true_iff, BitVec.le_def, BitVec.toNat_ofNat, BitVec.toNat_ofNat]
  omega

/-- The period stored its sample. -/
structure StoredBy (hd₀ : HalDelayline) (h : ℕ → Period) (n : ℕ) (hd : HalDelayline)
    (live : List Rec) (first : ℕ) (rec : Rec) (hd₁ hd' : HalDelayline) : Prop where
  period : hd.period .sampleFirst (h n) = some hd'
  of : PeriodOf hd (h n) live [rec] (live ++ [rec]) hd₁ hd'
  record : RecordOf hd₀ h n rec

/-- A period in which the sample is stored. -/
lemma Consecutive.stored {first : ℕ} (hc : Consecutive hd₀ h n hd live first) (hi : Instance hd₀)
    (henable : (h n).sample.enable = true) (habort : (h n).output.abort = false)
    (hfail : ∀ hd', hd.period .sampleFirst (h n) = some hd' → hd'.writeFail = hd.writeFail) :
    ∃ rec hd₁ hd', StoredBy hd₀ h n hd live first rec hd₁ hd' := by
  have hinst := hi.of_same hc.same
  have hqueue := hc.queue
  rw [← hc.same.sampleSize] at hqueue
  obtain ⟨new, live', hd₁, hd', hperiod, hp⟩ := period_sampleFirst (h n) hinst hqueue
  have hkept := hfail hd' hperiod
  have hlive' : live' = live ++ new := by
    rcases hp.flushed with hl | ⟨-, hab⟩
    · exact hl
    · rw [habort] at hab
      cases hab
  have hmax := hi.maxDelay_lt
  have hlag := lagAt_le hd₀.maxDelay.toNat h n
  have hinput := hc.clock.increase (h n).sample (by omega)
  rw [hc.same.maxDelay] at hinput
  subst hlive'
  have houtcome := hp.sampled.outcome
  rw [hp.output.writeFail] at hkept
  cases houtcome with
  | @stored rec _ _ hstamp hholds =>
    refine ⟨rec, hd₁, hd', hperiod, hp, hstamp.trans hinput, fun j hj => ?_⟩
    have hvalue := hholds j (by rw [hc.same.nsamples]; exact hj)
    rw [hc.same.pintype] at hvalue
    exact hvalue
  | disabled hdis _ =>
    rw [henable] at hdis
    cases hdis
  | failed _ _ hcount =>
    rw [hcount] at hkept
    exact absurd hkept (by
      intro he
      have htoNat := congrArg BitVec.toNat he
      rw [BitVec.toNat_add] at htoNat
      have hlt := hd.writeFail.isLt
      have hone : (1 : BitVec 32).toNat = 1 := rfl
      omega)

/-- One period keeps the queue consecutive. -/
lemma Consecutive.step {first : ℕ} {rec : Rec} {hd₁ : HalDelayline}
    (hc : Consecutive hd₀ h n hd live first) (hi : Instance hd₀)
    (hs : StoredBy hd₀ h n hd live first rec hd₁ hd') :
    ∃ live' first', Consecutive hd₀ h (n + 1) hd' live' first' := by
  have hinst := hi.of_same hc.same
  have hmax := hc.same.maxDelay
  have hclock := hs.of.clock hinst hc.clock (by rw [hmax]; exact lagAt_le _ h n)
  rw [hmax] at hclock
  have hqueue := hs.of.queue hc.clock
  rw [hc.same.sampleSize] at hqueue
  have hrecords : Labelled (RecordOf hd₀ h) first (live ++ [rec]) (n + 1) :=
    hc.records.snoc hs.record
  have hfull : first + (live ++ [rec]).length = n + 1 := by
    rw [List.length_append, List.length_singleton, ← Nat.add_assoc, hc.full]
  obtain ⟨first', hle, hleft, hfull', htaken⟩ :=
    hrecords.dropWhile_full hfull (due (BitVec.ofNat 64 n))
  have hepoch := hc.epoch_le
  refine ⟨_, first', hc.same.trans hs.of.same, hqueue, hclock, hleft, hfull', ?_, ?_⟩
  · by_cases hend : epoch (n + 1) = epoch n
    · omega
    · -- the last timestamp before the wrap takes all records
      have hall : (live ++ [rec]).dropWhile (due (BitVec.ofNat 64 n)) = [] := by
        rw [List.dropWhile_eq_nil_iff]
        intro x _
        have hlt := (stamp x).isLt
        rw [due, decide_eq_true_iff, BitVec.le_def, BitVec.toNat_ofNat]
        rw [epoch, epoch] at hend
        omega
      rw [hall, List.length_nil] at hfull'
      rw [epoch]
      omega
  · intro p hp hlt
    have hsame : epoch (n + 1) = epoch n ∨ epoch (n + 1) = n + 1 := by
      rw [epoch, epoch]
      omega
    rcases hsame with he | he
    · rw [he] at hp ⊢
      rcases Nat.lt_or_ge p first with hold | hnew
      · have htake := hc.taken p hp hold
        omega
      · obtain ⟨x, ⟨hstamp, -⟩, hdue⟩ := htaken p hnew hlt
        rcases Nat.lt_or_ge (p + stampLag hd₀.maxDelay.toNat h p)
          (epoch n + 18446744073709551616) with hin | hwrap
        · have hle := (due_iff hstamp hp hin).1 hdue
          exact .inl (by omega)
        · exact .inr hwrap
    · have hcount := hleft.length_le
      omega

/-- **What is shown.** A sample that was stamped `e` periods ahead is shown after `e` periods, if
the samples before it are not stamped later and those behind it with other timestamps. -/
lemma Consecutive.shows {first e : ℕ} {rec : Rec} {hd₁ : HalDelayline}
    (hc : Consecutive hd₀ h n hd live first) (hi : Instance hd₀)
    (hs : StoredBy hd₀ h n hd live first rec hd₁ hd') (he : e ≤ n % 18446744073709551616)
    (hnow : stampLag hd₀.maxDelay.toNat h (n - e) = e)
    (hbefore : ∀ p < n - e, p + stampLag hd₀.maxDelay.toNat h p ≤ n)
    (hbehind : ∀ p, n - e < p → p ≤ n → stampLag hd₀.maxDelay.toNat h p = e)
    {j : ℕ} (hj : j < hd₀.nsamples) :
    typedValue (hd₀.pintype j) (hd'.pinsOut j)
      = typedValue (hd₀.pintype j) ((h (n - e)).sample.pinsIn j) := by
  have hen : epoch n + e ≤ n := by
    rw [epoch]
    omega
  have hlt : n < epoch n + 18446744073709551616 := by
    rw [epoch]
    omega
  have hrecords : Labelled (RecordOf hd₀ h) first (live ++ [rec]) (n + 1) :=
    hc.records.snoc hs.record
  have hfull : first + (live ++ [rec]).length = n + 1 := by
    rw [List.length_append, List.length_singleton, ← Nat.add_assoc, hc.full]
  have hfirst : first ≤ n - e := by
    by_contra hlate
    have htake := hc.taken (n - e) (by omega) (by omega)
    rw [hnow] at htake
    omega
  have hepoch := hc.epoch_le
  obtain ⟨pre, x, post, hsplit, hpre, ⟨hstamp, hholds⟩, hpost⟩ :=
    hrecords.split hfull hfirst (by omega)
  rw [hnow] at hstamp
  have hdue : due (BitVec.ofNat 64 n) x = true :=
    (due_iff hstamp (by omega) (by omega)).2 (by omega)
  have hdues : ∀ y ∈ pre, due (BitVec.ofNat 64 n) y = true := fun y hy => by
    obtain ⟨p, hp, hpn, hstamp', -⟩ := hpre.exists_label hy
    have hle := hbefore p hpn
    exact (due_iff hstamp' (by omega) (by omega)).2 hle
  have hothers : ∀ y ∈ post.takeWhile (due (BitVec.ofNat 64 n)), stamp y ≠ BitVec.ofNat 64 n :=
    fun y hy hsame => by
      obtain ⟨p, hp, hpn, hstamp', -⟩ := hpost.exists_label ((List.takeWhile_sublist _).subset hy)
      rw [hsame, hbehind p (by omega) (by omega)] at hstamp'
      have htoNat := congrArg BitVec.toNat hstamp'
      rw [BitVec.toNat_ofNat, BitVec.toNat_ofNat] at htoNat
      omega
  have htake : (live ++ [rec]).takeWhile (due (BitVec.ofNat 64 n))
      = pre ++ x :: post.takeWhile (due (BitVec.ofNat 64 n)) := by
    rw [hsplit, List.takeWhile_append_of_pos hdues, List.takeWhile_cons_of_pos hdue]
  have hsame₁ := hc.same.trans hs.of.sampled.same
  have hout₁ : hd₁.outputTs = BitVec.ofNat 64 n :=
    hs.of.sampled.outputTs.trans hc.clock.outputTs
  have hnowEq : BitVec.ofNat 64 (n - e + e) = BitVec.ofNat 64 n := by
    rw [Nat.sub_add_cancel (by omega)]
  have hshown := @presentAll_shows hd₁ pre (post.takeWhile (due (BitVec.ofNat 64 n))) x
    (hstamp.trans (hnowEq.trans hout₁.symm)) (by rw [hout₁]; exact hothers) j
    (by rw [hsame₁.nsamples]; exact hj)
    (by rw [hsame₁.pintype]; exact hi.valid j hj)
  rw [hsame₁.pintype] at hshown
  rw [hs.of.output.pinsOut, hout₁, htake, hshown]
  exact hholds j hj

/-! ### Runs -/

/-- What the law asks of the history of a line: enabled, not aborted, and no write failed. -/
structure Undisturbed (hd₀ : HalDelayline) (h : ℕ → Period) : Prop where
  enable : ∀ m, (h m).sample.enable = true
  abort : ∀ m, (h m).output.abort = false
  write : ∀ m hd, hd₀.after .sampleFirst h m = some hd → hd.writeFail = 0

lemma Undisturbed.kept (hu : Undisturbed hd₀ h) (hafter : hd₀.after .sampleFirst h n = some hd)
    (hd' : HalDelayline) (hperiod : hd.period .sampleFirst (h n) = some hd') :
    hd'.writeFail = hd.writeFail := by
  have hnext : hd₀.after .sampleFirst h (n + 1) = some hd' := by
    rw [after, hafter]
    exact hperiod
  rw [hu.write n hd hafter, hu.write (n + 1) hd' hnext]

/-- A line whose ring has no storage fails at once. -/
lemma Undisturbed.size_pos (hu : Undisturbed hd₀ h) (hi : Instance hd₀)
    (hring : ∃ size buf, hd₀.ring = .fresh size buf) : 0 < hd₀.ring.size := by
  refine Nat.pos_of_ne_zero fun hzero => ?_
  obtain ⟨size, buf, hfresh⟩ := hring
  have hsize : size = 0 := by rw [hfresh] at hzero; exact hzero
  rw [hsize] at hfresh
  have ha := recordUsage_pos (sampleSize_lt hi.nsamples_le)
  have hno : ∀ s, hd₀.ring.recordWriteBegin hd₀.sampleSize ≠ .ok s := fun s hok => by
    rw [RecordRing.recordWriteBegin, if_pos (by rw [hzero]; exact ha)] at hok
    cases hok
  obtain ⟨hkept, hcount⟩ := @writeSampleToRing_kept hd₀ (h 0).sample fun _ => hno
  rw [hu.enable 0, if_pos rfl] at hcount
  have hread : ∀ hd : HalDelayline, hd.ring = .fresh 0 buf →
      readRecords (hd.ring.size + 1) hd = some hd := fun hd hr => by
    rw [readRecords, hr]
    rfl
  obtain ⟨hd₁, hhd₁⟩ : ∃ hd₁, hd₁ = (hd₀.writeSampleToRing (h 0).sample).decrease (h 0).output :=
    ⟨_, rfl⟩
  have heq := decrease_eq (hd₀.writeSampleToRing (h 0).sample) (h 0).output
  rw [← hhd₁] at heq
  have hring₁ : hd₁.ring = .fresh 0 buf := by rw [heq, hkept, hfresh]
  have hfail₁ : hd₁.writeFail = hd₀.writeFail + 1 := by rw [heq, hcount]
  have hsize₁ : (hd₀.writeSampleToRing (h 0).sample).ring.size = hd₁.ring.size := by
    rw [hkept, hring₁, hfresh]
  have hone : ∃ hd, hd₀.after .sampleFirst h 1 = some hd ∧ hd.writeFail = hd₀.writeFail + 1 := by
    refine ⟨{ hd₁ with outputTs := hd₁.outputTs + 1, lastAbort := (h 0).output.abort }, ?_, hfail₁⟩
    rw [after, after, Option.bind_some, period, readSampleFromRing, flushOnAbort, hu.abort 0,
      Bool.false_and, if_neg Bool.false_ne_true, Option.bind_some, hsize₁, ← hhd₁,
      hread hd₁ hring₁]
    rfl
  obtain ⟨hd, hafter, hfailed⟩ := hone
  rw [hu.write 1 hd hafter, hu.write 0 hd₀ rfl] at hfailed
  exact absurd hfailed (by decide)

/-- In an undisturbed run the queue is consecutive before every period. -/
lemma consecutive (hi : Instance hd₀) (hu : Undisturbed hd₀ h)
    (hqueue : Uniform hd₀.sampleSize hd₀.ring []) (hc : Clock hd₀ 0 0) (n : ℕ) :
    ∃ hd live first, hd₀.after .sampleFirst h n = some hd ∧
      Consecutive hd₀ h n hd live first := by
  induction n with
  | zero =>
    exact ⟨hd₀, [], 0, rfl, .refl hd₀, hqueue, hc, .nil le_rfl, rfl, le_rfl,
      fun p _ hp => absurd hp (Nat.not_lt_zero p)⟩
  | succ n ih =>
    obtain ⟨hd, live, first, hafter, hcons⟩ := ih
    obtain ⟨rec, hd₁, hd', hs⟩ :=
      hcons.stored hi (hu.enable n) (hu.abort n) (hu.kept hafter)
    obtain ⟨live', first', hcons'⟩ := hcons.step hi hs
    refine ⟨hd', live', first', ?_, hcons'⟩
    rw [after, hafter]
    exact hs.period

/-- **The lag of the outputs.** Once the delay has been constant for twice `max_delay` periods, the
outputs are the inputs of `steadyLag` periods before, in every period in whose last `steadyLag`
periods the output timestamp has not wrapped. -/
lemma outputs_lag (hi : Instance hd₀) (hu : Undisturbed hd₀ h)
    (hqueue : Uniform hd₀.sampleSize hd₀.ring []) (hc : Clock hd₀ 0 0) {d T e : ℕ}
    (hle : d ≤ hd₀.maxDelay.toNat)
    (hconst : ∀ m, T ≤ m → (h m).sample.pinDelay.toNat = d ∧ (h m).output.pinDelay.toNat = d)
    (he : e = steadyLag d (lagAt hd₀.maxDelay.toNat h T)) (hn : T + 2 * hd₀.maxDelay.toNat ≤ n)
    (hwrap : e ≤ n % 18446744073709551616) :
    ∃ hd', hd₀.after .sampleFirst h (n + 1) = some hd' ∧ ∀ j < hd₀.nsamples,
      typedValue (hd₀.pintype j) (hd'.pinsOut j)
        = typedValue (hd₀.pintype j) ((h (n - e)).sample.pinsIn j) := by
  have hemax : e ≤ hd₀.maxDelay.toNat := by
    have hlag := lagAt_le hd₀.maxDelay.toNat h T
    rw [he, steadyLag]
    split_ifs <;> omega
  have hsteady : ∀ p, T + hd₀.maxDelay.toNat ≤ p → stampLag hd₀.maxDelay.toNat h p = e :=
    fun p hp => (sampleLag_steady hle hconst hp).trans he.symm
  obtain ⟨hd, live, first, hafter, hcons⟩ := consecutive hi hu hqueue hc n
  obtain ⟨rec, hd₁, hd', hs⟩ := hcons.stored hi (hu.enable n) (hu.abort n) (hu.kept hafter)
  have hnext : hd₀.after .sampleFirst h (n + 1) = some hd' := by
    rw [after, hafter]
    exact hs.period
  refine ⟨hd', hnext, fun j hj => hcons.shows hi hs hwrap (hsteady _ (by omega)) ?_
    (fun p hp _ => hsteady p (by omega)) hj⟩
  intro p hp
  rcases Nat.lt_or_ge p (T + hd₀.maxDelay.toNat) with hlt | hge
  · have hstamp := stampLag_le hd₀.maxDelay.toNat h p
    omega
  · rw [hsteady p hge]
    omega

end HalDelayline

open HalDelayline

/-- **The delay line law.** Once the delay has been constant for twice `max_delay` periods, the
outputs are the inputs sampled that many periods before, if the delay is positive or there was no
lag when it became 0, and the output timestamp has not wrapped since. -/
theorem outputs_delayed {samples : List Char} {maxDelay delay : BitVec 32} {buf : Mem}
    {hd₀ : HalDelayline} {h : ℕ → Period} {T n : ℕ}
    (hnew : exportDelayline samples maxDelay buf = some hd₀) (hn : samples.length ≤ maxSamples)
    (hmax : maxDelay.toNat < 2147483648) (hring : ringBytes samples.length maxDelay < 2147483648)
    (hu : Undisturbed hd₀ h) (hdelay : delay ≤ maxDelay)
    (hconst : ∀ m, T ≤ m → (h m).sample.pinDelay = delay ∧ (h m).output.pinDelay = delay)
    (hbound : T + 2 * maxDelay.toNat ≤ n)
    (hlag : delay = 0 → ∀ hd, hd₀.after .sampleFirst h T = some hd → hd.inputTs = hd.outputTs)
    (hwrap : delay.toNat ≤ n % 18446744073709551616) :
    ∃ hd', hd₀.after .sampleFirst h (n + 1) = some hd' ∧ ∀ j < samples.length,
      typedValue (hd₀.pintype j) (hd'.pinsOut j)
        = typedValue (hd₀.pintype j) ((h (n - delay.toNat)).sample.pinsIn j) := by
  have hE := exported hnew
  have hi := hE.isInstance hn hmax
  have hpos : 0 < ringBytes samples.length maxDelay := by
    have hsize := hu.size_pos hi ⟨_, _, hE.ring⟩
    rw [hE.ring] at hsize
    exact hsize
  have hqueue := hE.queue hpos hring
  have hsteady : delay.toNat = steadyLag delay.toNat (lagAt hd₀.maxDelay.toNat h T) := by
    rw [steadyLag]
    split_ifs with hzero
    · obtain ⟨hd, live, first, hafter, hcons⟩ := consecutive hi hu hqueue hE.clock T
      have heq := hlag (BitVec.toNat_inj.1 hzero) hd hafter
      rw [hcons.clock.inputTs, hcons.clock.outputTs] at heq
      have hle := lagAt_le hd₀.maxDelay.toNat h T
      rw [hE.maxDelay] at hle heq ⊢
      have htoNat := congrArg BitVec.toNat heq
      rw [BitVec.toNat_ofNat, BitVec.toNat_ofNat] at htoNat
      omega
    · rfl
  obtain ⟨hd', hafter, hvalues⟩ := outputs_lag (d := delay.toNat) hi hu hqueue hE.clock
    (by rw [hE.maxDelay]; exact BitVec.le_def.1 hdelay)
    (fun m hm => ⟨congrArg BitVec.toNat (hconst m hm).1, congrArg BitVec.toNat (hconst m hm).2⟩)
    hsteady (by rw [hE.maxDelay]; exact hbound) hwrap
  rw [hE.nsamples] at hvalues
  exact ⟨hd', hafter, hvalues⟩

/-- A period with a delay of `d` periods and the value `v` at the input pins. -/
def sampledAt (d : BitVec 32) (v : ℕ) : Period :=
  let pins : Pins :=
    { enable := true, abort := false, pinDelay := d, pinsIn := fun _ => BitVec.ofNat 64 v }
  { sample := pins, output := pins }

/-- With a delay of 2 the output lags by that much. -/
theorem outputs_delayed_two : ∃ hd₀ hd',
    exportDelayline ['f', 'u'] 10 (fun _ => 0) = some hd₀ ∧
      hd₀.after .sampleFirst (fun m => sampledAt 2 m) 31 = some hd' ∧ hd'.pinsOut 0 = 28 := by
  obtain ⟨hd₀, hnew⟩ : ∃ hd₀, exportDelayline ['f', 'u'] 10 (fun _ => 0) = some hd₀ := ⟨_, rfl⟩
  have hE := exported hnew
  have hi := hE.isInstance (by decide) (by decide)
  have hroom : (2 : BitVec 32).toNat + 2 ≤ hd₀.ring.size / recordUsage hd₀.sampleSize := by
    rw [hE.ring, HalDelayline.sampleSize, hE.nsamples]
    decide
  have hzero : ∀ m, lagAt hd₀.maxDelay.toNat (fun m => sampledAt 2 m) m = 0 := by
    intro m
    rw [hE.maxDelay]
    induction m with
    | zero => rfl
    | succ m ih => rw [lagAt, ih]; rfl
  have hu : Undisturbed hd₀ fun m => sampledAt 2 m :=
    ⟨fun _ => rfl, fun _ => rfl, fun m hd hafter => by
      obtain ⟨hd', live, hafter', hahead, -⟩ := capacity (e := 2) hi
        (hE.queue (by decide) (by decide)) hE.clock hE.writeFail hroom
        (fun m => by rw [hzero m, hE.maxDelay]; rfl) m
      rw [hafter] at hafter'
      rw [Option.some.inj hafter']
      exact hahead.writeFail⟩
  obtain ⟨hd', hafter, hvalues⟩ := @outputs_delayed _ _ 2 _ _ _ 0 30 hnew (by decide) (by decide)
    (by decide) hu (by decide) (fun _ _ => ⟨rfl, rfl⟩) (by decide)
    (fun hd => absurd hd (by decide)) (by decide)
  have hout := hvalues 0 (by decide)
  rw [hE.pintype] at hout
  exact ⟨hd₀, hd', hnew, hafter, hout⟩

/-- A delay of 4 periods, of which `max_delay` allows 3, and then none: the lag of 3 periods stays
for ever. -/
theorem outputs_late :
    ¬ ∃ bound : ℕ → ℕ, ∀ (samples : List Char) (maxDelay delay : BitVec 32) (buf : Mem)
      (hd₀ : HalDelayline) (h : ℕ → Period) (T n : ℕ),
      exportDelayline samples maxDelay buf = some hd₀ → samples.length ≤ maxSamples →
      maxDelay.toNat < 2147483648 → ringBytes samples.length maxDelay < 2147483648 →
      Undisturbed hd₀ h → delay ≤ maxDelay →
      (∀ m, T ≤ m → (h m).sample.pinDelay = delay ∧ (h m).output.pinDelay = delay) →
      T + bound maxDelay.toNat ≤ n →
      ∃ hd', hd₀.after .sampleFirst h (n + 1) = some hd' ∧ ∀ j < samples.length,
        typedValue (hd₀.pintype j) (hd'.pinsOut j)
          = typedValue (hd₀.pintype j) ((h (n - delay.toNat)).sample.pinsIn j) := by
  rintro ⟨bound, hall⟩
  obtain ⟨hd₀, hnew⟩ : ∃ hd₀, exportDelayline ['f'] 3 (fun _ => 0) = some hd₀ := ⟨_, rfl⟩
  obtain ⟨n, hn⟩ : ∃ n, n = 18446744073709551616 * (bound 3 + 1) + 3 := ⟨_, rfl⟩
  -- the input is 1 in the period `n` only
  obtain ⟨h, hh⟩ : ∃ h : ℕ → Period, h = fun m =>
      sampledAt (if m = 0 then 4 else 0) (if m = n then 1 else 0) := ⟨_, rfl⟩
  have hE := exported hnew
  have hi := hE.isInstance (by decide) (by decide)
  have hqueue := hE.queue (by decide) (by decide)
  have hlag : ∀ m, lagAt 3 h (m + 1) = 3 := by
    intro m
    induction m with
    | zero => rw [hh]; rfl
    | succ m ih => rw [lagAt, ih, hh]; rfl
  have hsample : ∀ m, sampleLag hd₀.maxDelay.toNat (h m).sample.pinDelay.toNat
      (lagAt hd₀.maxDelay.toNat h m) = 3 := by
    intro m
    rw [hE.maxDelay]
    cases m with
    | zero => rw [hh]; rfl
    | succ m =>
        show sampleLag 3 (h (m + 1)).sample.pinDelay.toNat (lagAt 3 h (m + 1)) = 3
        rw [hlag, hh]
        rfl
  have hroom : 3 + 2 ≤ hd₀.ring.size / recordUsage hd₀.sampleSize := by
    rw [hE.ring, HalDelayline.sampleSize, hE.nsamples]
    decide
  have hu : Undisturbed hd₀ h := by
    refine ⟨fun m => by rw [hh]; rfl, fun m => by rw [hh]; rfl, fun m hd hafter => ?_⟩
    obtain ⟨hd', live, hafter', hahead, -⟩ :=
      capacity hi hqueue hE.clock hE.writeFail hroom hsample m
    rw [hafter] at hafter'
    rw [Option.some.inj hafter']
    exact hahead.writeFail
  have hpins : ∀ m, 1 ≤ m → (h m).sample.pinDelay = 0 ∧ (h m).output.pinDelay = 0 := by
    intro m hm
    have hne : m ≠ 0 := by omega
    rw [hh]
    simp only [sampledAt, if_neg hne, and_self]
  obtain ⟨hd', hafter, hlaw⟩ := hall ['f'] 3 0 (fun _ => 0) hd₀ h 1 n hnew (by decide) (by decide)
    (by decide) hu (by decide) hpins (by show 1 + bound 3 ≤ n; omega)
  obtain ⟨hd'', hafter', hlate⟩ := @outputs_lag hd₀ n h hi hu hqueue hE.clock 0 1 3 (Nat.zero_le _)
    (fun m hm => ⟨by rw [(hpins m hm).1]; rfl, by rw [(hpins m hm).2]; rfl⟩)
    (by rw [hE.maxDelay]; exact (hlag 0).symm) (by rw [hE.maxDelay]; show 1 + 2 * 3 ≤ n; omega)
    (by omega)
  rw [hafter] at hafter'
  cases hafter'
  have hnow := hlaw 0 (by decide)
  have hthen := hlate 0 (by rw [hE.nsamples]; decide)
  rw [hnow, hE.pintype, hh] at hthen
  have hne : n - 3 ≠ n := by omega
  have hvalue : BitVec.ofNat 64 (if n - 0 = n then 1 else 0)
      = BitVec.ofNat 64 (if n - 3 = n then 1 else 0) := hthen
  rw [if_pos (Nat.sub_zero n), if_neg hne] at hvalue
  exact absurd hvalue (by decide)

end MachinekitHal.Delayline
