import MachinekitHal.Hostmot2.Encoder
import MachinekitHal.Lib.Runs
import MachinekitHal.Lib.WrappedCounter

/-!
The counts of the hostmot2 encoders.

* `regDiff_ofInt`: the difference of the registers is that of the true counts.
* `readControlRegister_frame`: what the control registers do not change.
* `EncoderSys`: the module with the true counts, and the true count that is zero for each instance.
* `settled`: the reads at which the position is published after the zero has moved.
* `TrackAt`: the invariant. `encoder_tracks`: the raw counts track the true count in every run, and
  the counts are relative to the right zero in runs of such reads.
-/

namespace MachinekitHal.Hm2Encoder

open Runs

variable {D : Doubles} {m : Module D} {e : Instance D} {hw : TramRead} {i j : ℕ}

/-! ### Registers -/

/-- A move by less than 32768 counts is seen in the register. -/
lemma regDiff_ofInt {t t' : ℤ} (hmove : |t' - t| < 32768) :
    regDiff (BitVec.ofInt 16 t') (BitVec.ofInt 16 t) = t' - t := by
  have hmod : ∀ x : ℤ, ((BitVec.ofInt 16 x).toNat : ℤ) = x % 65536 := by
    intro x
    rw [BitVec.toNat_ofInt]
    omega
  rw [abs_lt] at hmove
  rw [regDiff, hmod, hmod]
  split_ifs <;> omega

lemma hasBit_doFlag (reg : BitVec 32) (c : Bool) {bits : BitVec 32} (hbits : bits ≠ 0) :
    hasBit (doFlag reg c bits) bits = c := by
  have hset : (reg ||| bits) &&& bits = bits := by
    ext k hk
    simp only [BitVec.getElem_and, BitVec.getElem_or]
    cases reg[k] <;> cases bits[k] <;> rfl
  have hclear : (reg &&& ~~~bits) &&& bits = 0#32 := by
    ext k hk
    simp only [BitVec.getElem_and, BitVec.getElem_not, BitVec.getElem_zero]
    cases reg[k] <;> cases bits[k] <;> rfl
  cases c with
  | false => rw [doFlag, if_neg Bool.false_ne_true, hasBit, hclear, decide_eq_false_iff_not]; simp
  | true => rw [doFlag, if_pos rfl, hasBit, hset]; simpa using hbits

/-- It leaves the others alone. -/
lemma hasBit_doFlag_of_ne (reg : BitVec 32) (c : Bool) {bits other : BitVec 32}
    (hne : bits &&& other = 0#32) : hasBit (doFlag reg c bits) other = hasBit reg other := by
  have hbit : ∀ (k : ℕ) (hk : k < 32), (bits[k] && other[k]) = false := by
    intro k hk
    rw [← BitVec.getElem_and, hne, BitVec.getElem_zero]
  have hkeeps : doFlag reg c bits &&& other = reg &&& other := by
    rw [doFlag]
    ext k hk
    have hk' := hbit k hk
    split_ifs
    · simp only [BitVec.getElem_and, BitVec.getElem_or]
      cases hb : bits[k] <;> cases ho : other[k] <;> simp_all
    · simp only [BitVec.getElem_and, BitVec.getElem_not]
      cases hb : bits[k] <;> cases ho : other[k] <;> simp_all
  rw [hasBit, hasBit, hkeeps]

lemma hasBit_or {reg bits other : BitVec 32} (h : hasBit reg bits = true) :
    hasBit reg (bits ||| other) = true := by
  rw [hasBit, decide_eq_true_iff] at h ⊢
  intro hzero
  refine h (BitVec.eq_of_getElem_eq fun k hk => ?_)
  show (reg &&& bits)[k] = (0#32)[k]
  have hbit : (reg &&& (bits ||| other))[k] = (0#32)[k] := by rw [hzero]; rfl
  simp only [BitVec.getElem_and, BitVec.getElem_or, BitVec.getElem_zero] at hbit ⊢
  cases hr : reg[k] <;> cases hb : bits[k] <;> simp_all

/-- The index is looked for if it is enabled. -/
lemma hasBit_controlReg (p : Pins D) : hasBit (controlReg p) latchOnIndex = p.indexEnable := by
  simp (disch := decide) only [controlReg, hasBit_doFlag_of_ne, hasBit_doFlag]

/-- The fields that the counts come from. -/
structure Same (e e' : Instance D) : Prop where
  rawcounts : e'.pin.rawcounts = e.pin.rawcounts
  count : e'.pin.count = e.pin.count
  reset : e'.pin.reset = e.pin.reset
  indexEnable : e'.pin.indexEnable = e.pin.indexEnable
  zeroOffset : e'.zeroOffset = e.zeroOffset
  prevRegCount : e'.prevRegCount = e.prevRegCount
  state : e'.state = e.state
  time : ∀ (seconds : D.Float) (hw : TramRead), timedOut seconds hw e' = timedOut seconds hw e

lemma Same.refl (e : Instance D) : Same e e := ⟨rfl, rfl, rfl, rfl, rfl, rfl, rfl, fun _ _ => rfl⟩

lemma Same.trans {e e' e'' : Instance D} (h : Same e e') (h' : Same e' e'') : Same e e'' where
  rawcounts := h'.rawcounts.trans h.rawcounts
  count := h'.count.trans h.count
  reset := h'.reset.trans h.reset
  indexEnable := h'.indexEnable.trans h.indexEnable
  zeroOffset := h'.zeroOffset.trans h.zeroOffset
  prevRegCount := h'.prevRegCount.trans h.prevRegCount
  state := h'.state.trans h.state
  time seconds hw := (h'.time seconds hw).trans (h.time seconds hw)

/-- A flag that is set behind one that is not, the first one behind `last`. -/
def rises : Bool → List Bool → Bool
  | _, [] => false
  | last, b :: bs => b && !last || rises b bs

/-- The control registers are written when the inputs are read: an instance reports errors, and
the one in front of it, or the last one of the read before, does not. -/
def Module.errorsRise (m : Module D) : Bool :=
  rises m.lastErrorEnable
    ((List.range m.numInstances).map fun i => (m.inst i).pin.quadratureErrorEnable)

/-- What happens to the instances when the inputs are read. `w` says that the control registers
may be written: they then look for the index as the pins say. -/
structure Frame (w : Prop) (m m' : Module D) : Prop where
  numInstances : m'.numInstances = m.numInstances
  seconds : m'.secondsPerTsdivClock = m.secondsPerTsdivClock
  same : ∀ j, Same (m.inst j) (m'.inst j)
  enable : ∀ j, (m'.inst j).pin.quadratureErrorEnable = (m.inst j).pin.quadratureErrorEnable
  control : ∀ j, hasBit (m'.inst j).prevControl latchOnIndex
      = hasBit (m.inst j).prevControl latchOnIndex ∨
    w ∧ hasBit (m'.inst j).prevControl latchOnIndex = (m.inst j).pin.indexEnable

lemma Frame.refl (w : Prop) (m : Module D) : Frame w m m :=
  ⟨rfl, rfl, fun _ => .refl _, fun _ => rfl, fun _ => .inl rfl⟩

lemma Frame.trans {w : Prop} {m m' m'' : Module D} (h : Frame w m m') (h' : Frame w m' m'') :
    Frame w m m'' where
  numInstances := h'.numInstances.trans h.numInstances
  seconds := h'.seconds.trans h.seconds
  same j := (h.same j).trans (h'.same j)
  enable j := (h'.enable j).trans (h.enable j)
  control j := by
    rcases h'.control j with heq | ⟨hw, heq⟩
    · rw [heq]
      exact h.control j
    · exact .inr ⟨hw, heq.trans (h.same j).indexEnable⟩

lemma Frame.set (w : Prop) (m : Module D) (hsame : Same (m.inst i) e)
    (henable : e.pin.quadratureErrorEnable = (m.inst i).pin.quadratureErrorEnable)
    (hcontrol : e.prevControl = (m.inst i).prevControl) : Frame w m (m.set i e) := by
  refine ⟨rfl, rfl, fun j => ?_, fun j => ?_, fun j => ?_⟩
  all_goals
    rw [Module.set]
    dsimp only
    rw [Function.update_apply]
    split_ifs with hj
  · exact hj ▸ hsame
  · exact .refl _
  · rw [henable, hj]
  · rfl
  · rw [hcontrol, hj]
    exact .inl rfl
  · exact .inl rfl

lemma frame_forceWrite {w : Prop} (hw : w) (m : Module D) : Frame w m (forceWrite m) :=
  ⟨rfl, rfl, fun _ => ⟨rfl, rfl, rfl, rfl, rfl, rfl, rfl, fun _ _ => rfl⟩, fun _ => rfl,
    fun _ => .inr ⟨hw, hasBit_controlReg _⟩⟩

lemma frame_checkQuadrature {w : Prop} (hw : TramRead) (m : Module D)
    (hwritten : (m.inst i).pin.quadratureErrorEnable = true → m.lastErrorEnable = false → w) :
    Frame w m (checkQuadrature hw m i) := by
  rw [checkQuadrature]
  split_ifs with henable hlast
  · have hforce := frame_forceWrite (hwritten henable (Bool.not_eq_true' _ ▸ hlast)) m
    exact ⟨hforce.numInstances, hforce.seconds, hforce.same, hforce.enable, hforce.control⟩
  · exact .set w m ⟨rfl, rfl, rfl, rfl, rfl, rfl, rfl, fun _ _ => rfl⟩ rfl rfl
  · have hset : Frame w m (m.set i { m.inst i with pin.quadratureError := false }) :=
      .set w m ⟨rfl, rfl, rfl, rfl, rfl, rfl, rfl, fun _ _ => rfl⟩ rfl rfl
    exact ⟨hset.numInstances, hset.seconds, hset.same, hset.enable, hset.control⟩

/-- Afterwards the flag is that of the instance. -/
lemma checkQuadrature_last (hw : TramRead) (m : Module D) :
    (checkQuadrature hw m i).lastErrorEnable = (m.inst i).pin.quadratureErrorEnable := by
  rw [checkQuadrature]
  split_ifs with henable hlast
  · exact henable.symm
  · rw [Bool.not_eq_true', Bool.not_eq_false] at hlast
    exact hlast.trans henable.symm
  · exact (Bool.eq_false_of_not_eq_true henable).symm

lemma frame_readControls {w : Prop} (hw : TramRead) : ∀ (is : List ℕ) (m : Module D),
    (rises m.lastErrorEnable (is.map fun i => (m.inst i).pin.quadratureErrorEnable) = true → w) →
    Frame w m (is.foldl (fun m i => readInputs hw (checkQuadrature hw m i) i) m)
  | [], m, _ => .refl w m
  | i :: is, m, hwritten => by
      rw [List.map_cons, rises, Bool.or_eq_true, Bool.and_eq_true, Bool.not_eq_true'] at hwritten
      have hcheck := frame_checkQuadrature hw m fun henable hlast =>
        hwritten (.inl ⟨henable, hlast⟩)
      have hread : Frame w (checkQuadrature hw m i) (readInputs hw (checkQuadrature hw m i) i) :=
        .set w _ ⟨rfl, rfl, rfl, rfl, rfl, rfl, rfl, fun _ _ => rfl⟩ rfl rfl
      have hstep := hcheck.trans hread
      have hlast : (readInputs hw (checkQuadrature hw m i) i).lastErrorEnable
          = (m.inst i).pin.quadratureErrorEnable := checkQuadrature_last hw m
      refine hstep.trans (frame_readControls hw is _ fun hrise => hwritten (.inr ?_))
      simpa only [hlast, hstep.enable] using hrise

/-- The inputs leave the counts alone; the control registers are written where the reporting of
errors sets in. -/
lemma readControlRegister_frame (hw : TramRead) (m : Module D) :
    Frame (m.errorsRise = true) m (readControlRegister hw m) :=
  frame_readControls hw _ m id

lemma frame_checkScale (w : Prop) (m : Module D) (i : ℕ) :
    Frame w m (m.set i (checkScale (m.inst i))) := by
  refine .set w m ?_ ?_ ?_
  all_goals
    rw [checkScale]
    split_ifs
  · exact ⟨rfl, rfl, rfl, rfl, rfl, rfl, rfl, fun _ _ => rfl⟩
  · exact .refl _
  all_goals rfl

/-! ### Counts -/

/-- The raw counts and the register of an instance at the true count `t`. -/
structure Counted (base t : ℤ) (e : Instance D) : Prop where
  rawcounts : e.pin.rawcounts = BitVec.ofInt 32 (t + base)
  prevRegCount : e.prevRegCount = BitVec.ofInt 16 t

/-- The zero of an instance is at the true count `zero`, and the count is relative to it. -/
structure Zeroed (base t zero : ℤ) (e : Instance D) : Prop where
  zeroOffset : e.zeroOffset = BitVec.ofInt 32 (zero + base)
  count : e.pin.count = BitVec.ofInt 32 (t - zero)

variable {base t t' zero event : ℤ} {seconds : D.Float}

lemma Counted.same {e' : Instance D} (h : Counted base t e) (hsame : Same e e') :
    Counted base t e' :=
  ⟨hsame.rawcounts.trans h.rawcounts, hsame.prevRegCount.trans h.prevRegCount⟩

lemma Zeroed.same {e' : Instance D} (h : Zeroed base t zero e) (hsame : Same e e') :
    Zeroed base t zero e' :=
  ⟨hsame.zeroOffset.trans h.zeroOffset, hsame.count.trans h.count⟩

lemma ofInt_add_sub (a b c : ℤ) :
    BitVec.ofInt 32 (a + c) + BitVec.ofInt 32 (b - a) = BitVec.ofInt 32 (b + c) := by
  rw [← BitVec.ofInt_add]
  congr 1
  omega

/-- A register that did not change: neither did the count. -/
lemma eq_of_regCount_eq (hmove : |t' - t| < 32768)
    (heq : BitVec.ofInt 16 t' = BitVec.ofInt 16 t) : t' = t := by
  have hdiff := regDiff_ofInt hmove
  have hsame : |t - t| < 32768 := by rw [sub_self, abs_zero]; norm_num
  rw [heq, regDiff_ofInt hsame] at hdiff
  omega

/-- `hm2_encoder_instance_update_rawcounts_and_handle_index`: the raw counts. -/
lemma Counted.handle (h : Counted base t e) (hreg : hw.regCount i = BitVec.ofInt 16 t')
    (hmove : |t' - t| < 32768) : Counted base t' (updateRawcountsAndHandleIndex hw i e) where
  rawcounts := by
    show e.pin.rawcounts + BitVec.ofInt 32 (regDiff (hw.regCount i) e.prevRegCount) = _
    rw [h.rawcounts, hreg, h.prevRegCount, regDiff_ofInt hmove, ofInt_add_sub]
  prevRegCount := hreg

lemma Counted.position (h : Counted base t e) : Counted base t (updatePosition e) :=
  ⟨h.rawcounts, h.prevRegCount⟩

/-- The estimator keeps track of the count in each of its states. -/
lemma Counted.estimate (h : Counted base t e) (hreg : hw.regCount i = BitVec.ofInt 16 t')
    (hmove : |t' - t| < 32768) : Counted base t' (estimate seconds hw i e) := by
  have hmoved : Counted base t' (updatePosition (updateRawcountsAndHandleIndex hw i e)) :=
    (h.handle hreg hmove).position
  have hstays : hw.regCount i = e.prevRegCount → t' = t := fun heq =>
    eq_of_regCount_eq hmove (by rw [← hreg, heq, h.prevRegCount])
  rw [Hm2Encoder.estimate]
  cases e.state with
  | STOPPED =>
    dsimp only
    rw [tramReadStopped]
    split_ifs with hstill
    · rw [hstays hstill.1]
      exact h.position
    · exact ⟨hmoved.rawcounts, hmoved.prevRegCount⟩
  | MOVING =>
    dsimp only
    split_ifs with hstill
    · obtain rfl := hstays hstill
      rw [tramReadStill]
      dsimp only
      split_ifs with hlate hlatch
      · exact ⟨h.rawcounts, h.prevRegCount⟩
      · have hslow : Counted base t' (slowEstimate seconds hw (updatePosition e)) :=
          ⟨h.rawcounts, h.prevRegCount⟩
        have hhandled := hslow.handle hreg hmove
        exact ⟨hhandled.rawcounts, hhandled.prevRegCount⟩
      · exact ⟨h.rawcounts, h.prevRegCount⟩
    · exact ⟨hmoved.rawcounts, hmoved.prevRegCount⟩

/-! ### The zero -/

/-- The zero after `hm2_encoder_instance_update_position`: a reset moves it. -/
def zeroAfter (e : Instance D) (t zero : ℤ) : ℤ := if e.pin.reset then t else zero

/-- `hm2_encoder_instance_update_position` publishes the count relative to the zero. -/
lemma Counted.published (h : Counted base t e)
    (hzero : e.zeroOffset = BitVec.ofInt 32 (zero + base)) :
    Zeroed base t (zeroAfter e t zero) (updatePosition e) := by
  have hoffset : (if e.pin.reset then e.pin.rawcounts else e.zeroOffset)
      = BitVec.ofInt 32 (zeroAfter e t zero + base) := by
    rw [zeroAfter]
    split_ifs
    · exact h.rawcounts
    · exact hzero
  refine ⟨hoffset, ?_⟩
  show e.pin.rawcounts - (if e.pin.reset then e.pin.rawcounts else e.zeroOffset) = _
  rw [hoffset, h.rawcounts, BitVec.sub_eq_iff_eq_add, ← BitVec.ofInt_add]
  congr 1
  omega

/-- Without an index event the zero stays. -/
lemma handle_zeroOffset (hnone : indexEvent hw i e = false) :
    (updateRawcountsAndHandleIndex hw i e).zeroOffset = e.zeroOffset :=
  if_neg (by simp [hnone])

lemma handle_indexEnable (hnone : indexEvent hw i e = false) :
    (updateRawcountsAndHandleIndex hw i e).pin.indexEnable = e.pin.indexEnable :=
  if_neg (by simp [hnone])

/-- At an index event it moves to the count of the event. -/
lemma Counted.latchedZero (h : Counted base t e) (hfound : indexEvent hw i e = true)
    (hlatched : hw.latchedCount i = BitVec.ofInt 16 event) (hmove : |event - t| < 32768) :
    (updateRawcountsAndHandleIndex hw i e).zeroOffset = BitVec.ofInt 32 (event + base) := by
  refine (if_pos hfound).trans ?_
  rw [h.rawcounts, hlatched, h.prevRegCount, regDiff_ofInt hmove, ofInt_add_sub]

/-- The estimator moves, without new counts since the last read. -/
def Still (hw : TramRead) (i : ℕ) (e : Instance D) : Prop :=
  e.state = .MOVING ∧ hw.regCount i = e.prevRegCount

/-- Without an event the estimator publishes the count relative to the same zero. -/
lemma Zeroed.quiet (hc : Counted base t e) (h : Zeroed base t zero e)
    (hreg : hw.regCount i = BitVec.ofInt 16 t') (hmove : |t' - t| < 32768)
    (hnone : indexEvent hw i e = false) :
    Zeroed base t' (zeroAfter e t' zero) (estimate seconds hw i e) ∧
      (estimate seconds hw i e).pin.indexEnable = e.pin.indexEnable := by
  have hmoved : Zeroed base t' (zeroAfter e t' zero)
      (updatePosition (updateRawcountsAndHandleIndex hw i e)) :=
    (hc.handle hreg hmove).published ((handle_zeroOffset hnone).trans h.zeroOffset)
  have henable := handle_indexEnable hnone
  have hstays : hw.regCount i = e.prevRegCount → t' = t := fun heq =>
    eq_of_regCount_eq hmove (by rw [← hreg, heq, hc.prevRegCount])
  have hpublished : Zeroed base t (zeroAfter e t zero) (updatePosition e) :=
    hc.published h.zeroOffset
  rw [Hm2Encoder.estimate]
  cases e.state with
  | STOPPED =>
    dsimp only
    rw [tramReadStopped]
    split_ifs with hstill
    · rw [hstays hstill.1]
      exact ⟨hpublished, rfl⟩
    · exact ⟨⟨hmoved.zeroOffset, hmoved.count⟩, henable⟩
  | MOVING =>
    dsimp only
    split_ifs with hstill
    · obtain rfl := hstays hstill
      rw [tramReadStill]
      dsimp only
      split_ifs with hlate hlatch
      · exact ⟨⟨hpublished.zeroOffset, hpublished.count⟩, rfl⟩
      · have hnone' : indexEvent hw i (slowEstimate seconds hw (updatePosition e)) = false :=
          hnone
        exact ⟨⟨(handle_zeroOffset hnone').trans hpublished.zeroOffset, hpublished.count⟩,
          handle_indexEnable hnone'⟩
      · exact ⟨⟨hpublished.zeroOffset, hpublished.count⟩, rfl⟩
    · exact ⟨⟨hmoved.zeroOffset, hmoved.count⟩, henable⟩

/-- An event that waits for the next read, because the velocity times out. -/
lemma Zeroed.late (hc : Counted base t e) (h : Zeroed base t zero e)
    (hreg : hw.regCount i = BitVec.ofInt 16 t') (hmove : |t' - t| < 32768)
    (hstill : Still hw i e) (hlate : timedOut seconds hw e = true) :
    Zeroed base t' (zeroAfter e t' zero) (estimate seconds hw i e) ∧
      (estimate seconds hw i e).pin.indexEnable = e.pin.indexEnable := by
  obtain rfl : t' = t := eq_of_regCount_eq hmove (by rw [← hreg, hstill.2, hc.prevRegCount])
  have hpublished : Zeroed base t' (zeroAfter e t' zero) (updatePosition e) :=
    hc.published h.zeroOffset
  have hlate' : timedOut seconds hw (updatePosition e) = true := hlate
  rw [Hm2Encoder.estimate, hstill.1]
  dsimp only
  rw [if_pos hstill.2, tramReadStill]
  dsimp only
  rw [if_pos hlate']
  exact ⟨⟨hpublished.zeroOffset, hpublished.count⟩, rfl⟩

/-- An event that is handled: index-enable is cleared, and the count is relative to the event. -/
lemma Counted.found (hc : Counted base t e) (hreg : hw.regCount i = BitVec.ofInt 16 t')
    (hmove : |t' - t| < 32768) (hfound : indexEvent hw i e = true)
    (hlatched : hw.latchedCount i = BitVec.ofInt 16 event) (hevent : |event - t| < 32768)
    (hstill : ¬ Still hw i e) (hreset : e.pin.reset = false) :
    Zeroed base t' event (Hm2Encoder.estimate seconds hw i e) ∧
      (Hm2Encoder.estimate seconds hw i e).pin.indexEnable = false := by
  have hmoved := (hc.handle hreg hmove).published (hc.latchedZero hfound hlatched hevent)
  have hzero : zeroAfter (updateRawcountsAndHandleIndex hw i e) t' event = event :=
    if_neg (by simp [updateRawcountsAndHandleIndex, hreset])
  have hcleared : (updateRawcountsAndHandleIndex hw i e).pin.indexEnable = false := if_pos hfound
  rw [hzero] at hmoved
  have hlatching : latching e = true := by
    rw [indexEvent, Bool.and_eq_true] at hfound
    exact hasBit_or hfound.1
  rw [Hm2Encoder.estimate]
  cases hstate : e.state with
  | STOPPED =>
    dsimp only
    rw [tramReadStopped, if_neg (by simp [hlatching])]
    exact ⟨⟨hmoved.zeroOffset, hmoved.count⟩, hcleared⟩
  | MOVING =>
    dsimp only
    rw [if_neg fun heq => hstill ⟨hstate, heq⟩]
    exact ⟨⟨hmoved.zeroOffset, hmoved.count⟩, hcleared⟩

/-! ### Runs -/

/-- The pins that others set. -/
structure Inputs (D : Doubles) where
  reset : Bool
  indexEnable : Bool
  latchEnable : Bool
  latchPolarity : Bool
  quadratureErrorEnable : Bool
  scale : D.Float
  indexInvert : Bool
  indexMask : Bool
  indexMaskInvert : Bool
  counterMode : Bool
  indexMode : Bool
  filter : Bool
  velTimeout : D.Float

/-- Others set the pins. -/
def setInputs (e : Instance D) (p : Inputs D) : Instance D :=
  { e with pin := { e.pin with
      reset := p.reset, indexEnable := p.indexEnable, latchEnable := p.latchEnable
      latchPolarity := p.latchPolarity, quadratureErrorEnable := p.quadratureErrorEnable
      scale := p.scale, indexInvert := p.indexInvert, indexMask := p.indexMask
      indexMaskInvert := p.indexMaskInvert, counterMode := p.counterMode
      indexMode := p.indexMode, filter := p.filter, velTimeout := p.velTimeout } }

/-- The module, with the true count of each instance at its last read, and the true count that is
its zero: that of the index event at which index-enable was last cleared, or of a reset since. -/
structure EncoderSys (D : Doubles) where
  m : Module D
  count : ℕ → ℤ
  zero : ℕ → ℤ

/-- What the hardware, the driver and others do. -/
inductive Op (D : Doubles) where
  | inputs (i : ℕ) (p : Inputs D)
  | write (other : Bool)
  /-- the muxed encoders keep the same variable -/
  | lastErrorEnable (last : Bool)
  /-- instance `i` is processed after a read at the true count `count`; an index event that is
  reported was at `event` -/
  | read (i : ℕ) (hw : TramRead) (count event : ℤ)

namespace EncoderSys

/-- The registers are those of the true count, which moved by less than 32768 since the last read,
also to the index event. -/
def Consistent (s : EncoderSys D) (i : ℕ) (hw : TramRead) (count event : ℤ) : Prop :=
  i < s.m.numInstances ∧ hw.regCount i = BitVec.ofInt 16 count ∧ |count - s.count i| < 32768 ∧
    (indexEvent hw i (s.m.inst i) = true →
      hw.latchedCount i = BitVec.ofInt 16 event ∧ |event - s.count i| < 32768)
  deriving Decidable

/-- A call of `hm2_encoder_instance_process_tram_read`. -/
def read (s : EncoderSys D) (i : ℕ) (hw : TramRead) (count event : ℤ) : EncoderSys D :=
  let m := instanceProcessTramRead hw s.m i
  let cleared := (s.m.inst i).pin.indexEnable && !(m.inst i).pin.indexEnable
  { m := m
    count := Function.update s.count i count
    zero := Function.update s.zero i
      (if cleared then event else zeroAfter (s.m.inst i) count (s.zero i)) }

/-- One step. -/
def step (s : EncoderSys D) : Op D → Option (EncoderSys D)
  | .inputs i p => some { s with m := s.m.set i (setInputs (s.m.inst i) p) }
  | .write other => some { s with m := Hm2Encoder.write s.m other }
  | .lastErrorEnable last => some { s with m := { s.m with lastErrorEnable := last } }
  | .read i hw count event =>
    if s.Consistent i hw count event then some (s.read i hw count event) else none

/-- After `hm2_encoder_tram_init`, at the true counts `count`. -/
def init (m : Module D) (hw : TramRead) (count : ℕ → ℤ) : EncoderSys D where
  m := { m with inst := fun i => tramInit hw i (m.inst i) }
  count := count
  zero := count

/-- The reads that publish the position with the right zero: the index is not looked for from the
middle of the read on, by a control register that is written there; and an index event is either
left to the next read, because the velocity times out, or it does not meet an estimator that moves
without new counts, nor a reset or the withdrawal of index-enable. -/
def settled (s : EncoderSys D) : Op D → Bool
  | .read i hw _ _ =>
    let e := s.m.inst i
    (!e.pin.indexEnable || hasBit e.prevControl latchOnIndex ||
      !s.m.errorsRise) &&
    (!indexEvent hw i e ||
      if e.state = .MOVING ∧ hw.regCount i = e.prevRegCount then
        timedOut s.m.secondsPerTsdivClock hw e
      else e.pin.indexEnable && !e.pin.reset)
  | _ => true

end EncoderSys

/-- The instances at their true counts, in a run that started at the counts `start`. -/
def AllCounted (start : ℕ → ℤ) (s : EncoderSys D) : Prop :=
  ∀ i, Counted (start i % 65536 - start i) (s.count i) (s.m.inst i)

/-- The instances relative to their zeros. -/
def AllZeroed (start : ℕ → ℤ) (s : EncoderSys D) : Prop :=
  ∀ i, Zeroed (start i % 65536 - start i) (s.count i) (s.zero i) (s.m.inst i)

variable {s s' : EncoderSys D} {start : ℕ → ℤ}

/-- What the instance `i` is when it is estimated. -/
lemma frame_before_estimate (hw : TramRead) (m : Module D) (i : ℕ) :
    Frame (m.errorsRise = true) m (readControlRegister hw (m.set i (checkScale (m.inst i)))) := by
  have hscale := frame_checkScale (m.errorsRise = true) m i
  have hread := readControlRegister_frame hw (m.set i (checkScale (m.inst i)))
  have hsame : (m.set i (checkScale (m.inst i))).errorsRise = m.errorsRise := by
    simp only [Module.errorsRise, hscale.enable]
    rfl
  rw [hsame] at hread
  exact hscale.trans hread

/-- The steps that do not read leave the counts alone. -/
lemma same_of_step {op : Op D} (hstep : s.step op = some s')
    (hop : ∀ i hw count event, op ≠ .read i hw count event) (j : ℕ) :
    s'.count j = s.count j ∧ s'.zero j = s.zero j ∧
      (s'.m.inst j).pin.rawcounts = (s.m.inst j).pin.rawcounts ∧
      (s'.m.inst j).prevRegCount = (s.m.inst j).prevRegCount ∧
      (s'.m.inst j).zeroOffset = (s.m.inst j).zeroOffset ∧
      (s'.m.inst j).pin.count = (s.m.inst j).pin.count := by
  cases op with
  | inputs i p =>
    cases hstep
    refine ⟨rfl, rfl, ?_⟩
    dsimp only [Module.set]
    rw [Function.update_apply]
    split_ifs with hj
    · rw [hj]
      exact ⟨rfl, rfl, rfl, rfl⟩
    · exact ⟨rfl, rfl, rfl, rfl⟩
  | write other =>
    cases hstep
    refine ⟨rfl, rfl, ?_⟩
    dsimp only [write]
    split_ifs <;> exact ⟨rfl, rfl, rfl, rfl⟩
  | lastErrorEnable last =>
    cases hstep
    exact ⟨rfl, rfl, rfl, rfl, rfl, rfl⟩
  | read i hw count event => exact absurd rfl (hop i hw count event)

/-- Every step keeps track of the counts. -/
lemma AllCounted.step {op : Op D} (h : AllCounted start s) (hstep : s.step op = some s') :
    AllCounted start s' := by
  intro j
  by_cases hop : ∃ i hw count event, op = .read i hw count event
  · obtain ⟨i, hw, count, event, rfl⟩ := hop
    rw [EncoderSys.step] at hstep
    split_ifs at hstep with hcons
    cases hstep
    have hframe := frame_before_estimate hw s.m i
    dsimp only [EncoderSys.read, instanceProcessTramRead, Module.set]
    rw [Function.update_apply, Function.update_apply]
    split_ifs with hj
    · subst hj
      exact ((h j).same (hframe.same j)).estimate hcons.2.1 hcons.2.2.1
    · exact (h j).same (hframe.same j)
  · have hop' : ∀ i hw count event, op ≠ .read i hw count event :=
      fun i hw count event heq => hop ⟨i, hw, count, event, heq⟩
    obtain ⟨hcount, -, hraw, hreg, -⟩ := same_of_step hstep hop' j
    exact ⟨hraw.trans (hcount ▸ (h j).rawcounts), hreg.trans (hcount ▸ (h j).prevRegCount)⟩

/-- A settled read of an instance: where the zero goes. -/
lemma Zeroed.settled {i : ℕ} {hw : TramRead} {count event : ℤ}
    (hc : AllCounted start s) (h : AllZeroed start s)
    (hcons : s.Consistent i hw count event)
    (hset : s.settled (.read i hw count event) = true) :
    Zeroed (start i % 65536 - start i) count
      ((s.read i hw count event).zero i) ((s.read i hw count event).m.inst i) := by
  obtain ⟨-, hreg, hmove, hevent⟩ := hcons
  have hframe := frame_before_estimate hw s.m i
  have hsame := hframe.same i
  have hcontrol := hframe.control i
  have hc' := (hc i).same hsame
  have hz' := (h i).same hsame
  have hafter : (instanceProcessTramRead hw s.m i).inst i
      = estimate s.m.secondsPerTsdivClock hw i
        ((readControlRegister hw (s.m.set i (checkScale (s.m.inst i)))).inst i) := by
    rw [← hframe.seconds]
    exact Function.update_self _ _ _
  -- the instance as the estimator meets it
  generalize (readControlRegister hw (s.m.set i (checkScale (s.m.inst i)))).inst i = e
    at hsame hcontrol hc' hz' hafter
  dsimp only [EncoderSys.read]
  rw [Function.update_self]
  generalize (instanceProcessTramRead hw s.m i).inst i = after at hafter
  subst hafter
  have hzeroAfter : zeroAfter e count (s.zero i) = zeroAfter (s.m.inst i) count (s.zero i) := by
    rw [zeroAfter, zeroAfter, hsame.reset]
  -- where index-enable stays, the zero is that of before or of a reset
  have hstays : (Zeroed (start i % 65536 - start i) count (zeroAfter e count (s.zero i))
        (estimate s.m.secondsPerTsdivClock hw i e) ∧
      (estimate s.m.secondsPerTsdivClock hw i e).pin.indexEnable = e.pin.indexEnable) →
      Zeroed (start i % 65536 - start i) count
        (if (s.m.inst i).pin.indexEnable &&
            !(estimate s.m.secondsPerTsdivClock hw i e).pin.indexEnable then event
          else zeroAfter (s.m.inst i) count (s.zero i))
        (estimate s.m.secondsPerTsdivClock hw i e) := by
    rintro ⟨hzeroed, henable⟩
    rw [henable, hsame.indexEnable, Bool.and_not_self, if_neg Bool.false_ne_true, ← hzeroAfter]
    exact hzeroed
  rw [EncoderSys.settled, Bool.and_eq_true] at hset
  obtain ⟨hwritten, hfound⟩ := hset
  cases hindex : indexEvent hw i e with
  | false => exact hstays (hz'.quiet hc' hreg hmove hindex)
  | true =>
    -- the event is one of the hardware
    have hbefore : indexEvent hw i (s.m.inst i) = true := by
      rw [indexEvent, Bool.and_eq_true] at hindex ⊢
      refine ⟨?_, hindex.2⟩
      rcases hcontrol with heq | ⟨hrise, heq⟩
      · rw [← heq]
        exact hindex.1
      · rw [Bool.or_eq_true, Bool.or_eq_true, ← heq, hindex.1, hrise] at hwritten
        rcases hwritten with (hoff | hlooks) | hnone
        · cases hoff
        · exact hlooks
        · cases hnone
    rw [hbefore, Bool.not_true, Bool.false_or] at hfound
    split_ifs at hfound with hstill
    · have hstill' : Still hw i e :=
        ⟨hsame.state.trans hstill.1, hstill.2.trans hsame.prevRegCount.symm⟩
      exact hstays (hz'.late hc' hreg hmove hstill' ((hsame.time _ hw).trans hfound))
    · rw [Bool.and_eq_true, Bool.not_eq_true'] at hfound
      have hstill' : ¬ Still hw i e := fun hst =>
        hstill ⟨hsame.state.symm.trans hst.1, hst.2.trans hsame.prevRegCount⟩
      have hhandled : Zeroed (start i % 65536 - start i) count event
            (estimate s.m.secondsPerTsdivClock hw i e) ∧
          (estimate s.m.secondsPerTsdivClock hw i e).pin.indexEnable = false :=
        hc'.found hreg hmove hindex (hevent hbefore).1 (hevent hbefore).2 hstill'
          (hsame.reset.trans hfound.2)
      obtain ⟨hzeroed, hcleared⟩ := hhandled
      rw [hfound.1, hcleared]
      exact hzeroed

/-- A settled step keeps the counts relative to the zeros. -/
lemma AllZeroed.step {op : Op D} (hc : AllCounted start s) (h : AllZeroed start s)
    (hset : s.settled op = true) (hstep : s.step op = some s') : AllZeroed start s' := by
  intro j
  by_cases hop : ∃ i hw count event, op = .read i hw count event
  · obtain ⟨i, hw, count, event, rfl⟩ := hop
    rw [EncoderSys.step] at hstep
    split_ifs at hstep with hcons
    cases hstep
    by_cases hj : j = i
    · subst hj
      have hread := Zeroed.settled hc h hcons hset
      have hcount : (s.read j hw count event).count j = count := Function.update_self _ _ _
      rw [hcount]
      exact hread
    · have hframe := frame_before_estimate hw s.m i
      have hcount : (s.read i hw count event).count j = s.count j := Function.update_of_ne hj _ _
      have hzero : (s.read i hw count event).zero j = s.zero j := Function.update_of_ne hj _ _
      have hinst : (s.read i hw count event).m.inst j
          = (readControlRegister hw (s.m.set i (checkScale (s.m.inst i)))).inst j :=
        Function.update_of_ne hj _ _
      rw [hcount, hzero, hinst]
      exact (h j).same (hframe.same j)
  · have hop' : ∀ i hw count event, op ≠ .read i hw count event :=
      fun i hw count event heq => hop ⟨i, hw, count, event, heq⟩
    obtain ⟨hcount, hzero, -, -, hoffset, hpin⟩ := same_of_step hstep hop' j
    rw [hcount, hzero]
    exact ⟨hoffset.trans (h j).zeroOffset, hpin.trans (h j).count⟩

lemma counted_init (m : Module D) {hw : TramRead}
    (hreg : ∀ i, hw.regCount i = BitVec.ofInt 16 (start i)) :
    AllCounted start (.init m hw start) := by
  intro i
  refine ⟨?_, hreg i⟩
  show (hw.regCount i).setWidth 32 = BitVec.ofInt 32 (start i + (start i % 65536 - start i))
  rw [hreg, WrappedCounter.setWidth_ofInt (by decide), add_sub_cancel]
  rfl

lemma zeroed_init (m : Module D) {hw : TramRead}
    (hreg : ∀ i, hw.regCount i = BitVec.ofInt 16 (start i)) :
    AllZeroed start (.init m hw start) := by
  intro i
  refine ⟨?_, ?_⟩
  · show (hw.regCount i).setWidth 32 = BitVec.ofInt 32 (start i + (start i % 65536 - start i))
    rw [hreg, WrappedCounter.setWidth_ofInt (by decide), add_sub_cancel]
    rfl
  · show 0 = BitVec.ofInt 32 (start i - start i)
    rw [sub_self]
    rfl

/-- The raw counts track the true counts in every run; and in every run whose reads are settled the
counts are the true counts since the index event at which index-enable was cleared. -/
theorem encoder_tracks (m : Module D) {hw : TramRead} {start : ℕ → ℤ}
    (hreg : ∀ i, hw.regCount i = BitVec.ofInt 16 (start i)) :
    (∀ s, Reach EncoderSys.step (fun _ _ => True) (.init m hw start) s → ∀ i,
      (s.m.inst i).pin.rawcounts = BitVec.ofInt 32 (s.count i - start i + start i % 65536)) ∧
    ∀ s, Reach EncoderSys.step (fun s op => s.settled op = true) (.init m hw start) s → ∀ i,
      (s.m.inst i).pin.count = BitVec.ofInt 32 (s.count i - s.zero i) := by
  constructor
  · intro s hs i
    have hcounted : AllCounted start s :=
      hs.invariant (counted_init m hreg) fun h _ hstep => h.step hstep
    rw [(hcounted i).rawcounts]
    congr 1
    omega
  · intro s hs i
    have hinv := hs.invariant (P := fun s => AllCounted start s ∧ AllZeroed start s)
      ⟨counted_init m hreg, zeroed_init m hreg⟩ fun h hset hstep =>
        ⟨h.1.step hstep, AllZeroed.step h.1 h.2 hset hstep⟩
    exact (hinv.2 i).count

/-! ### An index event -/

/-- Integers where no fraction comes up. -/
def wholeDoubles : Doubles where
  Float := ℤ
  ofInt := id
  mul := (· * ·)
  div := (· / ·)
  fabs x := |x|
  eq x y := x = y
  lt x y := x < y
  le x y := x ≤ y

/-- The inputs of an encoder that is homed to its index. -/
def indexInputs : Inputs wholeDoubles where
  reset := false
  indexEnable := true
  latchEnable := false
  latchPolarity := false
  quadratureErrorEnable := false
  scale := (1 : ℤ)
  indexInvert := false
  indexMask := false
  indexMaskInvert := false
  counterMode := false
  indexMode := false
  filter := false
  velTimeout := (1000 : ℤ)

/-- A module of one encoder. -/
def oneEncoder : Module wholeDoubles where
  numInstances := 1
  inst _ := {
    pin := {
      rawcounts := 0, rawlatch := 0, count := 0, countLatch := 0
      position := (0 : ℤ), positionLatch := (0 : ℤ), velocity := (0 : ℤ)
      reset := false, indexEnable := false, latchEnable := false, latchPolarity := false
      quadratureError := false, quadratureErrorEnable := false
      inputA := false, inputB := false, inputIdx := false, scale := (1 : ℤ)
      indexInvert := false, indexMask := false, indexMaskInvert := false
      counterMode := false, indexMode := false, filter := false, velTimeout := (1000 : ℤ) }
    zeroOffset := 0, prevRegCount := 0, prevDSCounts := 0, prevControl := 0
    prevEventRawcounts := 0, prevEventRegTimestamp := 0, tscNumRollovers := 0
    prevTimeOfInterest := 0, state := .STOPPED }
  lastErrorEnable := false
  secondsPerTsdivClock := (1 : ℤ)

/-- The registers of an encoder at this count; the latch register is `control`. -/
def registers (count control : BitVec 32) : TramRead where
  counterReg _ := count
  readControlReg _ := control
  timestampCountReg := 0

/-- The encoder moves to 5 and then to 8; it passed the index at 6. -/
theorem encoder_tracks_index : ∃ s : EncoderSys wholeDoubles,
    Reach EncoderSys.step (fun s op => s.settled op = true)
      (.init oneEncoder (registers 0 0) fun _ => 0) s ∧
    (s.m.inst 0).pin.indexEnable = false ∧ s.count 0 = 8 ∧ s.zero 0 = 6 ∧
    (s.m.inst 0).pin.rawcounts = 8 ∧ (s.m.inst 0).pin.count = 2 := by
  have hrun : ∃ s, run EncoderSys.step EncoderSys.settled
      (.init oneEncoder (registers 0 0) fun _ => 0)
      [.inputs 0 indexInputs, .write false, .read 0 (registers 5 16) 5 0,
        .read 0 (registers 8 (6 <<< 16)) 8 6] = some s ∧
      (s.m.inst 0).pin.indexEnable = false ∧ s.count 0 = 8 ∧ s.zero 0 = 6 :=
    ⟨_, rfl, rfl, rfl, rfl⟩
  obtain ⟨s, hs, henable, hcount, hzero⟩ := hrun
  have hreach := reach_of_run _ _ hs
  have hreg : ∀ i, (registers 0 0).regCount i = BitVec.ofInt 16 ((fun _ => 0 : ℕ → ℤ) i) :=
    fun _ => rfl
  obtain ⟨hraw, hpin⟩ := encoder_tracks oneEncoder hreg
  refine ⟨s, hreach, henable, hcount, hzero, ?_, ?_⟩
  · rw [hraw s (hreach.mono fun _ => trivial) 0, hcount]
    rfl
  · rw [hpin s hreach 0, hcount, hzero]
    rfl

/-- The encoder moves to 5 and stays there; it passed the index at 3. -/
theorem encoder_tracks_still : ¬ ∀ (D : Doubles) (m : Module D) (hw : TramRead) (start : ℕ → ℤ),
    (∀ i, hw.regCount i = BitVec.ofInt 16 (start i)) → ∀ s,
    Reach EncoderSys.step (fun _ _ => True) (.init m hw start) s → ∀ i,
    (s.m.inst i).pin.count = BitVec.ofInt 32 (s.count i - s.zero i) := by
  intro htracks
  have hrun : ∃ s, run EncoderSys.step (fun _ _ => true)
      (.init oneEncoder (registers 0 0) fun _ => 0)
      [.inputs 0 indexInputs, .write false, .read 0 (registers 5 16) 5 0,
        .read 0 (registers 5 (3 <<< 16)) 5 3] = some s ∧
      s.count 0 = 5 ∧ s.zero 0 = 3 ∧ (s.m.inst 0).pin.count = 5 := ⟨_, rfl, rfl, rfl, rfl⟩
  obtain ⟨s, hs, hcount, hzero, hpin⟩ := hrun
  have hwrong := htracks wholeDoubles oneEncoder (registers 0 0) (fun _ => 0) (fun _ => rfl) s
    ((reach_of_run _ _ hs).mono fun _ => trivial) 0
  rw [hcount, hzero, hpin] at hwrong
  exact absurd hwrong (by decide)

end MachinekitHal.Hm2Encoder
