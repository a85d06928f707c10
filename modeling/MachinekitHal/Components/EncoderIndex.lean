import MachinekitHal.Components.EncoderCount

/-!
The index latch of `encoder.c`, and the results of `capture`.

* `IndexInv`: mask, buffers and index-enable are as the latch has it; `IndexInv.update` and
  `IndexInv.capture` keep this.
* `encoder_counter`: the results after each `capture`, if the steps meet `encFits`.
-/

namespace MachinekitHal

open Runs Word

/-- `capture` handles an index. -/
def Stage.handling : Stage → Bool
  | .clearIndex | .readIndex | .clearEna => true
  | _ => false

def CapturePc.handling : CapturePc → Bool
  | .work _ stage => stage.handling
  | _ => false

/-- `capture` has an index count that it has not copied. -/
def CapturePc.holds (pc : CapturePc) (b : Bool) : Prop :=
  pc = .work b .clearIndex ∨ pc = .work b .readIndex

/-- `capture` is not at an access to the index. -/
def CapturePc.plain : CapturePc → Bool
  | .work _ .testIndex | .work _ .clearIndex | .work _ .readIndex | .work _ .clearEna
  | .work _ (.writeZmask _) => false
  | _ => true

lemma CapturePc.plain_iff {pc : CapturePc} (h : pc.plain = true) :
    (∀ b, pc ≠ .work b .testIndex ∧ pc ≠ .work b .clearIndex ∧ ¬ pc.holds b ∧
      ∀ e, pc ≠ .work b (.writeZmask e)) ∧ pc.handling = false := by
  refine ⟨fun b => ⟨?_, ?_, ?_, fun e => ?_⟩, ?_⟩
  · rintro rfl
    cases h
  · rintro rfl
    cases h
  · rintro (rfl | rfl) <;> cases h
  · rintro rfl
    cases h
  · cases pc with
    | work b stage => cases stage <;> first | rfl | cases h
    | _ => rfl

namespace EncSys

variable {s s' : EncSys} {i : EncInput} {buf : Bool} {stage : Stage}

/-- What holds for the index latch. -/
structure IndexInv (s : EncSys) : Prop where
  zmask : s.zmask = if s.spec.mode = .armed then 3 else 0
  oldZ : s.oldZ < 4 ∧ (s.oldZ % 2 = 1 ↔ s.spec.prevZ = true)
  /-- an edge is in the buffer in use, or `capture` is about to look for it -/
  latched : ∀ b v, s.spec.mode = .latched b v → (s.buf b).indexDetected = true ∧
    (s.buf b).indexCount = v ∧ (s.pc = .work b .testIndex ∨ (s.pc.window = false ∧ b = s.bp))
  detected : ∀ b, (s.buf b).indexDetected = true →
    (∃ v, s.spec.mode = .latched b v) ∨ s.pc = .work b .clearIndex
  idle : s.pc.handling = true → s.spec.mode = .idle
  held : ∀ b, s.pc.holds b → (s.buf b).indexCount = s.spec.count
  count : (∀ b, ¬ s.pc.holds b) → s.indexCount = s.spec.count
  ena : s.spec.mode ≠ .idle → s.indexEna = true
  seen : ∀ b e, s.pc = .work b (.writeZmask e) →
    (s.spec.mode = .armed → e = true) ∧ (e = true → s.indexEna = true)
  clears : s.spec.clears = s.cleared + if s.pc.handling then 1 else 0

lemma IndexInv.indexEdge_iff (h : IndexInv s) (z : Bool) : s.indexEdge z ↔
    z = true ∧ s.spec.prevZ = false ∧ s.spec.mode = .armed := by
  obtain ⟨hlt, hprev⟩ := h.oldZ
  have hbit : ((s.oldZ <<< 1) ||| z.toNat) &&& 3 = 1 ↔ z = true ∧ ¬ s.oldZ % 2 = 1 := by
    generalize s.oldZ = o at hlt
    interval_cases o <;> cases z <;> decide
  rw [Counter.indexEdge, h.zmask, ← Bool.not_eq_true, ← hprev]
  by_cases hm : s.spec.mode = .armed
  · rw [if_pos hm, hbit]
    simp [hm]
  · rw [if_neg hm, Nat.and_zero]
    simp [hm]

/-- What `update` does to the index. -/
lemma update_index (c : Counter) :
    (c.update i).oldZ = ((c.oldZ <<< 1) ||| i.phaseZ.toNat) &&& 3 ∧
    (c.indexEdge i.phaseZ → (c.update i).zmask = 0 ∧
      ((c.update i).buf c.bp).indexDetected = true ∧
      ((c.update i).buf c.bp).indexCount = (c.update i).rawCounts) ∧
    (¬ c.indexEdge i.phaseZ → (c.update i).zmask = c.zmask ∧
      ∀ b, ((c.update i).buf b).indexDetected = (c.buf b).indexDetected ∧
        ((c.update i).buf b).indexCount = (c.buf b).indexCount) := by
  refine ⟨rfl, fun h => ?_, fun h => ⟨if_neg h, fun b => ?_⟩⟩
  · have hbuf : (c.update i).buf c.bp = _ := Function.update_self ..
    rw [hbuf]
    exact ⟨if_pos h, if_pos h, if_pos h⟩
  · by_cases hb : b = c.bp
    · have hbuf : (c.update i).buf c.bp = _ := Function.update_self ..
      rw [hb, hbuf]
      exact ⟨if_neg h, if_neg h⟩
    · have hbuf : (c.update i).buf b = c.buf b := Function.update_of_ne hb _ _
      rw [hbuf]
      exact ⟨rfl, rfl⟩

/-- `update` latches the first edge. -/
lemma IndexInv.update (h : IndexInv s) (hfit : encFits s (.update i)) :
    IndexInv (s.updateStep i) := by
  obtain ⟨hold, hedge, hno⟩ := update_index (i := i) s.toCounter
  obtain ⟨hlt, hprev⟩ := h.oldZ
  have hoth := (update_buf (i := i) s.toCounter).1
  have hz : (s.updateStep i).oldZ < 4 ∧
      ((s.updateStep i).oldZ % 2 = 1 ↔ (s.updateStep i).spec.prevZ = true) := by
    show (s.toCounter.update i).oldZ < 4 ∧ ((s.toCounter.update i).oldZ % 2 = 1 ↔ i.phaseZ = true)
    rw [hold]
    generalize s.oldZ = o at hlt
    interval_cases o <;> cases i.phaseZ <;> decide
  by_cases he : s.indexEdge i.phaseZ
  · -- an armed edge, outside of the window
    obtain ⟨hzm, hdet, hcnt⟩ := hedge he
    obtain ⟨hz1, hp, harm⟩ := (h.indexEdge_iff _).1 he
    have hwin : s.pc.window = false := by
      by_contra hw
      exact hfit (Bool.eq_true_of_not_eq_false hw) he
    have hmode : (s.updateStep i).spec.mode = .latched s.bp (s.toCounter.update i).rawCounts :=
      if_pos ⟨hz1, hp, harm⟩
    refine ⟨?_, hz, fun b v hb => ?_, fun b hb => ?_, fun hh => ?_, fun b hb => ?_, h.count,
      fun _ => h.ena (by rw [harm]; nofun), fun b e hb => ?_, h.clears⟩
    · rw [hmode]
      exact hzm
    · rw [hmode] at hb
      obtain ⟨rfl, rfl⟩ := IndexMode.latched.inj hb
      exact ⟨hdet, hcnt, .inr ⟨hwin, rfl⟩⟩
    · by_cases hbb : b = s.bp
      · exact .inl ⟨_, hbb ▸ hmode⟩
      · obtain rfl : b = !s.bp := Bool.eq_not_of_ne hbb
        change ((s.toCounter.update i).buf (!s.bp)).indexDetected = true at hb
        rw [hoth] at hb
        rcases h.detected _ hb with ⟨v, hv⟩ | hpc
        · rw [harm] at hv
          cases hv
        · exact .inr hpc
    · have hidle := h.idle hh
      rw [harm] at hidle
      cases hidle
    · rcases hb with hb | hb
      · rw [show s.pc = _ from hb] at hwin
        cases hwin
      · rw [show s.pc = _ from hb] at hwin
        cases hwin
    · rw [show s.pc = _ from hb] at hwin
      cases hwin
  · -- the index is left as it is
    obtain ⟨hzm, hbuf⟩ := hno he
    have hmode : (s.updateStep i).spec.mode = s.spec.mode :=
      if_neg fun hn => he ((h.indexEdge_iff _).2 hn)
    refine ⟨?_, hz, fun b v hb => ?_, fun b hb => ?_, fun hh => ?_, fun b hb => ?_, h.count,
      fun hm => h.ena (hmode ▸ hm), fun b e hb => ?_, h.clears⟩
    · rw [hmode]
      exact hzm.trans h.zmask
    · have hl := h.latched b v (hmode ▸ hb)
      rw [← (hbuf b).1, ← (hbuf b).2] at hl
      exact hl
    · rw [hmode]
      exact h.detected b ((hbuf b).1 ▸ hb)
    · rw [hmode]
      exact h.idle hh
    · exact (hbuf b).2.trans (h.held b hb)
    · rw [hmode]
      exact h.seen b e hb

/-- What the index latch depends on. -/
def indexView (s : EncSys) : ℕ × ℕ × (Bool → Bool × ℤ) × Bool × Bool × ℤ × IndexSpec × ℕ :=
  (s.zmask, s.oldZ, fun b => ((s.buf b).indexDetected, (s.buf b).indexCount), s.bp, s.indexEna,
    s.indexCount, s.spec, s.cleared)

/-- An access of `capture` that has nothing to do with the index. -/
lemma IndexInv.frame (h : IndexInv s) (hpc : s.pc.plain = true) (hpc' : s'.pc.plain = true)
    (hwin : s.pc.window = s'.pc.window) (hview : s'.indexView = s.indexView) : IndexInv s' := by
  obtain ⟨hp, hhand⟩ := CapturePc.plain_iff hpc
  obtain ⟨hp', hhand'⟩ := CapturePc.plain_iff hpc'
  simp only [indexView, Prod.mk.injEq, funext_iff] at hview
  obtain ⟨hzm, hold, hbuf, hbp, hena, hcount, hspec, hcl⟩ := hview
  refine ⟨?_, ?_, fun b v hb => ?_, fun b hb => ?_, fun hh => ?_, fun b hb => ?_, fun _ => ?_,
    fun hm => ?_, fun b e hb => ?_, ?_⟩
  · rw [hzm, hspec]
    exact h.zmask
  · rw [hold, hspec]
    exact h.oldZ
  · obtain ⟨hd, hc, hw⟩ := h.latched b v (hspec ▸ hb)
    rw [(hbuf b).1, (hbuf b).2, hbp, ← hwin]
    exact ⟨hd, hc, .inr (hw.resolve_left (hp b).1)⟩
  · rw [hspec]
    exact .inl ((h.detected b ((hbuf b).1 ▸ hb)).resolve_right (hp b).2.1)
  · rw [hhand'] at hh
    cases hh
  · exact absurd hb (hp' b).2.2.1
  · rw [hcount, hspec]
    exact h.count fun b => (hp b).2.2.1
  · rw [hena]
    exact h.ena (hspec ▸ hm)
  · exact absurd hb ((hp' b).2.2.2 e)
  · rw [hspec, hcl, hhand', h.clears, hhand]

/-- The test for an index: `capture` handles it if the latch has an edge in the buffer. -/
lemma IndexInv.capture_testIndex (h : IndexInv s) (hpc : s.pc = .work buf .testIndex) :
    IndexInv s.capture := by
  have hno : ∀ b, ¬ s.pc.holds b := by
    rw [hpc]
    rintro b (hb | hb) <;> cases hb
  have hcount := h.count hno
  have hclears := h.clears
  rw [hpc] at hclears
  have hnc : ∀ b, s.pc ≠ .work b .clearIndex := by
    intro b hb
    rw [hpc] at hb
    cases hb
  by_cases hd : (s.buf buf).indexDetected = true
  · obtain ⟨v, hv⟩ := (h.detected buf hd).resolve_right (hnc buf)
    obtain ⟨-, hc, -⟩ := h.latched buf v hv
    have hread : s.spec.read buf =
        { s.spec with mode := .idle, count := v, clears := s.spec.clears + 1 } := by
      rw [IndexSpec.read, hv]
      exact if_pos rfl
    have hs : s.capture = { s with pc := .work buf .clearIndex
                                   spec := { s.spec with mode := .idle, count := v,
                                                         clears := s.spec.clears + 1 } } := by
      rw [capture_work hpc]
      simp only [Counter.work, hd, if_true, workSpec, reduceCtorEq, if_false, hread]
    have hz := h.zmask
    rw [hv] at hz
    rw [hs]
    refine ⟨hz, h.oldZ, fun b v' hv' => ?_, fun b hb => ?_, fun _ => rfl, fun b hb => ?_,
      fun hh => ?_, fun hm => absurd rfl hm, fun b e he => ?_, ?_⟩
    · cases hv'
    · obtain ⟨v', hv'⟩ := (h.detected b hb).resolve_right (hnc b)
      rw [hv] at hv'
      obtain ⟨rfl, -⟩ := IndexMode.latched.inj hv'
      exact .inr rfl
    · rcases hb with hb | hb
      · obtain ⟨rfl, -⟩ := CapturePc.work.inj hb
        exact hc
      · cases hb
    · exact absurd (.inl rfl) (hh buf)
    · cases he
    · show s.spec.clears + 1 = s.cleared + 1
      rw [hclears]
      rfl
  · have hnl : ∀ b v, s.spec.mode ≠ .latched b v := by
      intro b v hv
      obtain ⟨hdet, -, hw⟩ := h.latched b v hv
      rcases hw with hw | ⟨hw, -⟩
      · rw [hpc] at hw
        obtain ⟨rfl, -⟩ := CapturePc.work.inj hw
        exact hd hdet
      · rw [hpc] at hw
        cases hw
    have hread : s.spec.read buf = s.spec := by
      rw [IndexSpec.read]
      split
      · next b v hv => exact absurd hv (hnl b v)
      · rfl
    have hs : s.capture = { s with pc := .work buf .testLatch } := by
      rw [capture_work hpc]
      simp only [Counter.work, hd, Bool.false_eq_true, if_false, workSpec, reduceCtorEq, hread]
    rw [hs]
    refine ⟨h.zmask, h.oldZ, fun b v hv => absurd hv (hnl b v), fun b hb => .inl ?_,
      fun hh => absurd hh Bool.false_ne_true, fun b hb => ?_, fun _ => hcount, h.ena,
      fun b e he => ?_, hclears⟩
    · exact (h.detected b hb).resolve_right (hnc b)
    · rcases hb with hb | hb <;> cases hb
    · cases he

/-- While an index is handled there is no edge in the latch, nor another one in the buffers. -/
lemma IndexInv.not_detected (h : IndexInv s) (hh : s.pc.handling = true)
    (hb : s.pc ≠ .work buf .clearIndex) : ¬ (s.buf buf).indexDetected = true := by
  intro hd
  rcases h.detected buf hd with ⟨v, hv⟩ | hpc
  · rw [h.idle hh] at hv
    cases hv
  · exact hb hpc

/-- The index is cleared in the buffer. -/
lemma IndexInv.capture_clearIndex (h : IndexInv s) (hpc : s.pc = .work buf .clearIndex) :
    IndexInv s.capture := by
  have hidle := h.idle (by rw [hpc]; rfl)
  have hheld := h.held buf (.inl hpc)
  have hz := h.zmask
  have hclears := h.clears
  rw [hpc] at hclears
  have hs : s.capture =
      { s with buf := Function.update s.buf buf { s.buf buf with indexDetected := false }
               pc := .work buf .readIndex } := by
    rw [capture_work hpc]
    rfl
  rw [hs]
  refine ⟨hz, h.oldZ, fun b v hv => ?_, fun b hb => ?_, fun _ => hidle, fun b hb => ?_,
    fun hh => absurd (.inr rfl) (hh buf), fun hm => absurd hidle hm, nofun, hclears⟩
  · rw [show s.spec.mode = _ from hv] at hidle
    cases hidle
  · change (Function.update s.buf buf _ b).indexDetected = true at hb
    by_cases hbb : b = buf
    · rw [hbb, Function.update_self] at hb
      cases hb
    · rw [Function.update_of_ne hbb] at hb
      refine absurd hb (h.not_detected (by rw [hpc]; rfl) fun hc => ?_)
      rw [hpc] at hc
      exact hbb (CapturePc.work.inj hc).1.symm
  · obtain rfl : buf = b := by
      rcases hb with hb | hb
      · cases hb
      · exact (CapturePc.work.inj hb).1
    show (Function.update s.buf buf _ buf).indexCount = _
    rw [Function.update_self]
    exact hheld

/-- The index count is copied. -/
lemma IndexInv.capture_readIndex (h : IndexInv s) (hpc : s.pc = .work buf .readIndex) :
    IndexInv s.capture := by
  have hidle := h.idle (by rw [hpc]; rfl)
  have hheld := h.held buf (.inr hpc)
  have hclears := h.clears
  rw [hpc] at hclears
  have hs : s.capture =
      { s with indexCount := (s.buf buf).indexCount, pc := .work buf .clearEna } := by
    rw [capture_work hpc]
    rfl
  rw [hs]
  refine ⟨h.zmask, h.oldZ, fun b v hv => ?_, fun b hb => ?_, fun _ => hidle, fun b hb => ?_,
    fun _ => hheld, fun hm => absurd hidle hm, nofun, hclears⟩
  · rw [show s.spec.mode = _ from hv] at hidle
    cases hidle
  · exact absurd hb (h.not_detected (by rw [hpc]; rfl) (by rw [hpc]; nofun))
  · rcases hb with hb | hb <;> cases hb

lemma IndexInv.capture_clearEna (h : IndexInv s) (hpc : s.pc = .work buf .clearEna) :
    IndexInv s.capture := by
  have hidle := h.idle (by rw [hpc]; rfl)
  have hcount := h.count (by
    rw [hpc]
    rintro b (hb | hb) <;> cases hb)
  have hclears := h.clears
  rw [hpc] at hclears
  have hs : s.capture =
      { s with indexEna := false, cleared := s.cleared + 1, pc := .work buf .testLatch } := by
    rw [capture_work hpc]
    rfl
  rw [hs]
  refine ⟨h.zmask, h.oldZ, fun b v hv => ?_, fun b hb => ?_, nofun, fun b hb => ?_,
    fun _ => hcount, fun hm => absurd hidle hm, nofun, hclears⟩
  · rw [show s.spec.mode = _ from hv] at hidle
    cases hidle
  · exact absurd hb (h.not_detected (by rw [hpc]; rfl) (by rw [hpc]; nofun))
  · rcases hb with hb | hb <;> cases hb

/-- In the window the latch has no edge, once `capture` has looked for it. -/
lemma IndexInv.not_latched (h : IndexInv s) (hwin : s.pc.window = true)
    (hpc : ∀ b, s.pc ≠ .work b .testIndex) (b : Bool) (v : ℤ) : s.spec.mode ≠ .latched b v := by
  intro hv
  obtain ⟨-, -, hw | ⟨hw, -⟩⟩ := h.latched b v hv
  · exact hpc b hw
  · rw [hwin] at hw
    cases hw

lemma IndexInv.capture_readEna (h : IndexInv s) (hpc : s.pc = .work buf .readEna) :
    IndexInv s.capture := by
  have hnl := h.not_latched (by rw [hpc]; rfl) (by rw [hpc]; nofun)
  have hcount := h.count (by
    rw [hpc]
    rintro b (hb | hb) <;> cases hb)
  have hclears := h.clears
  rw [hpc] at hclears
  have hs : s.capture = { s with pc := .work buf (.writeZmask s.indexEna) } := by
    rw [capture_work hpc]
    rfl
  rw [hs]
  refine ⟨h.zmask, h.oldZ, fun b v hv => absurd hv (hnl b v), fun b hb => .inl ?_, nofun,
    fun b hb => ?_, fun _ => hcount, h.ena, fun b e hb => ?_, hclears⟩
  · exact (h.detected b hb).resolve_right (by rw [hpc]; nofun)
  · rcases hb with hb | hb <;> cases hb
  · obtain ⟨-, he⟩ := CapturePc.work.inj hb
    obtain rfl := Stage.writeZmask.inj he
    exact ⟨fun hm => h.ena (by rw [hm]; nofun), id⟩

/-- The mask is updated: the latch is armed. -/
lemma IndexInv.capture_writeZmask (h : IndexInv s) {e : Bool}
    (hpc : s.pc = .work buf (.writeZmask e)) : IndexInv s.capture := by
  have hnl := h.not_latched (by rw [hpc]; rfl) (by rw [hpc]; nofun)
  obtain ⟨harm, hena⟩ := h.seen buf e hpc
  have hcount := h.count (by
    rw [hpc]
    rintro b (hb | hb) <;> cases hb)
  have hclears := h.clears
  rw [hpc] at hclears
  have hmode : (s.spec.see e).mode = if e then .armed else .idle := by
    show (if e = true ∧ s.spec.mode = .idle then IndexMode.armed else s.spec.mode) = _
    cases hm : s.spec.mode with
    | idle => cases e <;> rfl
    | armed =>
      rw [harm hm]
      rfl
    | latched b v => exact absurd hm (hnl b v)
  have hs : s.capture = { s with zmask := if e then 3 else 0
                                 spec := s.spec.see e
                                 pc := .work buf .readReset } := by
    rw [capture_work hpc]
    rfl
  rw [hs]
  refine ⟨?_, h.oldZ, fun b v hv => ?_, fun b hb => ?_, nofun, fun b hb => ?_, fun _ => hcount,
    fun hm => ?_, nofun, hclears⟩
  · show (if e = true then 3 else 0) = if (s.spec.see e).mode = .armed then 3 else 0
    rw [hmode]
    cases e <;> rfl
  · change (s.spec.see e).mode = _ at hv
    rw [hmode] at hv
    cases e <;> cases hv
  · obtain ⟨v, hv⟩ := (h.detected b hb).resolve_right (by rw [hpc]; nofun)
    exact absurd hv (hnl b v)
  · rcases hb with hb | hb <;> cases hb
  · change (s.spec.see e).mode ≠ _ at hm
    rw [hmode] at hm
    refine hena ?_
    cases e
    · exact absurd rfl hm
    · rfl

/-- The switch: an edge is in the buffer that was in use. -/
lemma IndexInv.capture_switch (h : IndexInv s) (hc : CountInv s) (hpc : s.pc = .switch buf) :
    IndexInv s.capture := by
  have hs : s.capture = { s with bp := !buf
                                 pc := .work buf .testIndex
                                 rawAtSwitch := s.rawCounts
                                 sawReset := false } := by
    rw [EncSys.capture, hpc]
  obtain rfl := hc.switch buf hpc
  have hplain : s.pc.plain = true := by
    rw [hpc]
    rfl
  obtain ⟨hp, -⟩ := CapturePc.plain_iff hplain
  have hcount := h.count fun b => (hp b).2.2.1
  have hclears := h.clears
  rw [hpc] at hclears
  rw [hs]
  refine ⟨h.zmask, h.oldZ, fun b v hv => ?_, fun b hb => .inl ?_,
    fun hh => absurd hh Bool.false_ne_true, fun b hb => ?_, fun _ => hcount, h.ena,
    fun b e hb => ?_, hclears⟩
  · obtain ⟨hd, hcnt, hw⟩ := h.latched b v hv
    obtain ⟨-, rfl⟩ := hw.resolve_left (hp b).1
    exact ⟨hd, hcnt, .inl rfl⟩
  · exact (h.detected b hb).resolve_right (hp b).2.1
  · rcases hb with hb | hb <;> cases hb
  · cases hb

lemma IndexInv.capture_resetRaw (h : IndexInv s) (hpc : s.pc = .work buf .resetRaw) :
    IndexInv s.capture := by
  have hplain : s.pc.plain = true := by
    rw [hpc]
    rfl
  obtain ⟨hp, -⟩ := CapturePc.plain_iff hplain
  have hclears := h.clears
  rw [hpc] at hclears
  have hs : s.capture = { s with rawCount := s.rawCounts
                                 indexCount := s.rawCounts
                                 spec := { s.spec with count := s.rawCounts }
                                 pc := .work buf .testCount
                                 sawReset := true } := by
    rw [capture_work hpc]
    rfl
  rw [hs]
  refine ⟨h.zmask, h.oldZ, fun b v hv => ?_, fun b hb => .inl ?_, nofun, fun b hb => ?_,
    fun _ => rfl, h.ena, nofun, hclears⟩
  · obtain ⟨hd, hcnt, hw⟩ := h.latched b v hv
    exact ⟨hd, hcnt, .inr ⟨rfl, (hw.resolve_left (hp b).1).2⟩⟩
  · exact (h.detected b hb).resolve_right (hp b).2.1
  · rcases hb with hb | hb <;> cases hb

/-- An access of `capture` to latch, reset or count, or to none. -/
lemma IndexInv.capture_plain (h : IndexInv s) {stage next : Stage}
    (hpc : s.pc = .work buf stage) (hst : s.pc.plain = true) (hnr : stage ≠ .resetRaw)
    (hnext : (s.toCounter.work buf stage).2 = some next) (hwin : next.window = stage.window)
    (hplain : CapturePc.plain (.work buf next) = true) : IndexInv s.capture := by
  have hpc' := capture_pc hpc hnext
  refine h.frame hst (by rw [hpc']; exact hplain) (by rw [hpc, hpc']; exact hwin.symm) ?_
  rw [hpc] at hst
  rw [capture_work hpc]
  have hset : ∀ (b : Bool) (x : AtomicBuf), x.indexDetected = (s.buf b).indexDetected →
      x.indexCount = (s.buf b).indexCount → (fun c => ((Function.update s.buf b x c).indexDetected,
        (Function.update s.buf b x c).indexCount)) =
      fun c => ((s.buf c).indexDetected, (s.buf c).indexCount) := by
    intro b x hd hr
    funext c
    by_cases hc : c = b
    · rw [hc, Function.update_self, hd, hr]
    · rw [Function.update_of_ne hc]
  cases stage with
  | clearLatch => exact Prod.ext rfl (Prod.ext rfl (Prod.ext (hset buf _ rfl rfl) rfl))
  | clearCount => exact Prod.ext rfl (Prod.ext rfl (Prod.ext (hset buf _ rfl rfl) rfl))
  | testIndex => cases hst
  | clearIndex => cases hst
  | readIndex => cases hst
  | clearEna => cases hst
  | writeZmask e => cases hst
  | resetRaw => exact absurd rfl hnr
  | _ => rfl

/-- An access of `capture` keeps this. -/
lemma IndexInv.capture (h : IndexInv s) (hc : CountInv s) : IndexInv s.capture := by
  cases hpc : s.pc with
  | idle =>
    have hs : s.capture = { s with pc := .switch s.bp } := by
      rw [EncSys.capture, hpc]
    rw [hs]
    exact h.frame (by rw [hpc]; rfl) rfl (by rw [hpc]; rfl) rfl
  | switch b => exact h.capture_switch hc hpc
  | work buf stage =>
    cases stage with
    | testIndex => exact h.capture_testIndex hpc
    | clearIndex => exact h.capture_clearIndex hpc
    | readIndex => exact h.capture_readIndex hpc
    | clearEna => exact h.capture_clearEna hpc
    | readEna => exact h.capture_readEna hpc
    | writeZmask e => exact h.capture_writeZmask hpc
    | resetRaw => exact h.capture_resetRaw hpc
    | output =>
      have hs : s.capture =
          { s with count := wrapInt (s.rawCount - s.indexCount)
                   countLatch := wrapInt (s.latchCount - s.indexCount), pc := .idle } := by
        rw [capture_work hpc]
        rfl
      rw [hs]
      exact h.frame (by rw [hpc]; rfl) rfl (by rw [hpc]; rfl) rfl
    | testLatch =>
      by_cases hl : (s.buf buf).latchDetected = true
      · exact h.capture_plain hpc (by rw [hpc]; rfl) (by decide) (if_pos hl) rfl rfl
      · exact h.capture_plain hpc (by rw [hpc]; rfl) (by decide) (if_neg hl) rfl rfl
    | readReset =>
      by_cases hr : s.reset = true
      · exact h.capture_plain hpc (by rw [hpc]; rfl) (by decide) (if_pos hr) rfl rfl
      · exact h.capture_plain hpc (by rw [hpc]; rfl) (by decide) (if_neg hr) rfl rfl
    | testCount =>
      by_cases hd : (s.buf buf).countDetected = true
      · exact h.capture_plain hpc (by rw [hpc]; rfl) (by decide) (if_pos hd) rfl rfl
      · exact h.capture_plain hpc (by rw [hpc]; rfl) (by decide) (if_neg hd) rfl rfl
    | clearLatch => exact h.capture_plain hpc (by rw [hpc]; rfl) (by decide) rfl rfl rfl
    | readLatch => exact h.capture_plain hpc (by rw [hpc]; rfl) (by decide) rfl rfl rfl
    | clearCount => exact h.capture_plain hpc (by rw [hpc]; rfl) (by decide) rfl rfl rfl
    | readCount => exact h.capture_plain hpc (by rw [hpc]; rfl) (by decide) rfl rfl rfl

/-! ### Every run -/

lemma CountInv.init : CountInv EncSys.init where
  detected h := absurd h Bool.false_ne_true
  quiet _ := rfl
  other h := absurd h Bool.false_ne_true
  switch b h := by cases h
  work b stage h := by cases h
  atSwitch _ := rfl
  reset _ := rfl
  early b stage h := by cases h
  out _ := by decide

lemma IndexInv.init : IndexInv EncSys.init where
  zmask := rfl
  oldZ := by decide
  latched b v h := by cases h
  detected b h := absurd h Bool.false_ne_true
  idle _ := rfl
  held b h := by rcases h with h | h <;> cases h
  count _ := rfl
  ena h := absurd rfl h
  seen b e h := by cases h
  clears := rfl

lemma IndexInv.raise (h : IndexInv s) : IndexInv { s with indexEna := true } :=
  { h with ena := fun _ => rfl, seen := fun b e he => ⟨(h.seen b e he).1, fun _ => rfl⟩ }

lemma inv_step {t : EncSys} {a : EncAct} (h : CountInv s ∧ IndexInv s) (hok : encFits s a)
    (hs : encStep s a = some t) : CountInv t ∧ IndexInv t := by
  obtain ⟨hc, hi⟩ := h
  cases a with
  | update i =>
    cases hs
    exact ⟨hc.update, hi.update hok⟩
  | raise =>
    cases hs
    exact ⟨⟨hc.1, hc.2, hc.3, hc.4, hc.5, hc.6, hc.7, hc.8, hc.9⟩, hi.raise⟩
  | reset level =>
    cases hs
    exact ⟨⟨hc.1, hc.2, hc.3, hc.4, hc.5, hc.6, hc.7, hc.8, hc.9⟩,
      ⟨hi.1, hi.2, hi.3, hi.4, hi.5, hi.6, hi.7, hi.8, hi.9, hi.10⟩⟩
  | capture =>
    cases hs
    exact ⟨hc.capture hok, hi.capture hc⟩

end EncSys

instance (s : EncSys) : DecidablePred (encFits s)
  | .update i => inferInstanceAs (Decidable (s.pc.window = true → ¬ s.indexEdge i.phaseZ))
  | .raise => isTrue trivial
  | .reset _ => isTrue trivial
  | .capture => inferInstanceAs (Decidable (∀ buf, s.pc = .work buf .resetRaw →
      (s.buf buf).countDetected = true → (s.buf buf).rawCount = s.rawCounts))

/-- After each `capture` the count is the raw one of the switch less the index count, or 0 if
there was a reset; the index count, and how often index-enable has been cleared, are those
of the latch. -/
theorem encoder_counter {s : EncSys} (hs : Reach encStep encFits EncSys.init s)
    (hpc : s.pc = .idle) :
    (s.sawReset = false → s.count = wrapInt (s.rawAtSwitch - s.indexCount)) ∧
      (s.sawReset = true → s.count = 0) ∧
      s.indexCount = s.spec.count ∧ s.cleared = s.spec.clears := by
  obtain ⟨hc, hi⟩ := hs.invariant ⟨EncSys.CountInv.init, EncSys.IndexInv.init⟩ EncSys.inv_step
  have hfinal : s.final = s.rawCount := by
    rw [EncSys.final, hpc]
  have hout := hc.out fun b stage hb => by
    rw [hpc] at hb
    cases hb
  refine ⟨fun hr => ?_, fun hr => ?_, hi.count fun b hb => ?_, ?_⟩
  · rw [hout, ← hfinal, hc.atSwitch hr]
  · rw [hout, ← hfinal, hc.reset hr, sub_self]
    rfl
  · rw [hpc] at hb
    rcases hb with hb | hb <;> cases hb
  · rw [hi.clears, hpc]
    rfl

/-! ### Runs -/

/-- Levels of phase A, B and Z, with counting at each transition. -/
def encLevels (a b z : Bool) : EncAct := .update ⟨a, b, z, true, false, false, false, false⟩

/-- Index-enable is seen, and the edge comes together with the second count, and is read. -/
def encRun : List EncAct :=
  .raise :: List.replicate 9 .capture ++ [encLevels true false false, encLevels true true true] ++
    List.replicate 14 .capture

/-- A count between the switch and the reset. -/
def encLateCount : List EncAct :=
  [.reset true, encLevels true false false, .capture, .capture, encLevels true true false] ++
    List.replicate 10 .capture

/-- An edge between the switch and the update of the mask, and another one. -/
def encRearm : List EncAct :=
  .raise :: List.replicate 11 .capture ++ [encLevels false false true] ++
    List.replicate 7 .capture ++ [encLevels false false false, encLevels true false true] ++
    List.replicate 14 .capture

/-- The state after a run. -/
def encAfter (ok : EncSys → EncAct → Bool) (as : List EncAct) : EncSys :=
  (run encStep ok EncSys.init as).getD EncSys.init

lemma encAfter_reach {ok : EncSys → EncAct → Bool} {as : List EncAct}
    (h : (run encStep ok EncSys.init as).isSome = true) :
    Reach encStep (fun s a => ok s a = true) EncSys.init (encAfter ok as) := by
  obtain ⟨s, hs⟩ := Option.isSome_iff_exists.1 h
  rw [encAfter, hs]
  exact reach_of_run as _ hs

/-- The guard, to run it. -/
def encFitsB (s : EncSys) (a : EncAct) : Bool := decide (encFits s a)

/-- The index clears the count. -/
theorem encoder_counter_index :
    (encAfter encFitsB encRun).indexCount = 2 ∧ (encAfter encFitsB encRun).cleared = 1 ∧
      (encAfter encFitsB encRun).count = wrapInt (2 - 2) ∧
      (encAfter encFitsB encRun).indexCount = (encAfter encFitsB encRun).spec.count := by
  have hr : Reach encStep encFits EncSys.init (encAfter encFitsB encRun) :=
    (encAfter_reach (by decide)).mono of_decide_eq_true
  obtain ⟨hc, -, hi, -⟩ := encoder_counter hr (by decide)
  exact ⟨by decide, by decide, hc (by decide), hi⟩

/-- A count between the switch and the reset is taken back, and then the count is not 0; a
second edge changes the index count, if the first one came between the switch and the update
of the mask. -/
theorem encoder_counter_windows :
    (¬ ∀ s, Reach encStep (fun _ _ => True) EncSys.init s → s.pc = .idle →
      s.sawReset = true → s.count = 0) ∧
    ¬ ∀ s, Reach encStep (fun _ _ => True) EncSys.init s → s.pc = .idle →
      s.indexCount = s.spec.count := by
  have hreach : ∀ as, (run encStep (fun _ _ => true) EncSys.init as).isSome = true →
      Reach encStep (fun _ _ => True) EncSys.init (encAfter (fun _ _ => true) as) :=
    fun as has => (encAfter_reach has).mono fun _ => trivial
  refine ⟨fun h => ?_, fun h => ?_⟩
  · exact absurd (h _ (hreach encLateCount (by decide)) (by decide)
      (by decide)) (by decide)
  · exact absurd (h _ (hreach encRearm (by decide)) (by decide))
      (by decide)

end MachinekitHal
