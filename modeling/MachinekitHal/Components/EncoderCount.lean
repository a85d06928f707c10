import MachinekitHal.Components.Encoder

/-!
Counting of `encoder.c`.

* `EncSys.final`: the raw count that `capture` has or is going to have.
* `CountInv`: it is the one of the last switch, and the last count is in the buffer in use or
  with `capture`; `CountInv.update` and `CountInv.capture` keep this.
-/

namespace MachinekitHal

open Word

/-- The buffer that was in use may have a count. -/
def Stage.counting : Stage → Bool
  | .readCount | .output => false
  | _ => true

/-- `capture` has not looked for a count yet. -/
def Stage.pending : Stage → Bool
  | .clearCount | .readCount | .output => false
  | _ => true

namespace EncSys

variable {s s' : EncSys} {i : EncInput} {buf : Bool} {stage stage' : Stage}

/-- The raw count that `capture` has or is going to have. -/
def final (s : EncSys) : ℤ :=
  match s.pc with
  | .work _ .output => s.rawCount
  | .work buf .clearCount | .work buf .readCount => (s.buf buf).rawCount
  | .work buf _ => if (s.buf buf).countDetected then (s.buf buf).rawCount else s.rawCount
  | _ => s.rawCount

/-- What holds for counting. -/
structure CountInv (s : EncSys) : Prop where
  /-- the last count is in the buffer in use, or with `capture` -/
  detected : (s.buf s.bp).countDetected = true → (s.buf s.bp).rawCount = s.rawCounts
  quiet : (s.buf s.bp).countDetected = false → s.final = s.rawCounts
  other : (s.buf (!s.bp)).countDetected = true →
    ∃ stage, s.pc = .work (!s.bp) stage ∧ stage.counting = true
  /-- `capture` reads from the buffer not in use, once it has switched -/
  switch : ∀ b, s.pc = .switch b → b = s.bp
  work : ∀ b stage, s.pc = .work b stage → b = !s.bp
  atSwitch : s.sawReset = false → s.final = s.rawAtSwitch
  reset : s.sawReset = true → s.final = s.indexCount
  early : ∀ b stage, s.pc = .work b stage → stage.window = true → s.sawReset = false
  out : (∀ b stage, s.pc ≠ .work b stage) → s.count = wrapInt (s.rawCount - s.indexCount)

/-- `update` writes to the buffer in use, and stores the count if there is one. -/
lemma update_buf (c : Counter) : (c.update i).buf (!c.bp) = c.buf (!c.bp) ∧
    ((((c.update i).buf c.bp).countDetected = true ∧
        ((c.update i).buf c.bp).rawCount = (c.update i).rawCounts) ∨
      (((c.update i).buf c.bp).countDetected = (c.buf c.bp).countDetected ∧
        ((c.update i).buf c.bp).rawCount = (c.buf c.bp).rawCount ∧
        (c.update i).rawCounts = c.rawCounts)) := by
  refine ⟨Function.update_of_ne (by cases c.bp <;> decide) _ _, ?_⟩
  have hbuf : (c.update i).buf c.bp = _ := Function.update_self ..
  rw [hbuf]
  by_cases h : countOf (i.decode c.state) ≠ 0
  · exact .inl ⟨if_pos h, if_pos h⟩
  · exact .inr ⟨if_neg h, if_neg h, if_neg h⟩

/-- In front of the test for a count. -/
lemma final_pending (hpc : s.pc = .work buf stage) (hst : stage.pending = true) :
    s.final = if (s.buf buf).countDetected then (s.buf buf).rawCount else s.rawCount := by
  rw [final, hpc]
  cases stage <;> first | rfl | cases hst

/-- `update` keeps what `capture` is going to have. -/
lemma CountInv.final_update (h : CountInv s) : (s.updateStep i).final = s.final := by
  have hother := (update_buf (i := i) s.toCounter).1
  have hbuf : ∀ b stage, s.pc = .work b stage → (s.toCounter.update i).buf b = s.buf b := by
    intro b stage hpc
    rw [h.work b stage hpc]
    exact hother
  rw [final, final, show (s.updateStep i).pc = s.pc from rfl]
  cases hpc : s.pc with
  | idle => rfl
  | switch b => rfl
  | work b stage =>
    have hb : (s.updateStep i).buf b = s.buf b := hbuf b stage hpc
    cases stage <;> simp only [hb] <;> rfl

lemma CountInv.update (h : CountInv s) : CountInv (s.updateStep i) := by
  obtain ⟨hother, hact⟩ := update_buf (i := i) s.toCounter
  have hfinal := h.final_update (i := i)
  refine ⟨fun hd => ?_, fun hq => ?_, fun hd => ?_, h.switch, h.work, fun hs => ?_, fun hs => ?_,
    h.early, h.out⟩
  · change ((s.toCounter.update i).buf s.bp).countDetected = true at hd
    show ((s.toCounter.update i).buf s.bp).rawCount = (s.toCounter.update i).rawCounts
    rcases hact with ⟨-, hr⟩ | ⟨hc, hr, hraw⟩
    · exact hr
    · rw [hr, hraw]
      exact h.detected (hc ▸ hd)
  · change ((s.toCounter.update i).buf s.bp).countDetected = false at hq
    rw [hfinal]
    show _ = (s.toCounter.update i).rawCounts
    rcases hact with ⟨hc, -⟩ | ⟨hc, -, hraw⟩
    · rw [hc] at hq
      cases hq
    · rw [hraw]
      exact h.quiet (hc ▸ hq)
  · change ((s.toCounter.update i).buf (!s.bp)).countDetected = true at hd
    rw [hother] at hd
    exact h.other hd
  · rw [hfinal]
    exact h.atSwitch hs
  · rw [hfinal]
    exact h.reset hs

/-- What counting depends on. -/
def countView (s : EncSys) : (Bool → Bool × ℤ) × Bool × ℤ × ℤ × ℤ × Bool :=
  (fun b => ((s.buf b).countDetected, (s.buf b).rawCount), s.bp, s.rawCounts, s.rawCount,
    s.rawAtSwitch, s.sawReset)

/-- An access of `capture` that has nothing to do with counting. -/
lemma CountInv.frame (h : CountInv s) (hpc : s.pc = .work buf stage)
    (hpc' : s'.pc = .work buf stage') (hst : stage.pending = true) (hst' : stage'.pending = true)
    (hw : stage'.window = true → stage.window = true) (hview : s'.countView = s.countView)
    (hidx : s.sawReset = true → s'.indexCount = s.indexCount) : CountInv s' := by
  simp only [countView, Prod.mk.injEq, funext_iff] at hview
  obtain ⟨hbuf, hbp, hraw, hrc, hsw, hsaw⟩ := hview
  have hfinal : s'.final = s.final := by
    rw [final_pending hpc hst, final_pending hpc' hst', (hbuf buf).1, (hbuf buf).2, hrc]
  have hb := h.work buf stage hpc
  have hcounting : stage'.counting = true := by
    cases stage' <;> first | rfl | cases hst'
  refine ⟨fun hd => ?_, fun hq => ?_, fun hd => ?_, fun b hb' => ?_, fun b st hb' => ?_,
    fun hs => ?_, fun hs => ?_, fun b st hb' hwin => ?_, fun hno => absurd hpc' (hno buf stage')⟩
  · rw [hbp, (hbuf _).1] at hd
    rw [hbp, (hbuf _).2, hraw]
    exact h.detected hd
  · rw [hbp, (hbuf _).1] at hq
    rw [hfinal, hraw]
    exact h.quiet hq
  · exact ⟨stage', by rw [hpc', hbp, hb], hcounting⟩
  · rw [hpc'] at hb'
    cases hb'
  · rw [hpc'] at hb'
    obtain ⟨rfl, -⟩ := CapturePc.work.inj hb'
    rw [hbp, hb]
  · rw [hfinal, hsw]
    exact h.atSwitch (hsaw ▸ hs)
  · rw [hfinal, hidx (hsaw ▸ hs)]
    exact h.reset (hsaw ▸ hs)
  · rw [hpc'] at hb'
    obtain ⟨-, rfl⟩ := CapturePc.work.inj hb'
    rw [hsaw]
    exact h.early buf stage hpc (hw hwin)

lemma capture_work (hpc : s.pc = .work buf stage) : s.capture =
    { (s.toCounter.work buf stage).1 with
      pc := match (s.toCounter.work buf stage).2 with
        | some next => .work buf next
        | none => .idle
      spec := s.workSpec buf stage
      cleared := if stage = .clearEna then s.cleared + 1 else s.cleared
      rawAtSwitch := s.rawAtSwitch
      sawReset := if stage = .resetRaw then true else s.sawReset } := by
  obtain ⟨c, pc, spec, cleared, rawAtSwitch, sawReset⟩ := s
  cases hpc
  rfl

lemma capture_pc (hpc : s.pc = .work buf stage)
    (hnext : (s.toCounter.work buf stage).2 = some stage') : s.capture.pc = .work buf stage' := by
  simp only [capture_work hpc, hnext]

/-- The accesses in front of the reset have nothing to do with counting. -/
lemma countView_capture (hpc : s.pc = .work buf stage)
    (hst : stage.window = true ∨ stage = .readReset ∨ stage = .testCount) :
    s.capture.countView = s.countView := by
  have hset : ∀ (b : Bool) (x : AtomicBuf), x.countDetected = (s.buf b).countDetected →
      x.rawCount = (s.buf b).rawCount → (fun c => ((Function.update s.buf b x c).countDetected,
        (Function.update s.buf b x c).rawCount)) =
      fun c => ((s.buf c).countDetected, (s.buf c).rawCount) := by
    intro b x hd hr
    funext c
    by_cases hc : c = b
    · rw [hc, Function.update_self, hd, hr]
    · rw [Function.update_of_ne hc]
  rw [capture_work hpc]
  cases stage with
  | clearIndex => exact congrArg (·, _) (hset buf _ rfl rfl)
  | clearLatch => exact congrArg (·, _) (hset buf _ rfl rfl)
  | resetRaw => simp [Stage.window] at hst
  | clearCount => simp [Stage.window] at hst
  | readCount => simp [Stage.window] at hst
  | output => simp [Stage.window] at hst
  | _ => rfl

/-- The access in front of the reset comes before the test for a count. -/
lemma work_next (c : Counter) (hst : stage.window = true) :
    ∃ next, (c.work buf stage).2 = some next ∧ next.pending = true := by
  cases stage with
  | testIndex =>
    by_cases hi : (c.buf buf).indexDetected = true
    · exact ⟨.clearIndex, if_pos hi, rfl⟩
    · exact ⟨.testLatch, if_neg hi, rfl⟩
  | testLatch =>
    by_cases hl : (c.buf buf).latchDetected = true
    · exact ⟨.clearLatch, if_pos hl, rfl⟩
    · exact ⟨.readEna, if_neg hl, rfl⟩
  | readReset => cases hst
  | resetRaw => cases hst
  | testCount => cases hst
  | clearCount => cases hst
  | readCount => cases hst
  | output => cases hst
  | _ => exact ⟨_, rfl, rfl⟩

/-- An access of `capture` in front of the reset. -/
lemma CountInv.capture_window (h : CountInv s) (hpc : s.pc = .work buf stage)
    (hst : stage.window = true) : CountInv s.capture := by
  have hview := countView_capture hpc (.inl hst)
  have hsaw := h.early buf stage hpc hst
  obtain ⟨next, hn, hp⟩ := work_next s.toCounter hst
  refine h.frame hpc (capture_pc hpc hn) ?_ hp (fun _ => hst) hview fun hs => ?_
  · cases stage <;> first | rfl | cases hst
  · rw [hsaw] at hs
    cases hs

lemma CountInv.capture_resetRaw (h : CountInv s) (hpc : s.pc = .work buf .resetRaw)
    (hfit : (s.buf buf).countDetected = true → (s.buf buf).rawCount = s.rawCounts) :
    CountInv s.capture := by
  have hb := h.work buf _ hpc
  have hpc' : s.capture.pc = .work buf .testCount := capture_pc hpc rfl
  have hfinal : s.capture.final = s.rawCounts := by
    rw [final_pending hpc' rfl, capture_work hpc]
    show (if (s.buf buf).countDetected then (s.buf buf).rawCount else s.rawCounts) = _
    split
    · next hd => exact hfit hd
    · rfl
  have hbuf : s.capture.buf = s.buf ∧ s.capture.bp = s.bp ∧ s.capture.rawCounts = s.rawCounts ∧
      s.capture.sawReset = true ∧ s.capture.indexCount = s.rawCounts := by
    rw [capture_work hpc]
    exact ⟨rfl, rfl, rfl, rfl, rfl⟩
  obtain ⟨hbuf, hbp, hraw, hsaw, hidx⟩ := hbuf
  refine ⟨fun hd => ?_, fun _ => hfinal.trans hraw.symm, fun _ => ?_, fun b hb' => ?_,
    fun b st hb' => ?_, fun hs => ?_, fun _ => hfinal.trans hidx.symm, fun b st hb' hwin => ?_,
    fun hno => absurd hpc' (hno buf _)⟩
  · rw [hbuf, hbp] at hd
    rw [hbuf, hbp, hraw]
    exact h.detected hd
  · exact ⟨.testCount, by rw [hpc', hbp, hb], rfl⟩
  · rw [hpc'] at hb'
    cases hb'
  · rw [hpc'] at hb'
    obtain ⟨rfl, -⟩ := CapturePc.work.inj hb'
    rw [hbp, hb]
  · rw [hsaw] at hs
    cases hs
  · rw [hpc'] at hb'
    obtain ⟨-, rfl⟩ := CapturePc.work.inj hb'
    cases hwin

/-- An access after the reset that does not change the raw count `capture` is going to have. -/
lemma CountInv.late (h : CountInv s) (hpc : s.pc = .work buf stage)
    (hpc' : s'.pc = .idle ∨ ∃ next : Stage, s'.pc = .work buf next ∧ next.window = false)
    (hbuf : s'.buf (!buf) = s.buf (!buf))
    (hold : (s'.buf buf).countDetected = true →
      ∃ next : Stage, s'.pc = .work buf next ∧ next.counting = true)
    (hsame : s'.bp = s.bp ∧ s'.rawCounts = s.rawCounts ∧ s'.rawAtSwitch = s.rawAtSwitch ∧
      s'.sawReset = s.sawReset ∧ s'.indexCount = s.indexCount)
    (hfinal : s'.final = s.final)
    (hout : s'.pc = .idle → s'.count = wrapInt (s'.rawCount - s'.indexCount)) : CountInv s' := by
  obtain ⟨hbp, hraw, hsw, hsaw, hidx⟩ := hsame
  have hb := h.work buf stage hpc
  have hact : s'.buf s'.bp = s.buf s.bp := by
    rw [hbp, ← Bool.not_not s.bp, ← hb]
    exact hbuf
  refine ⟨fun hd => ?_, fun hq => ?_, fun hd => ?_, fun b hb' => ?_, fun b st hb' => ?_,
    fun hs => ?_, fun hs => ?_, fun b st hb' hwin => ?_, fun hno => ?_⟩
  · rw [hact] at hd ⊢
    rw [hraw]
    exact h.detected hd
  · rw [hact] at hq
    rw [hfinal, hraw]
    exact h.quiet hq
  · rw [hbp, ← hb] at hd ⊢
    exact hold hd
  · rcases hpc' with h0 | ⟨next, h1, -⟩
    · rw [h0] at hb'
      cases hb'
    · rw [h1] at hb'
      cases hb'
  · rcases hpc' with h0 | ⟨next, h1, -⟩
    · rw [h0] at hb'
      cases hb'
    · rw [h1] at hb'
      obtain ⟨rfl, -⟩ := CapturePc.work.inj hb'
      rw [hbp, hb]
  · rw [hfinal, hsw]
    exact h.atSwitch (hsaw ▸ hs)
  · rw [hfinal, hidx]
    exact h.reset (hsaw ▸ hs)
  · rcases hpc' with h0 | ⟨next, h1, h2⟩
    · rw [h0] at hb'
      cases hb'
    · rw [h1] at hb'
      obtain ⟨-, rfl⟩ := CapturePc.work.inj hb'
      rw [h2] at hwin
      cases hwin
  · rcases hpc' with h0 | ⟨next, h1, -⟩
    · exact hout h0
    · exact absurd h1 (hno buf next)

lemma CountInv.capture_switch (h : CountInv s) (hpc : s.pc = .switch buf) :
    CountInv s.capture := by
  obtain rfl := h.switch buf hpc
  have hs : s.capture = { s with bp := !s.bp
                                 pc := .work s.bp .testIndex
                                 rawAtSwitch := s.rawCounts
                                 sawReset := false } := by
    rw [EncSys.capture, hpc]
  have hother : (s.buf (!s.bp)).countDetected = false := by
    by_contra hd
    obtain ⟨stage, hst, -⟩ := h.other (Bool.eq_true_of_not_eq_false hd)
    rw [hpc] at hst
    cases hst
  have hfinal : s.capture.final = s.rawCounts := by
    rw [hs]
    show (if (s.buf s.bp).countDetected then (s.buf s.bp).rawCount else s.rawCount) = _
    split
    · next hd => exact h.detected hd
    · next hd =>
        have hq := h.quiet (Bool.eq_false_of_not_eq_true hd)
        rwa [final, hpc] at hq
  rw [hs] at hfinal ⊢
  refine ⟨fun hd => ?_, fun _ => hfinal, fun hd => ⟨.testIndex, ?_, rfl⟩, fun b hb => ?_,
    fun b st hb => ?_, fun _ => hfinal, fun h => absurd h Bool.false_ne_true, fun _ _ _ _ => rfl,
    fun hno => absurd rfl (hno s.bp .testIndex)⟩
  · change (s.buf (!s.bp)).countDetected = true at hd
    rw [hother] at hd
    cases hd
  · show CapturePc.work s.bp _ = .work (!!s.bp) _
    rw [Bool.not_not]
  · cases hb
  · obtain ⟨rfl, -⟩ := CapturePc.work.inj hb
    exact (Bool.not_not _).symm

lemma CountInv.capture_idle (h : CountInv s) (hpc : s.pc = .idle) : CountInv s.capture := by
  have hs : s.capture = { s with pc := .switch s.bp } := by
    rw [EncSys.capture, hpc]
  have hfinal : s.capture.final = s.final := by
    rw [hs, final, final, hpc]
  have hout := h.out fun b stage hb => by
    rw [hpc] at hb
    cases hb
  have hq := h.quiet
  have hsw := h.atSwitch
  have hre := h.reset
  rw [← hfinal] at hq hsw hre
  rw [hs] at hq hsw hre ⊢
  refine ⟨h.detected, hq, fun hd => ?_, fun b hb => ?_, fun b st hb => ?_, hsw, hre,
    fun b st hb => ?_, fun _ => hout⟩
  · obtain ⟨stage, hst, -⟩ := h.other hd
    rw [hpc] at hst
    cases hst
  · exact (CapturePc.switch.inj hb).symm
  · cases hb
  · cases hb

/-- A buffer from which the count has been taken has none. -/
lemma CountInv.not_detected (h : CountInv s) (hpc : s.pc = .work buf stage)
    (hst : stage.counting = false) : ¬ (s.buf buf).countDetected = true := by
  intro hd
  have hb := h.work buf stage hpc
  rw [hb] at hd
  obtain ⟨next, hn, hc⟩ := h.other hd
  rw [hpc] at hn
  obtain ⟨-, rfl⟩ := CapturePc.work.inj hn
  rw [hst] at hc
  cases hc

lemma CountInv.capture_testCount (h : CountInv s) (hpc : s.pc = .work buf .testCount) :
    CountInv s.capture := by
  have hpend := final_pending hpc rfl
  by_cases hd : (s.buf buf).countDetected = true
  · have hs : s.capture = { s with pc := .work buf .clearCount } := by
      rw [capture_work hpc]
      simp only [Counter.work, hd, if_true, workSpec, reduceCtorEq, if_false]
    have hfinal : s.capture.final = s.final := by
      rw [hpend, if_pos hd, hs, final]
    rw [hs] at hfinal ⊢
    exact h.late hpc (.inr ⟨_, rfl, rfl⟩) rfl (fun _ => ⟨_, rfl, rfl⟩) ⟨rfl, rfl, rfl, rfl, rfl⟩
      hfinal nofun
  · have hs : s.capture = { s with pc := .work buf .output } := by
      rw [capture_work hpc]
      simp only [Counter.work, hd, Bool.false_eq_true, if_false, workSpec, reduceCtorEq]
    have hfinal : s.capture.final = s.final := by
      rw [hpend, if_neg hd, hs, final]
    rw [hs] at hfinal ⊢
    exact h.late hpc (.inr ⟨_, rfl, rfl⟩) rfl (fun h => absurd h hd) ⟨rfl, rfl, rfl, rfl, rfl⟩
      hfinal nofun

lemma CountInv.capture_clearCount (h : CountInv s) (hpc : s.pc = .work buf .clearCount) :
    CountInv s.capture := by
  have hs : s.capture =
      { s with buf := Function.update s.buf buf { s.buf buf with countDetected := false }
               pc := .work buf .readCount } := by
    rw [capture_work hpc]
    rfl
  have hfinal : s.capture.final = s.final := by
    rw [final, final, hpc, hs]
    show (Function.update s.buf buf _ buf).rawCount = _
    rw [Function.update_self]
  rw [hs] at hfinal ⊢
  refine h.late hpc (.inr ⟨_, rfl, rfl⟩) ?_ (fun hd => ?_) ⟨rfl, rfl, rfl, rfl, rfl⟩ hfinal nofun
  · exact Function.update_of_ne (by cases buf <;> decide) _ _
  · change (Function.update s.buf buf { s.buf buf with countDetected := false } buf).countDetected =
      true at hd
    rw [Function.update_self] at hd
    cases hd

lemma CountInv.capture_readCount (h : CountInv s) (hpc : s.pc = .work buf .readCount) :
    CountInv s.capture := by
  have hs : s.capture = { s with rawCount := (s.buf buf).rawCount, pc := .work buf .output } := by
    rw [capture_work hpc]
    rfl
  have hfinal : s.capture.final = s.final := by
    rw [final, final, hpc, hs]
  have hno := h.not_detected hpc rfl
  rw [hs] at hfinal ⊢
  exact h.late hpc (.inr ⟨_, rfl, rfl⟩) rfl (fun hd => absurd hd hno) ⟨rfl, rfl, rfl, rfl, rfl⟩
    hfinal nofun

lemma CountInv.capture_output (h : CountInv s) (hpc : s.pc = .work buf .output) :
    CountInv s.capture := by
  have hs : s.capture =
      { s with count := wrapInt (s.rawCount - s.indexCount)
               countLatch := wrapInt (s.latchCount - s.indexCount), pc := .idle } := by
    rw [capture_work hpc]
    rfl
  have hfinal : s.capture.final = s.final := by
    rw [final, final, hpc, hs]
  have hno := h.not_detected hpc rfl
  rw [hs] at hfinal ⊢
  exact h.late hpc (.inl rfl) rfl (fun hd => absurd hd hno) ⟨rfl, rfl, rfl, rfl, rfl⟩ hfinal
    fun _ => rfl

/-- An access of `capture` keeps this. -/
lemma CountInv.capture (h : CountInv s) (hfit : encFits s .capture) : CountInv s.capture := by
  cases hpc : s.pc with
  | idle => exact h.capture_idle hpc
  | switch b => exact h.capture_switch hpc
  | work buf stage =>
    by_cases hst : stage.window = true
    · exact h.capture_window hpc hst
    cases stage with
    | readReset =>
      have hview := countView_capture hpc (.inr (.inl rfl))
      have hidx : s.capture.indexCount = s.indexCount := by
        rw [capture_work hpc]
        rfl
      by_cases hr : s.reset = true
      · have hnext := capture_pc hpc (if_pos (c := s.reset = true) hr)
        exact h.frame hpc hnext rfl rfl nofun hview fun _ => hidx
      · have hnext := capture_pc hpc (if_neg (c := s.reset = true) hr)
        exact h.frame hpc hnext rfl rfl nofun hview fun _ => hidx
    | resetRaw => exact h.capture_resetRaw hpc (hfit buf hpc)
    | testCount => exact h.capture_testCount hpc
    | clearCount => exact h.capture_clearCount hpc
    | readCount => exact h.capture_readCount hpc
    | output => exact h.capture_output hpc
    | _ => exact absurd rfl hst

end EncSys

end MachinekitHal
