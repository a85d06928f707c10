import MachinekitHal.Components.Stepgen
import MachinekitHal.Lib.Tally

/-!
The steps that the outputs of `stepgen.c` show, and `rawcount`.

* `StepgenAct`, `Stepgen.act`: a call of `make_pulses`, or of `update_freq` for a generator that
  is not enabled, which sets `addval` to 0.
* `Stepgen.signal`: the step of a call as the outputs show it; `Stepgen.rises`: the rising edges
  of the pins.
* `Heeded`: the timers do not wrap, there is a pulse, and no reversal is missed because `addval`
  was set to 0.
* `CountOk`: the invariant; the direction can only differ from that of the movement while the
  generator is on hold or `addval` is 0.
* `stepgen_conserves`: `rawcount` and the signals; `stepgen_conserves_reversal` is a run in which
  a step up is shown as one down.
-/

namespace MachinekitHal

open Tally Word

/-- What changes a generator: `make_pulses` with the parameters it finds, or `update_freq`
when it finds the generator disabled. -/
inductive StepgenAct where
  | makePulses (period : ℕ) (enable : Bool) (p : MpParams)
  | disabled

namespace Stepgen

section Signals

variable (cfg : StepConfig) (s : Stepgen)

def act : StepgenAct → Stepgen
  | .makePulses period enable p => s.makePulses cfg period enable p
  | .disabled => { s with addval := 0 }

/-- The direction of the step that the outputs show: step and direction, up or down, or the move
in the state table. -/
def shown : ℤ :=
  if cfg.stepType = 0 then if s.phase 0 then if s.phase 1 then -1 else 1 else 0
  else if cfg.stepType = 1 then (s.phase 0).toInt - (s.phase 1).toInt
  else s.currDir

/-- The step that is made, as the outputs show it. -/
def signal : StepgenAct → ℤ
  | .makePulses period enable p =>
    if s.stepNow period enable p then (s.makePulses cfg period enable p).shown cfg else 0
  | .disabled => 0

/-- A rising edge. -/
def rise (old new : Bool) : ℤ := if new && !old then 1 else 0

/-- The rising edges: those of the step pin with the direction, or of up less those of down. -/
def rises (a : StepgenAct) : ℤ :=
  let t := s.act cfg a
  if cfg.stepType = 0 then rise (s.phase 0) (t.phase 0) * if t.phase 1 then -1 else 1
  else rise (s.phase 0) (t.phase 0) - rise (s.phase 1) (t.phase 1)

/-- The frequency is less than a step a call. -/
def Slow : StepgenAct → Prop
  | .makePulses period enable p => |s.nextAddval period enable p| < 2 ^ 28
  | .disabled => True

instance : ∀ a, Decidable (s.Slow a)
  | .makePulses .. => inferInstanceAs (Decidable (|_| < _))
  | .disabled => inferInstanceAs (Decidable True)

/-- What the counting needs. -/
def Heeded : StepgenAct → Prop
  | .makePulses period enable p =>
    -- a step starts timers that do not wrap, and a pulse
    (s.stepNow period enable p → DelaysFit p ∧ (cfg.stepType < 2 → p.stepLen ≠ 0)) ∧
    -- from 0, `addval` does not go up while a step down keeps the direction
    (s.timer2 - period ≠ 0 → s.addval = 0 → s.currDir = -1 →
      s.nextAddval period enable p ≤ 0)
  | .disabled => True

instance : ∀ a, Decidable (s.Heeded cfg a)
  | .makePulses .. => inferInstanceAs (Decidable ((_ → _) ∧ (_ → _)))
  | .disabled => inferInstanceAs (Decidable True)

/-- No pulse is on when a step is made. -/
def FromLow : StepgenAct → Prop
  | .makePulses period enable p => s.stepNow period enable p → s.timer1 = 0
  | .disabled => True

end Signals

/-! ### The accumulator -/

section Accumulator

/-- Wrapping the accumulator does not show in the count. -/
lemma accumCount_wrapLong (x : ℤ) : accumCount (wrapLong x) = accumCount x := by
  obtain ⟨k, hk⟩ := exists_wrapLong_eq x
  rw [accumCount, accumCount, hk, show (x + 2 ^ 64 * k) / 2 ^ 28 = x / 2 ^ 28 + 2 ^ 32 * (16 * k) by
    omega, wrapInt_add_mul]

/-- Moving by less than `2 ^ 28` toggles the pickoff bit with every change of the count. -/
lemma accumCount_add {x y : ℤ} (hy : |y| < 2 ^ 28) : accumCount (x + y) =
    wrapInt (accumCount x + if pickoffBit x ≠ pickoffBit (x + y) then y.sign else 0) := by
  have hy' := abs_lt.1 hy
  rw [accumCount, accumCount, wrapInt_add]
  refine congrArg wrapInt ?_
  simp only [pickoffBit]
  split_ifs with h
  · rcases lt_trichotomy y 0 with hlt | rfl | hgt
    · rw [Int.sign_eq_neg_one_of_neg hlt]
      omega
    · exact absurd (by rw [Int.add_zero]) h
    · rw [Int.sign_eq_one_of_pos hgt]
      omega
  · omega

end Accumulator

/-! ### Direction -/

section Direction

variable {cfg : StepConfig} {s : Stepgen} {a : StepgenAct} {period : ℕ} {enable : Bool}
  {p : MpParams}

/-- The invariant. -/
structure CountOk (cfg : StepConfig) (s : Stepgen) : Prop where
  le12 : s.timer1 ≤ s.timer2
  le23 : s.timer2 ≤ s.timer3
  hold : s.holdDds = true → s.timer3 ≠ 0
  currDir : s.timer2 ≠ 0 → s.currDir = 1 ∨ s.currDir = -1
  addval : s.timer2 ≠ 0 → s.holdDds = true ∨ s.addval = 0 ∨ (0 ≤ s.addval ↔ s.currDir = 1)
  rawcount : s.rawcount = accumCount s.accum
  state : 2 ≤ cfg.stepType → 0 ≤ s.state ∧ s.state ≤ cfg.cycleMax
  stepDir : cfg.stepType = 0 →
    s.phase 0 = decide (s.timer1 ≠ 0) ∧ s.phase 1 = decide (s.currDir < 0)
  upDown : cfg.stepType = 1 →
    s.phase 0 = (decide (s.timer1 ≠ 0) && !decide (s.currDir < 0)) ∧
      s.phase 1 = (decide (s.timer1 ≠ 0) && decide (s.currDir < 0))

lemma CountOk.init (hcfg : 2 ≤ cfg.stepType → 0 ≤ cfg.cycleMax) : Stepgen.init.CountOk cfg where
  le12 := le_refl _
  le23 := le_refl _
  hold h := absurd h Bool.false_ne_true
  currDir h := absurd rfl h
  addval h := absurd rfl h
  rawcount := by decide
  state h := ⟨le_refl _, hcfg h⟩
  stepDir _ := ⟨rfl, rfl⟩
  upDown _ := ⟨rfl, rfl⟩

/-- While the second timer runs and nothing is on hold, `addval` is 0 or goes on in the direction
of the pin. -/
lemma CountOk.nextAddval (h : s.CountOk cfg) (hok : s.Heeded cfg (.makePulses period enable p))
    (h2 : s.timer2 - period ≠ 0) (hno : s.nextHold period enable p = false) :
    s.nextAddval period enable p = 0 ∨
      (0 ≤ s.nextAddval period enable p ↔ s.currDir = 1) := by
  have hle := h.le23
  obtain ⟨hold, hsign⟩ := sign_of_not_nextHold h.hold (by omega) hno
  rcases h.addval (by omega) with hh | h0 | hd
  · rw [hold] at hh
    cases hh
  · have hup := hok.2 h2 h0
    rcases h.currDir (by omega) with h1 | h1
    · exact .inr (by omega)
    · have hle0 := hup h1
      omega
  · exact .inr (hsign.trans hd)

/-- The direction in which a step is made is that of the movement. -/
lemma CountOk.nextDir (h : s.CountOk cfg) (hok : s.Heeded cfg (.makePulses period enable p))
    (hs : s.stepNow period enable p) :
    s.nextDir period enable p = (s.nextAddval period enable p).sign := by
  obtain ⟨hhold, -, hne⟩ := stepNow_run hs
  have hsign : (s.nextAddval period enable p).sign =
      if 0 < s.nextAddval period enable p then 1 else -1 := by
    split_ifs with hgt
    · exact Int.sign_eq_one_of_pos hgt
    · exact Int.sign_eq_neg_one_of_neg (by omega)
  rw [hsign, Stepgen.nextDir, tickTimer_eq]
  by_cases h2 : s.timer2 - period = 0
  · rw [if_pos h2, addvalDir]
    split_ifs <;> omega
  · rw [if_neg h2]
    have hclass := (h.nextAddval hok h2 hhold).resolve_left hne
    rcases h.currDir (by omega) with h1 | h1
    · rw [if_pos (by omega), h1]
    · rw [if_neg (by omega), h1]

/-- A step is made in one of the two directions. -/
lemma CountOk.nextDir_eq (h : s.CountOk cfg) (hok : s.Heeded cfg (.makePulses period enable p))
    (hs : s.stepNow period enable p) :
    s.nextDir period enable p = 1 ∨ s.nextDir period enable p = -1 := by
  rw [h.nextDir hok hs]
  rcases lt_or_gt_of_ne (stepNow_run hs).2.2 with hlt | hgt
  · exact .inr (Int.sign_eq_neg_one_of_neg hlt)
  · exact .inl (Int.sign_eq_one_of_pos hgt)

section Pins

variable (s period enable p)

lemma makePulses_stepDir (h0 : cfg.stepType = 0) :
    (s.makePulses cfg period enable p).phase 0 =
        decide ((s.makePulses cfg period enable p).timer1 ≠ 0) ∧
      (s.makePulses cfg period enable p).phase 1 = decide (s.nextDir period enable p < 0) :=
  StepCore.output_phase_dir h0

lemma makePulses_upDown (h1 : cfg.stepType = 1) :
    (s.makePulses cfg period enable p).phase 0 =
        (decide ((s.makePulses cfg period enable p).timer1 ≠ 0) &&
          !decide (s.nextDir period enable p < 0)) ∧
      (s.makePulses cfg period enable p).phase 1 =
        (decide ((s.makePulses cfg period enable p).timer1 ≠ 0) &&
          decide (s.nextDir period enable p < 0)) :=
  StepCore.output_phase_upDown h1

end Pins

/-- The outputs show the direction of a step. -/
lemma CountOk.signal (h : s.CountOk cfg) (hok : s.Heeded cfg (.makePulses period enable p)) :
    s.signal cfg (.makePulses period enable p) =
      if s.stepNow period enable p then s.nextDir period enable p else 0 := by
  rw [Stepgen.signal]
  split_ifs with hs
  · obtain ⟨hfit, hlen⟩ := hok.1 hs
    obtain ⟨ht1, -, -⟩ := makePulses_timers_of_stepNow cfg hfit hs
    have hdir := h.nextDir_eq hok hs
    by_cases h0 : cfg.stepType = 0
    · obtain ⟨hp0, hp1⟩ := makePulses_stepDir s period enable p h0
      have hne := hlen (by omega)
      rw [shown, if_pos h0, hp0, hp1, ht1, decide_eq_true hne, if_pos rfl]
      rcases hdir with hd | hd <;> rw [hd] <;> rfl
    · by_cases h1 : cfg.stepType = 1
      · obtain ⟨hp0, hp1⟩ := makePulses_upDown s period enable p h1
        have hne := hlen (by omega)
        rw [shown, if_neg h0, if_pos h1, hp0, hp1, ht1, decide_eq_true hne]
        rcases hdir with hd | hd <;> rw [hd] <;> rfl
      · rw [shown, if_neg h0, if_neg h1]
        rfl
  · rfl

/-- The count moves by the signal. -/
lemma CountOk.rawcount_act (h : s.CountOk cfg) (hslow : s.Slow a) (hok : s.Heeded cfg a) :
    (s.act cfg a).rawcount = wrapInt (s.rawcount + s.signal cfg a) ∧
      (s.act cfg a).rawcount = accumCount (s.act cfg a).accum := by
  cases a with
  | disabled =>
    have hcount : s.rawcount = accumCount s.accum := h.rawcount
    refine ⟨?_, hcount⟩
    show s.rawcount = wrapInt (s.rawcount + 0)
    rw [hcount, Int.add_zero, accumCount, wrapInt_wrapInt]
  | makePulses period enable p =>
    rw [h.signal hok]
    show (if !s.nextHold period enable p && enable then
        accumCount (s.nextAccum period enable p) else s.rawcount) =
          wrapInt (s.rawcount + _) ∧
      (if !s.nextHold period enable p && enable then
        accumCount (s.nextAccum period enable p) else s.rawcount) =
          accumCount (s.nextAccum period enable p)
    by_cases hrun : (!s.nextHold period enable p && enable) = true
    · have haccum : s.nextAccum period enable p =
          wrapLong (s.accum + s.nextAddval period enable p) := if_pos hrun
      rw [if_pos hrun, haccum, accumCount_wrapLong, accumCount_add hslow, ← h.rawcount]
      have hstep : s.stepNow period enable p ↔ pickoffBit s.accum ≠
          pickoffBit (s.accum + s.nextAddval period enable p) := by
        rw [Stepgen.stepNow, haccum, pickoffBit_wrapLong]
      refine ⟨?_, rfl⟩
      by_cases hs : s.stepNow period enable p
      · rw [if_pos hs, if_pos (hstep.1 hs), h.nextDir hok hs]
      · rw [if_neg hs, if_neg (mt hstep.2 hs)]
    · have haccum : s.nextAccum period enable p = s.accum := if_neg hrun
      have hs : ¬ s.stepNow period enable p := fun hs => hs (by rw [haccum])
      rw [if_neg hrun, if_neg hs, haccum, Int.add_zero, h.rawcount, accumCount,
        wrapInt_wrapInt]
      exact ⟨rfl, rfl⟩

/-- The index moves by the signal in its cycle. -/
lemma CountOk.state_act (h : s.CountOk cfg) (hok : s.Heeded cfg a) (ht : 2 ≤ cfg.stepType) :
    (s.act cfg a).state ≡ s.state + s.signal cfg a [ZMOD cfg.cycleMax + 1] ∧
      0 ≤ (s.act cfg a).state ∧ (s.act cfg a).state ≤ cfg.cycleMax := by
  obtain ⟨hlo, hhi⟩ := h.state ht
  cases a with
  | disabled =>
    refine ⟨?_, hlo, hhi⟩
    show s.state ≡ s.state + 0 [ZMOD _]
    rw [Int.add_zero]
  | makePulses period enable p =>
    rw [h.signal hok]
    by_cases hs : s.stepNow period enable p
    · have hdir := h.nextDir_eq hok hs
      have hstate : (s.act cfg (.makePulses period enable p)).state =
          if s.state + s.nextDir period enable p < 0 then cfg.cycleMax
          else if cfg.cycleMax < s.state + s.nextDir period enable p then 0
          else s.state + s.nextDir period enable p := by
        simp only [act, makePulses_eq, StepCore.output, StepCore.restart, StepCore.nextState,
          StepCore.tick, decide_eq_true hs, if_true, if_pos ht]
        rfl
      rw [hstate, if_pos hs]
      split_ifs with hneg hover
      -- from the first state back to the last one
      · refine ⟨Int.modEq_iff_add_fac.2 ⟨-1, by omega⟩, by omega, le_refl _⟩
      -- from the last state on to the first one
      · refine ⟨Int.modEq_iff_add_fac.2 ⟨1, by omega⟩, le_refl _, by omega⟩
      · exact ⟨Int.ModEq.refl _, by omega, by omega⟩
    · have hstate : (s.act cfg (.makePulses period enable p)).state = s.state := by
        simp only [act, makePulses_eq, StepCore.output, StepCore.restart, StepCore.tick,
          decide_eq_false hs, Bool.false_eq_true, if_false]
      rw [hstate, if_neg hs, Int.add_zero]
      exact ⟨Int.ModEq.refl _, hlo, hhi⟩

/-- Every step keeps the invariant. -/
lemma CountOk.act (h : s.CountOk cfg) (hslow : s.Slow a) (hok : s.Heeded cfg a) :
    (s.act cfg a).CountOk cfg := by
  have hraw := (h.rawcount_act hslow hok).2
  have hstate ht := (h.state_act hok ht).2
  have hle12 := h.le12
  have hle23 := h.le23
  cases a with
  | disabled =>
    exact ⟨hle12, hle23, h.hold, h.currDir, fun _ => .inr (.inl rfl), hraw, hstate, h.stepDir,
      h.upDown⟩
  | makePulses period enable p =>
    by_cases hs : s.stepNow period enable p
    · obtain ⟨hhold, -, hne⟩ := stepNow_run hs
      obtain ⟨h1, h2, h3⟩ := makePulses_timers_of_stepNow cfg (hok.1 hs).1 hs
      refine ⟨?_, ?_, fun hh => ?_, fun _ => h.nextDir_eq hok hs, fun _ => .inr (.inr ?_), hraw,
        hstate, makePulses_stepDir s period enable p, makePulses_upDown s period enable p⟩
      · rw [Stepgen.act, h1, h2]
        omega
      · rw [Stepgen.act, h2, h3]
        omega
      · rw [show (s.act cfg (.makePulses period enable p)).holdDds = false from hhold] at hh
        cases hh
      · show 0 ≤ s.nextAddval period enable p ↔ s.nextDir period enable p = 1
        rw [h.nextDir hok hs, Int.sign_eq_one_iff_pos]
        omega
    · obtain ⟨h1, h2, h3⟩ := makePulses_timers_of_not_stepNow cfg hs
      have hcurr : s.timer2 - period ≠ 0 → s.nextDir period enable p = s.currDir := by
        intro hne
        rw [Stepgen.nextDir, tickTimer_eq, if_neg hne]
      refine ⟨?_, ?_, fun hh => ?_, fun hne => ?_, fun hne => ?_, hraw, hstate,
        makePulses_stepDir s period enable p, makePulses_upDown s period enable p⟩
      · rw [Stepgen.act, h1, h2]
        omega
      · rw [Stepgen.act, h2, h3]
        omega
      · rw [Stepgen.act, h3]
        exact timer3_of_nextHold h.hold hh
      · rw [Stepgen.act, h2] at hne
        show s.nextDir period enable p = 1 ∨ s.nextDir period enable p = -1
        rw [hcurr hne]
        exact h.currDir (by omega)
      · rw [Stepgen.act, h2] at hne
        show s.nextHold period enable p = true ∨ s.nextAddval period enable p = 0 ∨
          (0 ≤ s.nextAddval period enable p ↔ s.nextDir period enable p = 1)
        rw [hcurr hne, or_iff_not_imp_left, Bool.not_eq_true]
        exact h.nextAddval hok hne

/-- Nothing rises when the new value implies the old one. -/
lemma rise_eq_zero {old new : Bool} (h : new = true → old = true) : rise old new = 0 := by
  cases new with
  | false => rfl
  | true => rw [rise, h rfl]; rfl

lemma rise_false (new : Bool) : rise false new = new.toInt := by cases new <;> rfl

/-- The pins rise with the steps. -/
lemma CountOk.rises (h : s.CountOk cfg) (hok : s.Heeded cfg a) (hlow : s.FromLow a)
    (ht : cfg.stepType < 2) : s.rises cfg a = s.signal cfg a := by
  cases a with
  | disabled =>
    have hstay pin : rise (s.phase pin) ((s.act cfg .disabled).phase pin) = 0 :=
      rise_eq_zero fun hh => hh
    simp only [Stepgen.rises, Stepgen.signal, hstay, Int.zero_mul, Int.sub_zero, ite_self]
  | makePulses period enable p =>
    rw [Stepgen.rises, Stepgen.signal]
    by_cases hs : s.stepNow period enable p
    -- a pulse starts, and none was on
    · have hlow' := hlow hs
      rw [if_pos hs, shown]
      by_cases h0 : cfg.stepType = 0
      · have hp0 : s.phase 0 = false := by
          rw [(h.stepDir h0).1, hlow']
          rfl
        rw [if_pos h0, if_pos h0, hp0, rise_false]
        show ((s.makePulses cfg period enable p).phase 0).toInt *
          (if (s.makePulses cfg period enable p).phase 1 then -1 else 1) = _
        cases (s.makePulses cfg period enable p).phase 0 with
        | false => exact Int.zero_mul _
        | true => exact Int.one_mul _
      · have h1 : cfg.stepType = 1 := by omega
        have hp0 : s.phase 0 = false := by
          rw [(h.upDown h1).1, hlow']
          rfl
        have hp1 : s.phase 1 = false := by
          rw [(h.upDown h1).2, hlow']
          rfl
        rw [if_neg h0, if_neg h0, if_pos h1, hp0, hp1, rise_false, rise_false]
        rfl
    -- a pulse ends or goes on, and the direction with it
    · obtain ⟨ht1, -, -⟩ := makePulses_timers_of_not_stepNow cfg hs
      rw [if_neg hs]
      by_cases h0 : cfg.stepType = 0
      · rw [if_pos h0, Stepgen.act, (makePulses_stepDir s period enable p h0).1,
          (h.stepDir h0).1, ht1, rise_eq_zero, Int.zero_mul]
        intro hh
        have hne := of_decide_eq_true hh
        exact decide_eq_true (by omega)
      · have h1 : cfg.stepType = 1 := by omega
        obtain ⟨hp0, hp1⟩ := makePulses_upDown s period enable p h1
        have hcurr : s.timer1 - period ≠ 0 →
            s.timer1 ≠ 0 ∧ s.nextDir period enable p = s.currDir := by
          intro hne
          have hle := h.le12
          refine ⟨by omega, ?_⟩
          rw [Stepgen.nextDir, tickTimer_eq, if_neg (by omega)]
        rw [if_neg h0, Stepgen.act, hp0, hp1, (h.upDown h1).1, (h.upDown h1).2, ht1,
          rise_eq_zero, rise_eq_zero]
        · rfl
        all_goals
          intro hh
          rw [Bool.and_eq_true] at hh ⊢
          obtain ⟨hne, hdir⟩ := hcurr (of_decide_eq_true hh.1)
          exact ⟨decide_eq_true hne, hdir ▸ hh.2⟩

end Direction

/-! ### Runs -/

/-- What is asked for: `rawcount`, which has 32 bits, changes by the steps that the outputs show,
the index moves by them in its cycle, and where pulses do not merge the rising edges are these
steps. -/
structure Conserved (cfg : StepConfig) (s : Stepgen) (as : List StepgenAct) : Prop where
  rawcount : (runAll (act cfg) s as).rawcount =
    wrapInt (s.rawcount + tally (act cfg) (signal cfg) s as)
  index : 2 ≤ cfg.stepType → (runAll (act cfg) s as).state ≡
    s.state + tally (act cfg) (signal cfg) s as [ZMOD cfg.cycleMax + 1]
  edges : cfg.stepType < 2 → Along (act cfg) FromLow s as →
    tally (act cfg) (rises cfg) s as = tally (act cfg) (signal cfg) s as

end Stepgen

open Stepgen

/-- The steps between two calls of any run whose calls are heeded. -/
theorem stepgen_conserves (cfg : StepConfig) (hcfg : 2 ≤ cfg.stepType → 0 ≤ cfg.cycleMax)
    (as bs : List StepgenAct) (hslow : Along (act cfg) Slow .init (as ++ bs))
    (hok : Along (act cfg) (Heeded cfg) .init (as ++ bs)) :
    Conserved cfg (runAll (act cfg) .init as) bs := by
  have hstep : ∀ {s : Stepgen} {a : StepgenAct}, s.CountOk cfg → s.Slow a ∧ s.Heeded cfg a →
      (s.act cfg a).CountOk cfg := fun h ha => h.act ha.1 ha.2
  obtain ⟨has, hbs⟩ := (along_append _ _ _).1 (hslow.and hok)
  have hmid : (runAll (act cfg) .init as).CountOk cfg := has.invariant hstep (CountOk.init hcfg)
  refine ⟨?_, fun ht => ?_, fun ht hlow => ?_⟩
  · have hmod := tally_modEq (f := fun s => s.rawcount) (w := signal cfg) (n := 2 ^ 32)
      (hbs.imp hstep (fun h ha => by
        rw [(h.rawcount_act ha.1 ha.2).1]
        exact wrapInt_modEq _) hmid)
    have hend := (hbs.invariant hstep hmid).rawcount
    rw [← wrapInt_congr hmod, hend, accumCount, wrapInt_wrapInt]
  · exact tally_modEq (f := fun s => s.state)
      (hbs.imp hstep (fun h ha => (h.state_act ha.2 ht).1) hmid)
  · exact tally_congr ((hbs.and hlow).imp (fun h ha => hstep h ha.1)
      (fun h ha => h.rises ha.1.2 ha.2 ht) hmid)

/-- Step and direction, and a call with long delays and the generator enabled or not. -/
def stepDirConfig : StepConfig := ⟨0, 0, 0, fun _ => 0⟩

def longDelays (enable : Bool) (target : ℤ) : StepgenAct :=
  .makePulses 50000 enable ⟨target, 0, 50000, 5000000, 50000⟩

/-- A step up in the first call, and none in the second. -/
theorem stepgen_conserves_up : Conserved stepDirConfig
    (runAll (act stepDirConfig) .init [longDelays true (2 ^ 27)]) [longDelays true (2 ^ 27)] :=
  stepgen_conserves stepDirConfig (fun h => absurd h (by decide)) [longDelays true (2 ^ 27)]
    [longDelays true (2 ^ 27)] (by decide) (by decide)

/-- After a step down the generator is disabled and enabled again for a step up, while the
direction is still kept for the step down: it is shown as a second step down. -/
theorem stepgen_conserves_reversal : ¬ ∀ (cfg : StepConfig) (as bs : List StepgenAct),
    (2 ≤ cfg.stepType → 0 ≤ cfg.cycleMax) → Along (act cfg) Slow .init (as ++ bs) →
      Conserved cfg (runAll (act cfg) .init as) bs := by
  intro h
  have hslow : Along (act stepDirConfig) Slow .init ([] ++ [longDelays true (-2 ^ 27 - 1),
      .disabled, longDelays false 0, longDelays true (2 ^ 27)]) :=
    by decide
  have hraw := (h _ _ _ (fun ht => absurd ht (by decide)) hslow).rawcount
  exact absurd hraw (by decide)

end MachinekitHal
