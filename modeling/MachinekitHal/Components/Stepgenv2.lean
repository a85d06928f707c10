import MachinekitHal.Lib.Runs
import MachinekitHal.Components.Stepgen
import MachinekitHal.Runtime.TripleBuffer

/-!
`stepgenv2.c`: the step pulse generator with its parameters in a triple buffer, one instance of
`make_pulses` with jitter-correct off.

* `Stepgenv2`: the shared part, the part private to `make_pulses` and the period it assumes.
* `Stepgenv2.deliver`, `Stepgenv2.snapshot`, `Stepgenv2.makePulses`: new parameters, their
  retrieval and one call.
* `StepPair`, `pairStep`: both generators, which get the same calls.
* `StaleDir`: the direction comes from the `addval` of the call before, and that shows.
* `stepgenv2_refines`: without this the pins, accumulator and count are the same;
  `stepgenv2_refines_dir` is a first move with a wrong direction.
-/

namespace MachinekitHal

open Runs Word

/-- `stepgen_t` of `stepgenv2.c`: `mp->mpp` is the index of a buffer, and `periodns` is the
global of that name. -/
structure Stepgenv2 where
  accum : ℤ
  addval : ℤ
  tb : BitVec 8
  tbState : BitVec 8 → MpParams
  mpp : BitVec 8
  mp : StepCore
  periodns : ℕ

namespace Stepgenv2

variable (cfg : StepConfig) (period : ℕ) (enable : Bool) (s : Stepgenv2)

/-- New parameters go to the write buffer, which is flipped. -/
def deliver (p : MpParams) : Stepgenv2 :=
  { s with tbState := Function.update s.tbState (tbWriteIdx s.tb) p
           tb := tbFlipFlags s.tb }

/-- The start of `make_pulses`: a new parameter set is fetched, if there is one. -/
def snapshot : Stepgenv2 :=
  if tbNewData s.tb then
    { s with tb := tbSnapshotFlags s.tb
             mpp := tbSnapIdx (tbSnapshotFlags s.tb)
             periodns := period }
  else s

/-- `make_pulses`, for one instance. -/
def makePulses : Stepgenv2 :=
  let s := s.snapshot period
  -- currently valid parameter set
  let mpp := s.tbState s.mpp
  let c := s.mp.tick s.periodns
  -- update addval (ramping)
  let ramp := !c.holdDds && enable
  let newAddval := if ramp then rampAddval s.addval mpp.targetAddval mpp.deltalim else s.addval
  let addval := if ramp then wrapInt newAddval else s.addval
  let c := c.checkReversal ramp s.addval newAddval
  -- update DDS
  let run := !c.holdDds && enable
  let accum := if run then wrapLong (s.accum + addval) else s.accum
  let stepNow := pickoffBit s.accum ≠ pickoffBit accum
  let c := { c with rawcount := if run then accumCount accum else c.rawcount }
  -- update direction: the updated addval is not yet in the shared state
  let c := c.setDir (if 0 < addval then 1 else if s.addval < 0 then -1 else c.currDir)
  { s with accum, addval, mp := (c.restart cfg mpp stepNow).output cfg }

end Stepgenv2

/-- The parameters that `export_stepgen` sets. -/
def startParams (cfg : StepConfig) : MpParams :=
  ⟨0, 0, 1, 1, if cfg.stepType = 0 then 1 else 0⟩

/-- The instance that `export_stepgen` sets up, with the startup parameters in the triple
buffer. -/
def Stepgenv2.init (cfg : StepConfig) : Stepgenv2 :=
  Stepgenv2.deliver ⟨2 ^ 27, 0, tbInit, fun _ => startParams cfg, tbSnapIdx tbInit,
    Stepgen.init.toStepCore, 50000⟩ (startParams cfg)

/-! ### Both generators -/

/-- A channel of `stepgen.c` with its parameters, and an instance of `stepgenv2.c`. -/
structure StepPair where
  v1 : Stepgen
  params : MpParams
  v2 : Stepgenv2

/-- New parameters, or a call with a level of the enable pin. -/
inductive StepAct where
  | params (p : MpParams)
  | pulses (enable : Bool)

/-- Both get the same. -/
def pairStep (cfg : StepConfig) (period : ℕ) (u : StepPair) : StepAct → Option StepPair
  | .params p => some { u with params := p, v2 := u.v2.deliver p }
  | .pulses enable => some { u with v1 := u.v1.makePulses cfg period enable u.params
                                    v2 := u.v2.makePulses cfg period enable }

def StepPair.init (cfg : StepConfig) : StepPair := ⟨.init, startParams cfg, .init cfg⟩

/-- Parameters of 32 bits, with a limit that is not negative and delays that fit the timers. -/
structure MpParams.Fits (p : MpParams) : Prop where
  target : -2 ^ 31 ≤ p.targetAddval ∧ p.targetAddval < 2 ^ 31
  lim : 0 ≤ p.deltalim ∧ p.deltalim < 2 ^ 31
  delays : Stepgen.DelaysFit p

/-- What `make_pulses` of `stepgenv2.c` has in the same places. -/
def Stepgenv2.view (s : Stepgenv2) : Stepgen := ⟨s.mp, s.addval, s.accum⟩

/-- The call sets the direction from the old `addval` and that shows: in the direction pin of
type 0 when the movement gets negative or stops being so, in the other types when the
movement gets negative and there is a step. -/
def StaleDir (cfg : StepConfig) (period : ℕ) (enable : Bool) (p : MpParams) (s : Stepgen) : Prop :=
  s.timer2 ≤ period ∧ s.currDir ≠ -1 ∧
    ((0 ≤ s.addval ∧ s.nextAddval period enable p < 0 ∧
        (cfg.stepType = 0 ∨ s.stepNow period enable p)) ∨
      (s.addval < 0 ∧ s.nextAddval period enable p = 0 ∧ cfg.stepType = 0))

/-- The calls for which both do the same. -/
def pairOk (cfg : StepConfig) (period : ℕ) (u : StepPair) : StepAct → Prop
  | .params p => p.Fits
  | .pulses enable => ¬ StaleDir cfg period enable u.params u.v2.view

/-- Both are in the same state, but for the direction while it does not show. -/
structure StepRel (cfg : StepConfig) (period : ℕ) (u : StepPair) : Prop where
  view : u.v1 = { u.v2.view with currDir := u.v1.currDir }
  range : -2 ^ 31 ≤ u.v1.addval ∧ u.v1.addval < 2 ^ 31
  /-- the next call has the parameters -/
  params : (u.v2.snapshot period).tbState (u.v2.snapshot period).mpp = u.params ∧
    (u.v2.snapshot period).periodns = period
  fits : u.params.Fits
  dirOk : ∃ d, u.v1.DirOk d
  dir : u.v1.currDir = u.v2.mp.currDir ∨ (cfg.stepType ≠ 0 ∧ u.v1.timer2 = 0 ∧
    ((u.v1.addval < 0 ∧ u.v1.currDir = -1) ∨ (u.v1.addval = 0 ∧ u.v2.mp.currDir = -1)))

/-! ### One call -/

section Call

variable {cfg : StepConfig} {period : ℕ} {enable : Bool} {p : MpParams} {s : Stepgenv2}
  {u u' : StepPair} {c : Stepgen} {dir dir' : ℤ}

/-- New parameters are there for the next call. -/
lemma Stepgenv2.deliver_params :
    ((s.deliver p).snapshot period).tbState ((s.deliver p).snapshot period).mpp = p ∧
      ((s.deliver p).snapshot period).periodns = period := by
  obtain ⟨hclean, -, -, hnew⟩ := tb_flip s.tb
  obtain ⟨-, -, hsnap, -⟩ := tb_snapshot (tbFlipFlags s.tb)
  have hsn : (s.deliver p).snapshot period =
      { s.deliver p with tb := tbSnapshotFlags (tbFlipFlags s.tb)
                         mpp := tbSnapIdx (tbSnapshotFlags (tbFlipFlags s.tb))
                         periodns := period } := if_pos hnew
  rw [hsn]
  refine ⟨?_, rfl⟩
  show Function.update s.tbState (tbWriteIdx s.tb) p (tbSnapIdx _) = p
  rw [hsnap, hclean, Function.update_self]

/-- A snapshot leaves no new data behind. -/
lemma Stepgenv2.snapshot_tb : tbNewData (s.snapshot period).tb = false := by
  rw [snapshot]
  split
  · exact (tb_snapshot s.tb).2.2.2
  · next h => exact Bool.eq_false_of_not_eq_true h

/-- There is nothing to fetch after a call. -/
lemma Stepgenv2.snapshot_makePulses :
    (s.makePulses cfg period enable).snapshot period = s.makePulses cfg period enable := by
  have htb : tbNewData (s.makePulses cfg period enable).tb = false := snapshot_tb (s := s)
  rw [snapshot, if_neg]
  rw [htb]
  exact Bool.false_ne_true

/-- The state of a call, but for the direction, which is `dir`. -/
def Stepgen.coreAfter (cfg : StepConfig) (period : ℕ) (enable : Bool) (p : MpParams) (c : Stepgen)
    (dir : ℤ) : StepCore :=
  (({ c.toStepCore.tick period with
      holdDds := c.nextHold period enable p
      rawcount := if !c.nextHold period enable p && enable then
        accumCount (c.nextAccum period enable p) else c.rawcount
      currDir := dir } : StepCore).restart cfg p (decide (c.stepNow period enable p))).output cfg

/-- The direction does not show if there is no step and no pulse, but in type 0. -/
lemma Stepgen.coreAfter_dir (h0 : cfg.stepType ≠ 0) (hs : ¬ c.stepNow period enable p)
    (h1 : c.timer1 ≤ period) : c.coreAfter cfg period enable p dir =
      { c.coreAfter cfg period enable p dir' with currDir := dir } := by
  have ht : tickTimer period c.timer1 = 0 := by
    rw [tickTimer_eq]
    omega
  simp only [coreAfter, StepCore.output, StepCore.restart, StepCore.tick, decide_eq_false hs, h0,
    ht, Bool.false_eq_true, if_false, ne_eq, not_true_eq_false, false_and, decide_false]

/-- The direction that `stepgenv2.c` has after a call. -/
def nextDirV2 (period : ℕ) (enable : Bool) (p : MpParams) (c : Stepgen) : ℤ :=
  if tickTimer period c.timer2 = 0 then
    if 0 < c.nextAddval period enable p then 1 else if c.addval < 0 then -1 else c.currDir
  else c.currDir

/-- Ramping stays in 32 bits. -/
lemma rampAddval_range (hp : p.Fits) {old : ℤ} (h : -2 ^ 31 ≤ old ∧ old < 2 ^ 31) :
    -2 ^ 31 ≤ rampAddval old p.targetAddval p.deltalim ∧
      rampAddval old p.targetAddval p.deltalim < 2 ^ 31 := by
  obtain ⟨htl, hth⟩ := hp.target
  obtain ⟨hl0, hlh⟩ := hp.lim
  have hadd : wrapLong (old + p.deltalim) = old + p.deltalim := wrapLong_eq (by omega) (by omega)
  have hsub : wrapLong (old - p.deltalim) = old - p.deltalim := wrapLong_eq (by omega) (by omega)
  rw [rampAddval, hadd, hsub]
  split_ifs <;> omega

/-- A snapshot does not touch the rest. -/
lemma Stepgenv2.snapshot_view : (s.snapshot period).view = s.view := by
  rw [snapshot]
  split <;> rfl

lemma Stepgenv2.makePulses_eq (hp : (s.snapshot period).tbState (s.snapshot period).mpp = p)
    (hper : (s.snapshot period).periodns = period) (hfit : p.Fits)
    (hr : -2 ^ 31 ≤ s.addval ∧ s.addval < 2 ^ 31) :
    (s.makePulses cfg period enable).view =
      ⟨s.view.coreAfter cfg period enable p (nextDirV2 period enable p s.view),
        s.view.nextAddval period enable p, s.view.nextAccum period enable p⟩ := by
  have hview : (s.snapshot period).view = s.view := snapshot_view
  rw [makePulses]
  generalize s.snapshot period = t at hp hper hview ⊢
  rw [← hview]
  have haddval : t.addval = s.addval := congrArg Stepgen.addval hview
  rw [← haddval] at hr
  have hramp := rampAddval_range hfit hr
  have hwrap : wrapInt (rampAddval t.addval p.targetAddval p.deltalim) =
      rampAddval t.addval p.targetAddval p.deltalim := wrapInt_eq hramp.1 hramp.2
  have hwrap' : ∀ ramp : Bool, (if ramp then wrapInt (if ramp then
      rampAddval t.addval p.targetAddval p.deltalim else t.addval) else t.addval) =
      if ramp then rampAddval t.addval p.targetAddval p.deltalim else t.addval := by
    intro ramp
    cases ramp with
    | false => rfl
    | true => exact hwrap
  dsimp only
  rw [hp, hper, hwrap']
  rfl

/-- The directions after a call are the same, or they do not show. -/
lemma StepRel.nextDir (h : StepRel cfg period u)
    (hok : pairOk cfg period u (.pulses enable)) :
    u.v1.nextDir period enable u.params = nextDirV2 period enable u.params u.v2.view ∨
      (cfg.stepType ≠ 0 ∧ u.v1.timer2 - period = 0 ∧
        ¬ u.v1.stepNow period enable u.params ∧
        ((u.v1.nextAddval period enable u.params < 0 ∧
            u.v1.nextDir period enable u.params = -1) ∨
          (u.v1.nextAddval period enable u.params = 0 ∧
            nextDirV2 period enable u.params u.v2.view = -1))) := by
  have haddval : u.v2.view.addval = u.v1.addval := by
    rw [h.view]
  have htimer : u.v2.view.timer2 = u.v1.timer2 := by
    rw [h.view]
  have hnext : u.v2.view.nextAddval period enable u.params =
      u.v1.nextAddval period enable u.params := by
    rw [h.view]
    rfl
  have hstep : u.v2.view.stepNow period enable u.params ↔
      u.v1.stepNow period enable u.params := by
    rw [h.view]
    rfl
  have hdir := h.dir
  have hmoves := fun hs : u.v1.stepNow period enable u.params => (Stepgen.stepNow_run hs).2.2
  have hcurr : u.v2.view.currDir = u.v2.mp.currDir := rfl
  rw [pairOk, StaleDir, haddval, htimer, hnext, hstep, hcurr] at hok
  rw [Stepgen.nextDir, nextDirV2, tickTimer_eq, tickTimer_eq, htimer, haddval, hnext, hcurr,
    addvalDir]
  by_cases h2 : u.v1.timer2 - period = 0
  · rw [if_pos h2, if_pos h2]
    have hle : u.v1.timer2 ≤ period := by omega
    rcases lt_trichotomy (u.v1.nextAddval period enable u.params) 0 with hneg | hzero | hpos
    · -- the movement is negative
      rw [if_neg (by omega), if_pos hneg, if_neg (by omega)]
      by_cases hold : u.v1.addval < 0
      · exact .inl (by rw [if_pos hold])
      · rw [if_neg hold]
        by_cases hy : u.v2.mp.currDir = -1
        · exact .inl hy.symm
        · have hnot : ¬ (cfg.stepType = 0 ∨ u.v1.stepNow period enable u.params) :=
            fun hor => hok ⟨hle, hy, .inl ⟨not_lt.1 hold, hneg, hor⟩⟩
          rw [not_or] at hnot
          exact .inr ⟨hnot.1, h2, hnot.2, .inl ⟨hneg, rfl⟩⟩
    · -- there is no movement
      have hno : ¬ u.v1.stepNow period enable u.params := fun hs => hmoves hs hzero
      rw [if_neg (by omega), if_neg (by omega), if_neg (by omega)]
      by_cases hold : u.v1.addval < 0
      · rw [if_pos hold]
        by_cases hx : u.v1.currDir = -1
        · exact .inl hx
        · have hxy : u.v1.currDir = u.v2.mp.currDir := hdir.resolve_right fun h => by omega
          have h0 : cfg.stepType ≠ 0 := fun h0 =>
            hok ⟨hle, by omega, .inr ⟨hold, hzero, h0⟩⟩
          exact .inr ⟨h0, h2, hno, .inr ⟨hzero, rfl⟩⟩
      · rw [if_neg hold]
        rcases hdir with hxy | ⟨h0, -, hx⟩
        · exact .inl hxy
        · exact .inr ⟨h0, h2, hno, .inr ⟨hzero, by omega⟩⟩
    · exact .inl (by rw [if_pos hpos, if_pos hpos])
  · rw [if_neg h2, if_neg h2]
    refine .inl (hdir.resolve_right fun hx => ?_)
    omega

/-- `stepgenv2.c` after a call, from the state of `stepgen.c`. -/
lemma StepRel.makePulses_view (h : StepRel cfg period u) (enable : Bool) :
    (u.v2.makePulses cfg period enable).view =
      ⟨u.v1.coreAfter cfg period enable u.params (nextDirV2 period enable u.params u.v2.view),
        u.v1.nextAddval period enable u.params, u.v1.nextAccum period enable u.params⟩ := by
  obtain ⟨hp, hper⟩ := h.params
  have haddval : u.v2.addval = u.v1.addval := by
    rw [h.view]
    rfl
  rw [Stepgenv2.makePulses_eq hp hper h.fits (haddval ▸ h.range), h.view]
  rfl

/-- Both generators after a call. -/
lemma StepRel.pulses (h : StepRel cfg period u) (hok : pairOk cfg period u (.pulses enable)) :
    StepRel cfg period { u with v1 := u.v1.makePulses cfg period enable u.params
                                v2 := u.v2.makePulses cfg period enable } := by
  obtain ⟨d, hd⟩ := h.dirOk
  have hle := hd.le12
  have hv2 := h.makePulses_view enable
  have hv1 : u.v1.makePulses cfg period enable u.params =
      ⟨u.v1.coreAfter cfg period enable u.params (u.v1.nextDir period enable u.params),
        u.v1.nextAddval period enable u.params, u.v1.nextAccum period enable u.params⟩ := rfl
  have hdir := h.nextDir hok
  refine ⟨?_, ?_, ?_, h.fits, ⟨_, hd.makePulses h.fits.delays⟩, ?_⟩
  · show u.v1.makePulses cfg period enable u.params =
      { (u.v2.makePulses cfg period enable).view with
        currDir := u.v1.nextDir period enable u.params }
    rw [hv2, hv1]
    rcases hdir with heq | ⟨h0, h2, hno, -⟩
    · rw [← heq]
      rfl
    · rw [Stepgen.coreAfter_dir h0 hno (by omega)]
  · show -2 ^ 31 ≤ u.v1.nextAddval period enable u.params ∧
      u.v1.nextAddval period enable u.params < 2 ^ 31
    rw [Stepgen.nextAddval]
    split
    · exact rampAddval_range h.fits h.range
    · exact h.range
  · show ((u.v2.makePulses cfg period enable).snapshot period).tbState _ = u.params ∧ _
    rw [Stepgenv2.snapshot_makePulses]
    exact h.params
  · have hcurr : (u.v2.makePulses cfg period enable).mp.currDir =
        nextDirV2 period enable u.params u.v2.view := congrArg (fun s : Stepgen => s.currDir) hv2
    rcases hdir with heq | ⟨h0, h2, hno, hor⟩
    · exact .inl (heq.trans hcurr.symm)
    · refine .inr ⟨h0, ?_, ?_⟩
      · exact (Stepgen.makePulses_timers_of_not_stepNow cfg hno).2.1.trans h2
      · rw [hcurr]
        exact hor

/-- Every step keeps both in the same state. -/
lemma StepRel.step {a : StepAct} (h : StepRel cfg period u) (hok : pairOk cfg period u a)
    (hs : pairStep cfg period u a = some u') : StepRel cfg period u' := by
  cases a with
  | params p =>
    cases hs
    exact ⟨h.view, h.range, Stepgenv2.deliver_params, hok, h.dirOk, h.dir⟩
  | pulses enable =>
    cases hs
    exact h.pulses hok

/-- Both start in the same state. -/
lemma StepRel.init : StepRel cfg period (.init cfg) := by
  refine ⟨rfl, by norm_num [StepPair.init, Stepgen.init], Stepgenv2.deliver_params, ⟨?_, ?_, ?_⟩,
    ⟨1, .init⟩, .inl rfl⟩
  · norm_num [StepPair.init, startParams]
  · norm_num [StepPair.init, startParams]
  · show 1 + 1 + (if cfg.stepType = 0 then 1 else 0) < 2 ^ 32
    split <;> norm_num

/-- **`stepgenv2.c` and `stepgen.c`.** In every run in which the direction is not set from an
old `addval`, the pins, the accumulator and the count are the same, and a step of
`stepgenv2.c` is made in the direction of the movement. -/
theorem stepgenv2_refines
    (hs : Reach (pairStep cfg period) (pairOk cfg period) (StepPair.init cfg) u) :
    (u.v2.mp.phase = u.v1.phase ∧ u.v2.accum = u.v1.accum ∧
      u.v2.mp.rawcount = u.v1.rawcount) ∧
    ∀ enable, pairOk cfg period u (.pulses enable) →
      pickoffBit u.v2.accum ≠ pickoffBit (u.v2.makePulses cfg period enable).accum →
      (u.v2.makePulses cfg period enable).mp.currDir =
        (u.v2.makePulses cfg period enable).addval.sign := by
  have h : StepRel cfg period u :=
    hs.invariant (P := StepRel cfg period) .init fun h hok hs => h.step hok hs
  refine ⟨⟨?_, ?_, ?_⟩, fun enable hok hstep => ?_⟩
  · rw [h.view]
    rfl
  · rw [h.view]
    rfl
  · rw [h.view]
    rfl
  · have hv2 := h.makePulses_view enable
    obtain ⟨d, hd⟩ := h.dirOk
    have haccum : u.v2.accum = u.v1.accum := by
      rw [h.view]
      rfl
    have hnext : (u.v2.makePulses cfg period enable).accum =
        u.v1.nextAccum period enable u.params := congrArg Stepgen.accum hv2
    rw [haccum, hnext] at hstep
    have hdir : nextDirV2 period enable u.params u.v2.view =
        u.v1.nextDir period enable u.params := by
      rcases h.nextDir hok with heq | ⟨-, -, hno, -⟩
      · exact heq.symm
      · exact absurd hstep hno
    calc (u.v2.makePulses cfg period enable).mp.currDir
        = nextDirV2 period enable u.params u.v2.view :=
          congrArg (fun s : Stepgen => s.currDir) hv2
      _ = u.v1.nextDir period enable u.params := hdir
      _ = (u.v1.nextAddval period enable u.params).sign := (hd.stepNow hstep).1
      _ = (u.v2.makePulses cfg period enable).addval.sign :=
          congrArg Int.sign (congrArg Stepgen.addval hv2).symm

end Call

/-! ### A first move -/

instance (p : MpParams) : Decidable p.Fits :=
  decidable_of_iff ((-2 ^ 31 ≤ p.targetAddval ∧ p.targetAddval < 2 ^ 31) ∧
    (0 ≤ p.deltalim ∧ p.deltalim < 2 ^ 31) ∧ p.stepLen + p.dirHoldDly + p.dirSetup < 2 ^ 32)
    ⟨fun h => ⟨h.1, h.2.1, h.2.2⟩, fun h => ⟨h.target, h.lim, h.delays⟩⟩

instance (cfg : StepConfig) (period : ℕ) (u : StepPair) (a : StepAct) :
    Decidable (pairOk cfg period u a) :=
  match a with
  | .params p => inferInstanceAs (Decidable p.Fits)
  | .pulses _ => inferInstanceAs (Decidable (¬ (_ ∧ _ ∧ _)))

/-- Quadrature. -/
def quadrature : StepConfig := ⟨2, 3, 2, fun i => [1, 3, 2, 0].getD i.toNat 0⟩

/-- Steps forwards, and after a pause one backwards, some calls after the direction changes. -/
def forthAndBack : List StepAct :=
  [.params ⟨200000000, 0, 1000, 1000, 0⟩, .pulses true, .pulses true, .pulses true,
    .params ⟨0, 0, 1000, 1000, 0⟩, .pulses true, .pulses true, .pulses true,
    .params ⟨-60000000, 0, 1000, 1000, 0⟩, .pulses true, .pulses true, .pulses true, .pulses true]

/-- Both versions step forth and back. -/
theorem stepgenv2_refines_forthAndBack : ∃ u : StepPair,
    u.v1.rawcount = 1 ∧ u.v1.state = 1 ∧ u.v2.mp.rawcount = u.v1.rawcount ∧
      u.v2.mp.phase = u.v1.phase ∧ u.v2.mp.currDir = -1 ∧
      pairOk quadrature 1000 u (.pulses true) := by
  have hv : (run (pairStep quadrature 1000) (fun u a => decide (pairOk quadrature 1000 u a))
      (StepPair.init quadrature) forthAndBack).map (fun u => (u.v1.rawcount, u.v1.state,
        u.v2.mp.currDir, decide (pairOk quadrature 1000 u (.pulses true)))) =
      some (1, 1, -1, true) := by decide
  obtain ⟨u, -, he, hr⟩ := run_map hv
  obtain ⟨hcount, hstate, hdir, hok⟩ : u.v1.rawcount = 1 ∧ u.v1.state = 1 ∧
      u.v2.mp.currDir = -1 ∧ decide (pairOk quadrature 1000 u (.pulses true)) = true := by
    simpa only [Prod.mk.injEq] using he
  obtain ⟨⟨hphase, -, hraw⟩, -⟩ := stepgenv2_refines
    (hr.mono fun hok => of_decide_eq_true hok)
  exact ⟨u, hcount, hstate, hraw, hphase, hdir, of_decide_eq_true hok⟩

/-- A first move in the negative direction: only `stepgen.c` has it on the direction pin. -/
theorem stepgenv2_refines_dir : ¬ ∀ u : StepPair,
    Reach (pairStep ⟨0, 0, 0, fun _ => 0⟩ 1000) (fun _ _ => True) (.init ⟨0, 0, 0, fun _ => 0⟩) u →
      u.v2.mp.phase 1 = u.v1.phase 1 := by
  intro h
  have hv : (run (pairStep ⟨0, 0, 0, fun _ => 0⟩ 1000) (fun _ _ => true)
      (.init ⟨0, 0, 0, fun _ => 0⟩) [.params ⟨-1000, 0, 1000, 1000, 1000⟩, .pulses true]).map
      (fun u => (u.v1.phase 1, u.v2.mp.phase 1)) = some (true, false) := by decide
  obtain ⟨u, -, he, hr⟩ := run_map hv
  obtain ⟨h1, h2⟩ := Prod.mk.inj he
  have heq := h u (hr.mono fun _ => trivial)
  rw [h1, h2] at heq
  cases heq

end MachinekitHal
