import MachinekitHal.Components.EncoderQuadrature
import MachinekitHal.Components.StepgenCounts

/-!
A step generator of `stepgen.c` with quadrature outputs, wired to an encoder of `encoder.c`.

* `StepConfig.ofType`: what `export_stepgen` sets for the types from 2 to 14.
* `QuadGen`, `stepgenSource`: the generator with its net steps, as a source.
* `QuadGen.Fits`: the frequency is less than a step a call, no reversal is missed, and the first
  call makes no step forward.
* `QuadInv`: the count, the index and the outputs against the net steps.
* `encoder_follows_stepgen`: the raw counts of the encoder and of the generator, in every run in
  which the encoder samples between two calls of `make_pulses`.
-/

namespace MachinekitHal

open Quadrature Runs Stepgen Word

/-- `master_lut`, for the types from 2 to 14. -/
def masterLut : List (List ℕ) := [
  [1, 3, 2, 0, 0, 0, 0, 0, 0, 0], [1, 2, 4, 0, 0, 0, 0, 0, 0, 0], [1, 3, 2, 6, 4, 5, 0, 0, 0, 0],
  [1, 2, 4, 8, 0, 0, 0, 0, 0, 0], [3, 6, 12, 9, 0, 0, 0, 0, 0, 0], [1, 7, 14, 8, 0, 0, 0, 0, 0, 0],
  [5, 6, 10, 9, 0, 0, 0, 0, 0, 0], [1, 3, 2, 6, 4, 12, 8, 9, 0, 0],
  [1, 5, 7, 6, 14, 10, 8, 9, 0, 0], [1, 2, 4, 8, 16, 0, 0, 0, 0, 0],
  [3, 6, 12, 24, 17, 0, 0, 0, 0, 0], [1, 3, 2, 6, 4, 12, 8, 24, 16, 17],
  [3, 7, 6, 14, 12, 28, 24, 25, 17, 19]]

/-- `cycle_len_lut` and `num_phases_lut`. -/
def cycleLenLut : List ℕ := [4, 3, 6, 4, 4, 4, 4, 8, 8, 5, 5, 10, 10, 0]
def numPhasesLut : List ℕ := [2, 3, 3, 4, 4, 4, 4, 4, 4, 5, 5, 5, 5, 0]

/-- What `export_stepgen` sets, for the types with a table. -/
def StepConfig.ofType (stepType : ℕ) : StepConfig where
  stepType := stepType
  cycleMax := cycleLenLut.getD (stepType - 2) 0 - 1
  numPhases := numPhasesLut.getD (stepType - 2) 0
  lut state := (masterLut.getD (stepType - 2) []).getD state.toNat 0

/-- Quadrature. -/
def quadratureConfig : StepConfig := .ofType 2

/-! ### The generator as a source -/

/-- The generator. History: whether `make_pulses` has been called, and the net steps. -/
structure QuadGen where
  gen : Stepgen
  started : Bool
  steps : ℤ

namespace QuadGen

variable (s : QuadGen)

/-- The step of a call. -/
def stepOf (period : ℕ) (enable : Bool) (p : MpParams) : ℤ :=
  if s.gen.stepNow period enable p then (s.gen.nextAddval period enable p).sign else 0

/-- `make_pulses`, or `update_freq` for a generator that is not enabled. -/
def act : StepgenAct → QuadGen
  | .makePulses period enable p =>
    { gen := s.gen.makePulses quadratureConfig period enable p
      started := true
      steps := s.steps + s.stepOf period enable p }
  | .disabled => { s with gen := s.gen.act quadratureConfig .disabled }

/-- The place of the outputs in their cycle; they are off until the first call. -/
def place : ℤ := if s.started then s.steps + 1 else 0

/-- What is asked of a call. -/
def Fits : StepgenAct → Prop
  | .makePulses period enable p =>
    s.gen.Slow (.makePulses period enable p) ∧
    s.gen.Heeded quadratureConfig (.makePulses period enable p) ∧
    (s.started = false → s.stepOf period enable p ≤ 0)
  | .disabled => True

instance : ∀ a, Decidable (s.Fits a)
  | .makePulses .. => inferInstanceAs (Decidable (_ ∧ _ ∧ _))
  | .disabled => inferInstanceAs (Decidable True)

end QuadGen

/-- The generator with its outputs. -/
def stepgenSource : Source QuadGen StepgenAct where
  step s a := some (s.act a)
  pulses a := match a with
    | .makePulses .. => true
    | .disabled => false
  phases s := (s.gen.phase 0, s.gen.phase 1)

/-- Both components at the start. -/
def stepgenEncoder : WiredSys QuadGen := ⟨⟨.init, false, 0⟩, .init, false⟩

/-! ### One call -/

section Call

variable {s : Stepgen} {period : ℕ} {enable : Bool} {p : MpParams} {n : ℤ}

/-- The outputs show the index. -/
lemma place_quadrature (h0 : 0 ≤ n) (h4 : n < 4) :
    place ((quadratureConfig.lut n).testBit 0, (quadratureConfig.lut n).testBit 1)
      = (n + 1) % 4 := by
  obtain rfl | rfl | rfl | rfl : n = 0 ∨ n = 1 ∨ n = 2 ∨ n = 3 := by omega
  all_goals decide

lemma makePulses_phase {pin : ℕ} (hpin : pin < 2) :
    (s.makePulses quadratureConfig period enable p).phase pin =
      (quadratureConfig.lut (s.makePulses quadratureConfig period enable p).state).testBit pin := by
  have hphases : quadratureConfig.numPhases = 2 := rfl
  have htype : quadratureConfig.stepType = 2 := rfl
  simp only [makePulses_eq, StepCore.output, htype, hphases, hpin, if_true, OfNat.ofNat_ne_zero,
    OfNat.ofNat_ne_one, if_false]

/-- The step of a call is the one its outputs show. -/
lemma signal_quadrature (h : s.CountOk quadratureConfig)
    (hok : s.Heeded quadratureConfig (.makePulses period enable p)) :
    s.signal quadratureConfig (.makePulses period enable p) =
      if s.stepNow period enable p then (s.nextAddval period enable p).sign else 0 := by
  rw [h.signal hok]
  split_ifs with hs
  · exact h.nextDir hok hs
  · rfl

end Call

/-- The invariant. -/
structure QuadInv (s : QuadGen) : Prop where
  count : s.gen.CountOk quadratureConfig
  rawcount : s.gen.rawcount = wrapInt s.steps
  state : s.gen.state = s.steps % 4
  fresh : s.started = false → s.steps = 0
  phases : place (s.gen.phase 0, s.gen.phase 1) = s.place % 4

section Step

variable {s : QuadGen} {period : ℕ} {enable : Bool} {p : MpParams}

lemma QuadInv.init : QuadInv stepgenEncoder.src where
  count := CountOk.init fun _ => by decide
  rawcount := by decide
  state := by decide
  fresh _ := rfl
  phases := by decide

/-- A step goes one place at most. -/
lemma stepOf_le (s : QuadGen) (period : ℕ) (enable : Bool) (p : MpParams) :
    -1 ≤ s.stepOf period enable p ∧ s.stepOf period enable p ≤ 1 := by
  rw [QuadGen.stepOf]
  split_ifs
  · rcases lt_trichotomy (s.gen.nextAddval period enable p) 0 with hlt | h0 | hgt
    · rw [Int.sign_eq_neg_one_of_neg hlt]
      decide
    · rw [h0]
      decide
    · rw [Int.sign_eq_one_of_pos hgt]
      decide
  · decide

/-- A call of `make_pulses` counts its step and moves the index by it. -/
lemma QuadInv.makePulses (h : QuadInv s) (hok : s.Fits (.makePulses period enable p)) :
    QuadInv (s.act (.makePulses period enable p)) := by
  obtain ⟨hslow, hheed, -⟩ := hok
  obtain ⟨hlow, hhigh⟩ := stepOf_le s period enable p
  have hsignal : s.gen.signal quadratureConfig (.makePulses period enable p)
      = s.stepOf period enable p := signal_quadrature h.count hheed
  have hraw := (h.count.rawcount_act hslow hheed).1
  rw [hsignal, h.rawcount, wrapInt_add] at hraw
  obtain ⟨hmod, h0, h3⟩ := h.count.state_act hheed le_rfl
  have hcycle : quadratureConfig.cycleMax = 3 := rfl
  rw [hsignal, h.state, hcycle] at hmod
  rw [hcycle] at h3
  have hstate : (s.gen.act quadratureConfig (.makePulses period enable p)).state
      = (s.steps + s.stepOf period enable p) % 4 := by
    have hmod4 : (s.gen.act quadratureConfig (.makePulses period enable p)).state % 4
        = (s.steps % 4 + s.stepOf period enable p) % 4 := hmod
    omega
  refine ⟨h.count.act hslow hheed, hraw, hstate, fun hf => absurd hf.symm Bool.false_ne_true, ?_⟩
  show place ((s.gen.makePulses quadratureConfig period enable p).phase 0,
    (s.gen.makePulses quadratureConfig period enable p).phase 1)
      = (s.steps + s.stepOf period enable p + 1) % 4
  rw [makePulses_phase (by decide), makePulses_phase (by decide)]
  refine (place_quadrature h0 (by omega)).trans ?_
  rw [hstate, Int.emod_add_emod]

/-- The first call can only go from off to the start of the cycle; a later one goes one place. -/
lemma QuadInv.place_act (h : QuadInv s) (hok : s.Fits (.makePulses period enable p)) :
    s.place - 1 ≤ (s.act (.makePulses period enable p)).place ∧
      (s.act (.makePulses period enable p)).place ≤ s.place + 1 := by
  obtain ⟨hlow, hhigh⟩ := stepOf_le s period enable p
  have hnext : (s.act (.makePulses period enable p)).place
      = s.steps + s.stepOf period enable p + 1 := if_pos rfl
  rw [hnext, QuadGen.place]
  cases hstarted : s.started with
  | true =>
    rw [if_pos rfl]
    omega
  | false =>
    have hzero := h.fresh hstarted
    have hback := hok.2.2 hstarted
    rw [if_neg Bool.false_ne_true]
    omega

/-- The generator is a source at these places. -/
lemma stepgenSource_law : stepgenSource.Law QuadGen.Fits QuadInv QuadGen.place where
  keep {s t a} h hok hs := by
    cases hs
    cases a with
    | makePulses period enable p => exact h.makePulses hok
    | disabled =>
      exact ⟨h.count.act (a := .disabled) trivial trivial, h.rawcount, h.state, h.fresh, h.phases⟩
  place h := h.phases
  near {s t a} h hok hs := by
    cases hs
    cases a with
    | makePulses period enable p => exact h.place_act hok
    | disabled =>
      show s.place - 1 ≤ s.place ∧ s.place ≤ s.place + 1
      omega
  still {s t a} h hok hs hpulses := by
    cases hs
    cases a with
    | makePulses period enable p => exact absurd hpulses.symm Bool.false_ne_true
    | disabled => rfl

end Step

/-! ### Runs -/

/-- In every run the generator counts its net steps, and once it has been called the encoder has
counted one edge more, or the cycles that these edges begin; between a call and the next sample it
is at most one edge away. -/
theorem encoder_follows_stepgen {x4 : Bool} {s : WiredSys QuadGen}
    (hr : Reach stepgenSource.wire (Source.Fits QuadGen.Fits x4) stepgenEncoder s) :
    s.src.gen.rawcount = wrapInt s.src.steps ∧
    (s.src.started = true → ∃ n : ℤ, |s.src.steps + 1 - n| ≤ 1 ∧
      (s.due = false → n = s.src.steps + 1) ∧
      s.enc.rawCounts = wrapInt (if x4 then n else ⌈(n : ℚ) / 4⌉)) := by
  obtain ⟨hinv, hfollows⟩ := stepgenSource_law.follows .init rfl hr
  refine ⟨hinv.rawcount, fun hstarted => ?_⟩
  have hplace : s.src.place = s.src.steps + 1 := if_pos hstarted
  rwa [hplace] at hfollows

/-- A call that goes a quarter of a step, or half a step, with the generator enabled. -/
def quarterStep : WiredAct StepgenAct :=
  .source (.makePulses 50000 true ⟨2 ^ 26, 0, 50000, 50000, 0⟩)

def halfStep : WiredAct StepgenAct := .source (.makePulses 50000 true ⟨2 ^ 27, 0, 50000, 50000, 0⟩)

/-- After one step the encoder has counted two edges. -/
theorem encoder_follows_stepgen_one : ∃ s : WiredSys QuadGen,
    run stepgenSource.wire (fun s a => decide (Source.Fits QuadGen.Fits true s a)) stepgenEncoder
      [quarterStep, .sample (.at true (false, false)), halfStep, .encoder .capture,
        .sample (.at true (false, false))] = some s ∧
    s.src.gen.rawcount = 1 ∧ s.enc.rawCounts = 2 := by
  have hrun : (run stepgenSource.wire (fun s a => decide (Source.Fits QuadGen.Fits true s a))
      stepgenEncoder [quarterStep, .sample (.at true (false, false)), halfStep, .encoder .capture,
        .sample (.at true (false, false))]).map (fun s => (s.src.steps, s.src.started, s.due)) =
      some (1, true, false) := by decide
  obtain ⟨s, hs, hfields, hr⟩ := run_map hrun
  obtain ⟨hsteps, hstarted, hdue⟩ : s.src.steps = 1 ∧ s.src.started = true ∧ s.due = false := by
    simpa using hfields
  obtain ⟨hgen, henc⟩ := @encoder_follows_stepgen true s
    (hr.mono fun hok => of_decide_eq_true hok)
  obtain ⟨n, -, hsync, hraw⟩ := henc hstarted
  rw [hsteps] at hgen hsync
  rw [hsync hdue, if_pos rfl] at hraw
  exact ⟨s, hs, hgen.trans (by decide), hraw.trans (by decide)⟩

end MachinekitHal
