import MachinekitHal.Components.Encoder
import MachinekitHal.Lib.Folds
import MachinekitHal.Lib.Quadrature

/-!
Quadrature decoding of `encoder.c`.

* `sampleBits`: the bits of the state that keep the last sample; `decode_quadrature`: both
  tables keep them, and count the edges or the cycles.
* `QuadRun`: runs with the counter mode off, `capture` and other inputs in between;
  `QuadRun.raw_x4` and `QuadRun.raw_x1`: the raw counts after a run in one mode.
* `raw_counts_quadrature`: the decoding law; `raw_counts_wrap`: the count is an `int`.
* `CountsFollow`: the raw counts are those of a source; `CountsFollow.update` and
  `CountsFollow.other`: they are as long as the source goes at most one place between two samples.
* `Source`, `Source.wire`: a source that is wired to the encoder; `Source.Law.follows`: the encoder
  follows a source whose calls go at most one place.
-/

namespace MachinekitHal

open Folds Runs Word Quadrature

/-- The sample that `update` reads. -/
def EncInput.sample (i : EncInput) : Bool × Bool := (i.phaseA, i.phaseB)

/-- The bits of the state that keep the last sample. -/
def sampleBits (p : Bool × Bool) : ℕ := (if p.1 then 0x04 else 0) ||| if p.2 then 0x08 else 0

/-- What `update` reads in a run. -/
def encInputs (as : List EncAct) : List EncInput :=
  as.filterMap fun a => match a with
    | .update i => some i
    | _ => none

/-- The samples of a run, and the last one of them, which is `00` at the start. -/
def encSamples (as : List EncAct) : List (Bool × Bool) := (encInputs as).map EncInput.sample
def lastSample (as : List EncAct) : Bool × Bool :=
  ((false, false) :: encSamples as).getLast (List.cons_ne_nil _ _)

/-- A run for quadrature signals: the counter mode is off. -/
structure QuadRun (s : EncSys) (as : List EncAct) (t : EncSys) : Prop where
  state : s.state = 0
  rawCounts : s.rawCounts = 0
  counterMode : ∀ i ∈ encInputs as, i.counterMode = false
  run : as.foldlM encStep s = some t

/-- All calls of `update` find this level of `x4_mode`. -/
def X4Mode (x4 : Bool) (as : List EncAct) : Prop := ∀ i ∈ encInputs as, i.x4Mode = x4

/-! ### One sample -/

/-- The table of a mode, and the bits of the sample in the index. -/
def quadLut (x4 : Bool) : List ℕ := if x4 then lutX4 else lutX1
def inputBits (q : Bool × Bool) : ℕ := (if q.1 then 0x01 else 0) ||| if q.2 then 0x02 else 0

/-- At the last sample `p` and the sample `q` the tables keep `q`, and count. -/
lemma quadLut_spec (x4 : Bool) (p q : Bool × Bool) :
    (quadLut x4).getD (sampleBits p ||| inputBits q) 0 &&& 0x0F = sampleBits q ∧
      countOf ((quadLut x4).getD (sampleBits p ||| inputBits q) 0) =
        if x4 then edge p q else cycleEdge p q := by
  revert x4 p q
  decide

/-- The index into the tables, at a state that keeps `p`. -/
lemma quadIndex {state : ℕ} {p : Bool × Bool} (hp : state &&& 0x0F = sampleBits p) (a b : Bool) :
    (if b then (if a then state ||| 0x01 else state) ||| 0x02
      else if a then state ||| 0x01 else state) &&& 0x0F = sampleBits p ||| inputBits (a, b) := by
  have hbits : ∀ m : ℕ, (state ||| m) &&& 0x0F = sampleBits p ||| m &&& 0x0F := by
    intro m
    rw [Nat.and_or_distrib_right, hp]
  cases a <;> cases b
  · exact hp.trans (Nat.or_zero _).symm
  · exact hbits 0x02
  · exact hbits 0x01
  · show (state ||| 0x01 ||| 0x02) &&& 0x0F = _
    rw [Nat.or_assoc]
    exact hbits _

/-- The tables, at a state that keeps `p`. -/
lemma decode_quadrature {i : EncInput} {state : ℕ} {p : Bool × Bool}
    (hctr : i.counterMode = false) (hp : state &&& 0x0F = sampleBits p) :
    i.decode state &&& 0x0F = sampleBits i.sample ∧
      countOf (i.decode state) = if i.x4Mode then edge p i.sample else cycleEdge p i.sample := by
  have hdecode : i.decode state =
      (quadLut i.x4Mode).getD (sampleBits p ||| inputBits i.sample) 0 := by
    obtain ⟨a, b, _, x4, _, _, _, _⟩ := i
    obtain rfl : _ = false := hctr
    cases x4 <;> exact congrArg (fun k => List.getD _ k 0) (quadIndex hp a b)
  rw [hdecode]
  exact quadLut_spec _ _ _

section Step

variable {s t : EncSys} {a : EncAct} {p : Bool × Bool} {i : EncInput}

/-- Only `update` changes the state and the raw counts. -/
lemma encStep_other (ha : ∀ i, a ≠ .update i) (h : encStep s a = some t) :
    t.state = s.state ∧ t.rawCounts = s.rawCounts := by
  cases a with
  | update i => exact absurd rfl (ha i)
  | raise => obtain rfl := Option.some.inj h; exact ⟨rfl, rfl⟩
  | reset level => obtain rfl := Option.some.inj h; exact ⟨rfl, rfl⟩
  | capture =>
    cases h
    rw [EncSys.capture]
    split
    · exact ⟨rfl, rfl⟩
    · exact ⟨rfl, rfl⟩
    · next buf stage _ => cases stage <;> exact ⟨rfl, rfl⟩

/-- `update`: the sample is kept, and the edge or the cycle is counted. -/
lemma encStep_update (hctr : i.counterMode = false) (hp : s.state &&& 0x0F = sampleBits p)
    (hraw : wrapInt s.rawCounts = s.rawCounts) (h : encStep s (.update i) = some t) :
    t.state &&& 0x0F = sampleBits i.sample ∧
      t.rawCounts = wrapInt (s.rawCounts +
        if i.x4Mode then edge p i.sample else cycleEdge p i.sample) := by
  cases h
  obtain ⟨hbits, hcount⟩ := decode_quadrature hctr hp
  refine ⟨hbits, ?_⟩
  rw [← hcount]
  show (if countOf (i.decode s.state) ≠ 0 then _ else _) = _
  by_cases h0 : countOf (i.decode s.state) ≠ 0
  · rw [if_pos h0]
  · rw [if_neg h0, not_not.1 h0, Int.add_zero, hraw]

end Step

/-! ### Runs -/

section Run

variable {s t u : EncSys} {as : List EncAct} {p : Bool × Bool} {n : ℤ}

/-- From a state that keeps `p`: the sum of the edges and of the cycles. -/
lemma encStep_run {x4 : Bool} (hctr : ∀ i ∈ encInputs as, i.counterMode = false)
    (hx4 : X4Mode x4 as) (hp : s.state &&& 0x0F = sampleBits p) (hraw : s.rawCounts = wrapInt n)
    (h : as.foldlM encStep s = some t) :
    t.rawCounts = wrapInt (n + if x4 then net p (encSamples as)
      else netCycles p (encSamples as)) := by
  induction as generalizing s p n with
  | nil =>
    obtain rfl : s = t := Option.some.inj h
    have h0 : (if x4 then net p (encSamples []) else netCycles p (encSamples [])) = 0 := by
      cases x4 <;> rfl
    rw [h0, Int.add_zero, hraw]
  | cons a as ih =>
    obtain ⟨s', hs', ht⟩ : ∃ s', encStep s a = some s' ∧ as.foldlM encStep s' = some t := by
      rw [List.foldlM_cons] at h
      exact Option.bind_eq_some_iff.1 h
    cases a with
    | update i =>
      have hi : i ∈ encInputs (.update i :: as) := (.head _)
      have hwrap : wrapInt s.rawCounts = s.rawCounts := by rw [hraw, wrapInt_wrapInt]
      obtain ⟨hp', hraw'⟩ := encStep_update (hctr i hi) hp hwrap hs'
      rw [hraw, wrapInt_add, hx4 i hi] at hraw'
      rw [ih (fun j hj => hctr j (.tail _ hj))
        (fun j hj => hx4 j (.tail _ hj)) hp' hraw' ht, Int.add_assoc]
      cases x4 <;> rfl
    | raise =>
      obtain ⟨hst, hr⟩ := encStep_other (by intro i; exact EncAct.noConfusion) hs'
      exact ih hctr hx4 (hst ▸ hp) (hr.trans hraw) ht
    | reset level =>
      obtain ⟨hst, hr⟩ := encStep_other (by intro i; exact EncAct.noConfusion) hs'
      exact ih hctr hx4 (hst ▸ hp) (hr.trans hraw) ht
    | capture =>
      obtain ⟨hst, hr⟩ := encStep_other (by intro i; exact EncAct.noConfusion) hs'
      exact ih hctr hx4 (hst ▸ hp) (hr.trans hraw) ht

/-- In both modes the state keeps the last sample. -/
lemma encStep_keeps (hctr : ∀ i ∈ encInputs as, i.counterMode = false)
    (hp : s.state &&& 0x0F = sampleBits p) (hraw : wrapInt s.rawCounts = s.rawCounts)
    (h : as.foldlM encStep s = some t) :
    t.state &&& 0x0F = sampleBits ((p :: encSamples as).getLast (List.cons_ne_nil _ _)) ∧
      wrapInt t.rawCounts = t.rawCounts := by
  induction as generalizing s p with
  | nil =>
    obtain rfl : s = t := Option.some.inj h
    exact ⟨hp, hraw⟩
  | cons a as ih =>
    obtain ⟨s', hs', ht⟩ : ∃ s', encStep s a = some s' ∧ as.foldlM encStep s' = some t := by
      rw [List.foldlM_cons] at h
      exact Option.bind_eq_some_iff.1 h
    by_cases ha : ∃ i, a = .update i
    · obtain ⟨i, rfl⟩ := ha
      obtain ⟨hp', hraw'⟩ := encStep_update (hctr i (.head _)) hp hraw hs'
      have hwrap : wrapInt s'.rawCounts = s'.rawCounts := by rw [hraw', wrapInt_wrapInt]
      exact ih (fun j hj => hctr j (.tail _ hj)) hp' hwrap ht
    · obtain ⟨hst, hr⟩ := encStep_other (fun i hi => ha ⟨i, hi⟩) hs'
      have hin : encInputs (a :: as) = encInputs as := by
        cases a with
        | update i => exact absurd ⟨i, rfl⟩ ha
        | _ => rfl
      rw [encSamples, hin]
      exact ih (hin ▸ hctr) (hst ▸ hp) (hr ▸ hraw) ht

/-- The state at the start keeps `00`. -/
lemma QuadRun.keeps_init (h : QuadRun s as t) : s.state &&& 0x0F = sampleBits (false, false) := by
  rw [h.state]
  decide

/-- The raw counts after a run in one mode. -/
lemma QuadRun.raw_x4 (h : QuadRun s as t) (hx4 : X4Mode true as) :
    t.rawCounts = wrapInt (net (false, false) (encSamples as)) := by
  have hraw := encStep_run h.counterMode hx4 h.keeps_init (n := 0) h.rawCounts h.run
  rwa [Int.zero_add, if_pos rfl] at hraw

lemma QuadRun.raw_x1 (h : QuadRun s as t) (hx4 : X4Mode false as) :
    t.rawCounts = wrapInt (netCycles (false, false) (encSamples as)) := by
  have hraw := encStep_run h.counterMode hx4 h.keeps_init (n := 0) h.rawCounts h.run
  rwa [Int.zero_add, if_neg Bool.false_ne_true] at hraw

end Run

/-! ### The decoding law -/

/-- Quadrature decoding: while at most one phase changes from one sample to the next, the raw
counts in x4 mode are the net number of edges as an `int`, and those in x1 mode are the ceiling
of a quarter of it; a sample in which both phases change is not counted in either mode. -/
theorem raw_counts_quadrature {s₄ t₄ s₁ t₁ s t t' : EncSys} {as₄ as₁ as : List EncAct}
    {i : EncInput} (h₄ : QuadRun s₄ as₄ t₄) (hx4 : X4Mode true as₄)
    (h₁ : QuadRun s₁ as₁ t₁) (hx1 : X4Mode false as₁) (hsame : encSamples as₁ = encSamples as₄)
    (hbit : ((false, false) :: encSamples as₄).IsChain OneBit)
    (h : QuadRun s as t) (hi : i.counterMode = false) (hstep : encStep t (.update i) = some t') :
    t₄.rawCounts = wrapInt (net (false, false) (encSamples as₄)) ∧
    t₁.rawCounts = wrapInt ⌈(net (false, false) (encSamples as₄) : ℚ) / 4⌉ ∧
    (-2 ^ 31 ≤ net (false, false) (encSamples as₄) →
      net (false, false) (encSamples as₄) < 2 ^ 31 →
      t₄.rawCounts = net (false, false) (encSamples as₄) ∧
        t₁.rawCounts = ⌈(t₄.rawCounts : ℚ) / 4⌉) ∧
    (¬ OneBit (lastSample as) i.sample → t'.rawCounts = t.rawCounts) := by
  have hraw₄ := h₄.raw_x4 hx4
  have hraw₁ : t₁.rawCounts = wrapInt ⌈(net (false, false) (encSamples as₄) : ℚ) / 4⌉ := by
    rw [h₁.raw_x1 hx1, hsame, netCycles_eq_ceil hbit]
  refine ⟨hraw₄, hraw₁, fun h0 hlt => ?_, fun hjump => ?_⟩
  · have hnet : t₄.rawCounts = net (false, false) (encSamples as₄) := by
      rw [hraw₄, wrapInt_eq h0 hlt]
    have hlow : -2 ^ 31 ≤ ⌈(net (false, false) (encSamples as₄) : ℚ) / 4⌉ := by
      rw [← netCycles_eq_ceil hbit, netCycles_eq hbit]
      show _ ≤ (0 + _ + 3) / 4 - (0 + 3) / 4
      omega
    have hhigh : ⌈(net (false, false) (encSamples as₄) : ℚ) / 4⌉ < 2 ^ 31 := by
      rw [← netCycles_eq_ceil hbit, netCycles_eq hbit]
      show (0 + _ + 3) / 4 - (0 + 3) / 4 < _
      omega
    refine ⟨hnet, ?_⟩
    rw [hraw₁, hnet, wrapInt_eq hlow hhigh]
  · obtain ⟨hp, hwrap⟩ := encStep_keeps (p := (false, false)) h.counterMode
      h.keeps_init (by rw [h.rawCounts]; rfl) h.run
    have hraw : t'.rawCounts = wrapInt (t.rawCounts + if i.x4Mode then
        edge (lastSample as) i.sample else cycleEdge (lastSample as) i.sample) :=
      (encStep_update hi hp hwrap hstep).2
    rw [edge_of_not_oneBit hjump, cycleEdge_of_not_oneBit hjump, ite_self, Int.add_zero,
      hwrap] at hraw
    exact hraw

/-! ### A source -/

/-- The last sample is that of a source which has gone `n` places, and the raw counts are those of
its edges, or of its cycles. -/
structure CountsFollow (x4 : Bool) (n : ℤ) (s : EncSys) : Prop where
  sample : ∃ p, s.state &&& 0x0F = sampleBits p ∧ place p = n % 4
  rawCounts : s.rawCounts = wrapInt (if x4 then n else (n + 3) / 4)

section Source

variable {s t : EncSys} {a : EncAct} {i : EncInput} {n m : ℤ}

lemma CountsFollow.init (x4 : Bool) : CountsFollow x4 0 EncSys.init :=
  ⟨⟨(false, false), by decide, by decide⟩, by cases x4 <;> decide⟩

lemma CountsFollow.other {x4 : Bool} (h : CountsFollow x4 n s) (ha : ∀ i, a ≠ .update i)
    (hs : encStep s a = some t) : CountsFollow x4 n t := by
  obtain ⟨hstate, hraw⟩ := encStep_other ha hs
  exact ⟨hstate ▸ h.sample, hraw ▸ h.rawCounts⟩

/-- The next sample of the source. -/
lemma CountsFollow.update {x4 : Bool} (h : CountsFollow x4 n s) (hctr : i.counterMode = false)
    (hx4 : i.x4Mode = x4) (hplace : place i.sample = m % 4) (hle : n - 1 ≤ m) (hge : m ≤ n + 1)
    (hs : encStep s (.update i) = some t) : CountsFollow x4 m t := by
  obtain ⟨⟨p, hp, hpn⟩, hraw⟩ := h
  obtain ⟨hbits, hcount⟩ := encStep_update hctr hp (by rw [hraw, wrapInt_wrapInt]) hs
  refine ⟨⟨i.sample, hbits, hplace⟩, ?_⟩
  rw [hcount, hraw, wrapInt_add, hx4]
  cases x4 with
  | true =>
    rw [if_pos rfl, if_pos rfl, if_pos rfl, (edge_of_place hpn hplace hle hge).2]
    congr 1
    omega
  | false =>
    rw [if_neg Bool.false_ne_true, if_neg Bool.false_ne_true, if_neg Bool.false_ne_true,
      cycleEdge_of_place hpn hplace hle hge]
    congr 1
    omega

end Source

/-- A source: its steps, those of them that make pulses, and its outputs. -/
structure Source (σ α : Type) where
  step : σ → α → Option σ
  pulses : α → Bool
  phases : σ → Bool × Bool

/-- A source and the encoder, and whether there were pulses since the last sample. -/
structure WiredSys (σ : Type) where
  src : σ
  enc : EncSys
  due : Bool

/-- A step of the source, a sample of the encoder, whose phases are wired, or what else is done to
the encoder. -/
inductive WiredAct (α : Type) where
  | source (a : α)
  | sample (pins : EncInput)
  | encoder (a : EncAct)

/-- The pins of the encoder, with the phases wired. -/
def EncInput.wired (pins : EncInput) (phases : Bool × Bool) : EncInput :=
  { pins with phaseA := phases.1, phaseB := phases.2 }

namespace Source

variable {σ α : Type} (S : Source σ α)

/-- One step. There is a sample between two steps with pulses. -/
def wire (s : WiredSys σ) : WiredAct α → Option (WiredSys σ)
  | .source a =>
    if S.pulses a && s.due then none
    else (S.step s.src a).map fun src => { s with src := src, due := S.pulses a || s.due }
  | .sample pins => (encStep s.enc (.update (pins.wired (S.phases s.src)))).map fun enc =>
    { s with enc := enc, due := false }
  | .encoder (.update _) => none
  | .encoder a => (encStep s.enc a).map fun enc => { s with enc := enc }

/-- What is asked of a step, in one of the modes of the encoder. -/
def Fits (ok : σ → α → Prop) (x4 : Bool) (s : WiredSys σ) : WiredAct α → Prop
  | .source a => ok s.src a
  | .sample pins => pins.counterMode = false ∧ pins.x4Mode = x4
  | .encoder _ => True

instance {ok : σ → α → Prop} [∀ s a, Decidable (ok s a)] (x4 : Bool) (s : WiredSys σ) :
    ∀ a, Decidable (Fits ok x4 s a)
  | .source _ => inferInstanceAs (Decidable (ok _ _))
  | .sample _ => inferInstanceAs (Decidable (_ ∧ _))
  | .encoder _ => inferInstanceAs (Decidable True)

/-- The outputs are at the place `pos`, which a step with pulses changes by one at most. -/
structure Law (ok : σ → α → Prop) (P : σ → Prop) (pos : σ → ℤ) : Prop where
  keep {s t : σ} {a : α} : P s → ok s a → S.step s a = some t → P t
  place {s : σ} : P s → place (S.phases s) = pos s % 4
  near {s t : σ} {a : α} : P s → ok s a → S.step s a = some t →
    pos s - 1 ≤ pos t ∧ pos t ≤ pos s + 1
  still {s t : σ} {a : α} : P s → ok s a → S.step s a = some t → S.pulses a = false → pos t = pos s

variable {S} {ok : σ → α → Prop} {P : σ → Prop} {pos : σ → ℤ} {x4 : Bool} {s t : WiredSys σ}

/-- The encoder is at most one place behind, and not behind once it has sampled. -/
structure Tracked (P : σ → Prop) (pos : σ → ℤ) (x4 : Bool) (s : WiredSys σ) : Prop where
  source : P s.src
  follows : ∃ n, CountsFollow x4 n s.enc ∧ n - 1 ≤ pos s.src ∧ pos s.src ≤ n + 1 ∧
    (s.due = false → n = pos s.src)

lemma Tracked.step (law : S.Law ok P pos) (h : Tracked P pos x4 s) {a : WiredAct α}
    (hok : Fits ok x4 s a) (hs : S.wire s a = some t) : Tracked P pos x4 t := by
  obtain ⟨hP, n, hn, hle, hge, hsync⟩ := h
  cases a with
  | source a =>
    rw [wire] at hs
    split_ifs at hs with hdue
    obtain ⟨src, hsrc, rfl⟩ := Option.map_eq_some_iff.1 hs
    refine ⟨law.keep hP hok hsrc, ?_⟩
    cases hpulses : S.pulses a with
    | false =>
      have hstill := law.still hP hok hsrc hpulses
      exact ⟨n, hn, hstill ▸ hle, hstill ▸ hge, fun hd => hstill ▸ hsync hd⟩
    | true =>
      rw [hpulses, Bool.true_and, Bool.not_eq_true] at hdue
      obtain ⟨hlow, hhigh⟩ := law.near hP hok hsrc
      rw [← hsync hdue] at hlow hhigh
      exact ⟨n, hn, hlow, hhigh, fun hd => absurd hd.symm Bool.false_ne_true⟩
  | sample pins =>
    rw [wire, Option.map_eq_some_iff] at hs
    obtain ⟨enc, henc, rfl⟩ := hs
    have hfollows : CountsFollow x4 (pos s.src) enc :=
      hn.update (i := pins.wired (S.phases s.src)) hok.1 hok.2 (law.place hP) hle hge henc
    exact ⟨hP, pos s.src, hfollows, Int.sub_le_self _ (by decide),
      Int.le_add_of_nonneg_right (by decide), fun _ => rfl⟩
  | encoder a =>
    have hother : (∀ i, a ≠ .update i) ∧ ∃ enc, encStep s.enc a = some enc ∧
        { s with enc := enc } = t := by
      cases a with
      | update i => exact absurd hs.symm (Option.some_ne_none t)
      | raise => exact ⟨fun _ => EncAct.noConfusion, Option.map_eq_some_iff.1 hs⟩
      | reset level => exact ⟨fun _ => EncAct.noConfusion, Option.map_eq_some_iff.1 hs⟩
      | capture => exact ⟨fun _ => EncAct.noConfusion, Option.map_eq_some_iff.1 hs⟩
    obtain ⟨hne, enc, henc, rfl⟩ := hother
    exact ⟨hP, n, hn.other hne henc, hle, hge, hsync⟩

/-- In every run the encoder follows the source. -/
theorem Law.follows (law : S.Law ok P pos) {s₀ : σ} (h0 : P s₀) (hpos : pos s₀ = 0)
    (hr : Reach S.wire (Fits ok x4) ⟨s₀, .init, false⟩ s) : P s.src ∧ ∃ n : ℤ,
      |pos s.src - n| ≤ 1 ∧ (s.due = false → n = pos s.src) ∧
      s.enc.rawCounts = wrapInt (if x4 then n else ⌈(n : ℚ) / 4⌉) := by
  have hstart : Tracked P pos x4 ⟨s₀, .init, false⟩ :=
    ⟨h0, 0, .init x4, hpos.symm ▸ (by decide), hpos.symm ▸ (by decide), fun _ => hpos.symm⟩
  have h : Tracked P pos x4 s := hr.invariant (P := Tracked P pos x4) hstart
    fun h hok hs => h.step law hok hs
  obtain ⟨hP, n, hn, hle, hge, hsync⟩ := h
  have hceil : ⌈(n : ℚ) / 4⌉ = (n + 3) / 4 := by
    rw [show (n : ℚ) / 4 = (n : ℚ) / ((4 : ℕ) : ℚ) by norm_num, Rat.ceil_intCast_div_natCast]
    omega
  exact ⟨hP, n, abs_le.2 ⟨by omega, by omega⟩, hsync, by rw [hn.rawCounts, hceil]⟩

end Source

/-! ### A signal that goes forward -/

/-- The pins, at a sample in one of the modes. -/
def EncInput.at (x4 : Bool) (p : Bool × Bool) : EncInput :=
  ⟨p.1, p.2, false, x4, false, false, false, false⟩

/-- The calls of `update` for the samples. -/
def updates (x4 : Bool) (ps : List (Bool × Bool)) : List EncAct :=
  ps.map fun p => .update (.at x4 p)

/-- Every list of actions makes a run. -/
lemma encStep_runs (s : EncSys) (as : List EncAct) : ∃ t, as.foldlM encStep s = some t := by
  have htotal : ∀ s a, (encStep s a).isSome = !(fun _ : EncAct => false) a := by
    intro s a
    cases a <;> rfl
  rw [← Option.isSome_iff_exists, foldlM_isSome htotal]
  exact List.all_eq_true.2 fun _ _ => rfl

/-- They make a run in this mode. -/
lemma updates_quadRun (x4 : Bool) (ps : List (Bool × Bool)) :
    (∃ t, QuadRun .init (updates x4 ps) t) ∧ X4Mode x4 (updates x4 ps) ∧
      encSamples (updates x4 ps) = ps := by
  have hin : encInputs (updates x4 ps) = ps.map (.at x4) := by
    rw [encInputs, updates, List.filterMap_map]
    exact congrFun List.filterMap_eq_map' ps
  have hmode : ∀ i ∈ encInputs (updates x4 ps), i.counterMode = false ∧ i.x4Mode = x4 := by
    intro i hi
    rw [hin] at hi
    obtain ⟨p, -, rfl⟩ := List.mem_map.1 hi
    exact ⟨rfl, rfl⟩
  obtain ⟨t, ht⟩ := encStep_runs .init (updates x4 ps)
  refine ⟨⟨t, rfl, rfl, fun i hi => (hmode i hi).1, ht⟩, fun i hi => (hmode i hi).2, ?_⟩
  rw [encSamples, hin, List.map_map]
  exact List.map_id _

/-- Five edges forward in both modes, and then a sample in which both phases change. -/
theorem raw_counts_quadrature_five : ∃ t₄ t₁ t' : EncSys,
    QuadRun .init (updates true (turning 0 5)) t₄ ∧ t₄.rawCounts = 5 ∧
    QuadRun .init (updates false (turning 0 5)) t₁ ∧ t₁.rawCounts = 2 ∧
    encStep t₄ (.update (.at true (false, true))) = some t' ∧ t'.rawCounts = t₄.rawCounts := by
  obtain ⟨⟨t₄, h₄⟩, hx4, hs₄⟩ := updates_quadRun true (turning 0 5)
  obtain ⟨⟨t₁, h₁⟩, hx1, hs₁⟩ := updates_quadRun false (turning 0 5)
  have hbit : ((false, false) :: encSamples (updates true (turning 0 5))).IsChain OneBit := by
    rw [hs₄]
    exact isChain_turning 0 5
  obtain ⟨hraw₄, hraw₁, -, hjump⟩ := raw_counts_quadrature h₄ hx4 h₁ hx1 (hs₁.trans hs₄.symm) hbit
    h₄ (i := .at true (false, true)) rfl rfl
  have hnet : net (false, false) (encSamples (updates true (turning 0 5))) = 5 := by
    rw [hs₄]
    exact net_turning 0 5
  rw [hnet] at hraw₄ hraw₁
  refine ⟨t₄, t₁, _, h₄, hraw₄.trans (by decide), h₁, hraw₁.trans ?_, rfl,
    hjump (by decide)⟩
  norm_num [wrapInt, Int.bmod]

/-- After `2 ^ 31` edges forward the raw counts are negative. -/
theorem raw_counts_wrap : ¬ ∀ (s t : EncSys) (as : List EncAct), QuadRun s as t →
    X4Mode true as → ((false, false) :: encSamples as).IsChain OneBit →
    t.rawCounts = net (false, false) (encSamples as) := by
  intro hlaw
  obtain ⟨n, hn⟩ : ∃ n : ℕ, (n : ℤ) = 2 ^ 31 := ⟨2 ^ 31, by norm_num⟩
  obtain ⟨⟨t, ht⟩, hx4, hsamples⟩ := updates_quadRun true (turning 0 n)
  have hchain : ((false, false) :: encSamples (updates true (turning 0 n))).IsChain OneBit := by
    rw [hsamples]
    exact isChain_turning 0 n
  have hnet : net (false, false) (encSamples (updates true (turning 0 n))) = 2 ^ 31 := by
    rw [hsamples, ← hn]
    exact net_turning 0 n
  have heq := hlaw _ _ _ ht hx4 hchain
  rw [ht.raw_x4 hx4, hnet] at heq
  exact absurd heq (by decide)

end MachinekitHal
