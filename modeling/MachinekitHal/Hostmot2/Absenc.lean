import MachinekitHal.Lib.Runs

/-!
The control registers of the absolute encoders of hostmot2.

* `Register`: a shadow in a channel, and the register it stands for.
* `hm2AbsencWrite`: the words of the three kinds of channels, and when they are written.
* `Agrees`: shadows, registers and settings agree.
* `agrees_iff`: when they do behind a write, in every run of writes that do.
-/

namespace MachinekitHal.Absenc

open Runs

/-- `HM2_GTAG_SSI`, `HM2_GTAG_BISS` and `HM2_GTAG_FABS`. -/
inductive Gtag where
  | ssi
  | biss
  | fabs
  deriving DecidableEq

/-- A shadow, and what was last written to its register, 0 before. -/
structure Register where
  shadow : BitVec 32
  hw : BitVec 32
  deriving DecidableEq

/-- The parameters that the user sets. `F` are the floating point numbers. -/
structure Params (F : Type*) where
  floatParam : F
  timerNum : BitVec 32
  u32Param : BitVec 32

/-- A channel: `data_written` with the register at `reg_cs_addr`, `data2_written` with the one at
`data_reg_addr` and `data3_written` with the one at `reg_2_addr`. -/
structure Chan (F : Type*) where
  myinst : Gtag
  params : Params F
  numReadBits : BitVec 32
  cs : Register
  data : Register
  reg2 : Register

/-- What floating point makes of the clock: `(u32)(k * (f * 1000 / clock_frequency))` and
`(u32)(8.0e-6 * clock_frequency)`. -/
structure Clock (F : Type*) where
  scale : ℕ → F → BitVec 32
  eightMicroseconds : BitVec 32

variable {F : Type*}

/-! ### Words -/

/-- `timer_num` is at most 4. -/
def Params.clampTimer (p : Params F) : Params F :=
  if 4 < p.timerNum then { p with timerNum := 4 } else p

/-- `u32_param` is at most 15. -/
def Params.clampU32 (p : Params F) : Params F :=
  if 15 < p.u32Param then { p with u32Param := 15 } else p

/-- A condition as a bit. -/
def bit (p : Prop) [Decidable p] : BitVec 32 := if p then 1 else 0

/-- The timer, and two bits for whether there is one. -/
def timerBits (p : Params F) (k : ℕ) : BitVec 32 :=
  p.timerNum <<< 12 ||| bit (p.timerNum = 0) <<< k ||| bit (p.timerNum ≠ 0) <<< (k + 1)

/-- `buff` of an SSI channel. -/
def ssiWord (clock : Clock F) (p : Params F) (numReadBits : BitVec 32) : BitVec 32 :=
  clock.scale 0x10000 p.floatParam <<< 16 ||| timerBits p 8 ||| numReadBits

/-- `buff` of a BISS channel. -/
def bissWord (clock : Clock F) (p : Params F) (numReadBits : BitVec 32) : BitVec 32 :=
  clock.scale 0x10000 p.floatParam <<< 16 ||| timerBits p 10 ||| numReadBits

/-- `buff3` of a Fanuc channel. -/
def fabsWord3 (clock : Clock F) (numReadBits : BitVec 32) : BitVec 32 :=
  numReadBits <<< 24 ||| clock.eightMicroseconds <<< 14

/-- `buff2` of a Fanuc channel. -/
def fabsWord2 (clock : Clock F) (p : Params F) : BitVec 32 :=
  p.u32Param <<< 28 ||| clock.scale 0x100000 p.floatParam

/-- `buff` of a Fanuc channel, with the write flag if one of the other words is to be written. -/
def fabsWord (p : Params F) (writes : Prop) [Decidable writes] : BitVec 32 :=
  timerBits p 8 ||| bit writes <<< 7

/-! ### Writes -/

/-- If `buff` is not the shadow, `word` is written and `buff` becomes the shadow. -/
def Register.write (buff word : BitVec 32) (r : Register) : Register :=
  if buff ≠ r.shadow then { shadow := buff, hw := word } else r

/-- One channel. All three writes of a Fanuc channel write `buff`. -/
def writeChan (clock : Clock F) (chan : Chan F) : Chan F :=
  match chan.myinst with
  | .ssi =>
    let p := chan.params.clampTimer
    let buff := ssiWord clock p chan.numReadBits
    { chan with params := p, cs := chan.cs.write buff buff }
  | .biss =>
    let p := chan.params.clampTimer
    let buff := bissWord clock p chan.numReadBits
    { chan with params := p, cs := chan.cs.write buff buff }
  | .fabs =>
    let p := chan.params.clampTimer.clampU32
    let buff3 := fabsWord3 clock chan.numReadBits
    let buff2 := fabsWord2 clock p
    let buff := fabsWord p (buff3 ≠ chan.reg2.shadow ∨ buff2 ≠ chan.data.shadow)
    { chan with
      params := p
      cs := chan.cs.write buff buff
      data := chan.data.write buff2 buff
      reg2 := chan.reg2.write buff3 buff }

/-- `hm2_absenc_write`. -/
def hm2AbsencWrite (clock : Clock F) (chans : List (Chan F)) : List (Chan F) :=
  chans.map (writeChan clock)

/-! ### What the settings demand -/

/-- The three words that the settings demand. A channel that has no data words leaves them 0. -/
structure Words where
  cs : BitVec 32
  data : BitVec 32
  reg2 : BitVec 32

/-- The words for a channel. The write flag is demanded if a data word is not the one that the
channel has. -/
def demand (clock : Clock F) (chan : Chan F) : Words :=
  match chan.myinst with
  | .ssi => ⟨ssiWord clock chan.params.clampTimer chan.numReadBits, 0, 0⟩
  | .biss => ⟨bissWord clock chan.params.clampTimer chan.numReadBits, 0, 0⟩
  | .fabs =>
    let p := chan.params.clampTimer.clampU32
    let data := fabsWord2 clock p
    let reg2 := fabsWord3 clock chan.numReadBits
    ⟨fabsWord p (reg2 ≠ chan.reg2.shadow ∨ data ≠ chan.data.shadow), data, reg2⟩

/-- The shadow and the register have this word. -/
def Register.Is (r : Register) (word : BitVec 32) : Prop := r = { shadow := word, hw := word }

/-- Shadows and registers have what the settings demand. -/
structure Agrees (clock : Clock F) (chan chan' : Chan F) : Prop where
  cs : chan'.cs.Is (demand clock chan).cs
  data : chan'.data.Is (demand clock chan).data
  reg2 : chan'.reg2.Is (demand clock chan).reg2

/-- The words of a Fanuc channel do not change, unless the second one to the control word. -/
def Spared (clock : Clock F) (chan : Chan F) : Prop :=
  chan.myinst = .fabs → (demand clock chan).reg2 = chan.reg2.shadow ∧
    ((demand clock chan).data = chan.data.shadow ∨
      (demand clock chan).data = (demand clock chan).cs)

/-! ### One channel -/

/-- Registers as their shadows, and no data words where there are none. -/
structure Shadowed (chan : Chan F) : Prop where
  cs : ∃ word, chan.cs.Is word
  data : ∃ word, chan.data.Is word
  reg2 : ∃ word, chan.reg2.Is word
  none : chan.myinst ≠ .fabs → chan.data.Is 0 ∧ chan.reg2.Is 0

variable {clock : Clock F} {chan chan' : Chan F} {r : Register} {old buff word : BitVec 32}

/-- The word that is written is the one of the shadow, or none is written. -/
lemma write_is_iff (h : r.Is old) :
    (r.write buff word).Is buff ↔ buff = r.shadow ∨ buff = word := by
  rw [Register.Is] at h
  subst h
  rw [Register.write, Register.Is]
  dsimp only
  split_ifs with hne
  · rw [Register.mk.injEq, or_iff_right hne]
    exact ⟨fun heq => heq.2.symm, fun heq => ⟨rfl, heq.symm⟩⟩
  · obtain rfl := not_not.1 hne
    exact ⟨fun _ => .inl rfl, fun _ => rfl⟩

lemma write_is (h : r.Is old) : (r.write buff buff).Is buff := (write_is_iff h).2 (.inr rfl)

/-- The third word does not reach the bit of the write flag. -/
lemma fabsWord3_ne (numReadBits : BitVec 32) (p : Params F) {writes : Prop} [Decidable writes]
    (hwrites : writes) : fabsWord3 clock numReadBits ≠ fabsWord p writes := by
  intro heq
  have hbit := congrArg (BitVec.getLsbD · 7) heq
  rw [fabsWord3, fabsWord, bit, if_pos hwrites] at hbit
  simp at hbit

/-- A channel without data words agrees. -/
lemma Shadowed.agrees (h : Shadowed chan) (hinst : chan.myinst ≠ .fabs) :
    Agrees clock chan (writeChan clock chan) := by
  obtain ⟨hdata, hreg2⟩ := h.none hinst
  obtain ⟨old, hcs⟩ := h.cs
  rw [writeChan]
  cases hkind : chan.myinst with
  | fabs => exact absurd hkind hinst
  | ssi =>
    constructor <;> rw [demand, hkind]
    · exact write_is hcs
    · exact hdata
    · exact hreg2
  | biss =>
    constructor <;> rw [demand, hkind]
    · exact write_is hcs
    · exact hdata
    · exact hreg2

lemma writeChan_fabs (hinst : chan.myinst = .fabs) : writeChan clock chan = { chan with
    params := chan.params.clampTimer.clampU32
    cs := chan.cs.write (demand clock chan).cs (demand clock chan).cs
    data := chan.data.write (demand clock chan).data (demand clock chan).cs
    reg2 := chan.reg2.write (demand clock chan).reg2 (demand clock chan).cs } := by
  rw [writeChan, demand, hinst]

/-- With a third word to write, the control word is not that word. -/
lemma demand_reg2_ne (hinst : chan.myinst = .fabs)
    (hnew : (demand clock chan).reg2 ≠ chan.reg2.shadow) :
    (demand clock chan).reg2 ≠ (demand clock chan).cs := by
  rw [demand, hinst] at hnew ⊢
  exact fabsWord3_ne _ _ (.inl hnew)

/-- A channel agrees behind its write if and only if it is spared. -/
lemma agrees_writeChan_iff (h : Shadowed chan) :
    Agrees clock chan (writeChan clock chan) ↔ Spared clock chan := by
  by_cases hinst : chan.myinst = .fabs
  · obtain ⟨cs, hcs⟩ := h.cs
    obtain ⟨data, hdata⟩ := h.data
    obtain ⟨reg2, hreg2⟩ := h.reg2
    rw [writeChan_fabs hinst]
    constructor
    · intro hagrees _
      refine ⟨?_, (write_is_iff hdata).1 hagrees.data⟩
      by_contra hnew
      rcases (write_is_iff hreg2).1 hagrees.reg2 with hold | hword
      · exact hnew hold
      · exact demand_reg2_ne hinst hnew hword
    · intro hspared
      obtain ⟨hreg2', hdata'⟩ := hspared hinst
      exact ⟨write_is hcs, (write_is_iff hdata).2 hdata', (write_is_iff hreg2).2 (.inl hreg2')⟩
  · exact ⟨fun _ hfabs => absurd hfabs hinst, fun _ => h.agrees hinst⟩

lemma myinst_writeChan (clock : Clock F) (chan : Chan F) :
    (writeChan clock chan).myinst = chan.myinst := by
  rw [writeChan]
  cases chan.myinst <;> rfl

lemma demand_of_ne (hinst : chan.myinst ≠ .fabs) :
    (demand clock chan).data = 0 ∧ (demand clock chan).reg2 = 0 := by
  rw [demand]
  cases hkind : chan.myinst with
  | ssi => exact ⟨rfl, rfl⟩
  | biss => exact ⟨rfl, rfl⟩
  | fabs => exact absurd hkind hinst

lemma Shadowed.writeChan (h : Shadowed chan) (hspared : Spared clock chan) :
    Shadowed (writeChan clock chan) := by
  obtain ⟨hcs, hdata, hreg2⟩ := (agrees_writeChan_iff h).2 hspared
  refine ⟨⟨_, hcs⟩, ⟨_, hdata⟩, ⟨_, hreg2⟩, fun hinst => ?_⟩
  rw [myinst_writeChan] at hinst
  obtain ⟨hdata0, hreg20⟩ := @demand_of_ne F clock chan hinst
  rw [hdata0] at hdata
  rw [hreg20] at hreg2
  exact ⟨hdata, hreg2⟩

/-! ### Runs -/

/-- The user sets the parameters of a channel, or the function is called. -/
inductive AbsencOp (F : Type*) where
  | set (i : ℕ) (params : Params F)
  | write

/-- One operation. -/
def absencStep (clock : Clock F) (chans : List (Chan F)) : AbsencOp F → Option (List (Chan F))
  | .set i params => some (chans.modify i fun chan => { chan with params := params })
  | .write => some (hm2AbsencWrite clock chans)

/-- All channels of a write are spared. -/
def AllSpared (clock : Clock F) (chans : List (Chan F)) : AbsencOp F → Prop
  | .set .. => True
  | .write => ∀ chan ∈ chans, Spared clock chan

/-- A channel as `hm2_absenc_parse_md` leaves it. -/
structure Fresh (chan : Chan F) : Prop where
  cs : chan.cs.Is 0
  data : chan.data.Is 0
  reg2 : chan.reg2.Is 0

lemma Fresh.shadowed (h : Fresh chan) : Shadowed chan :=
  ⟨⟨0, h.cs⟩, ⟨0, h.data⟩, ⟨0, h.reg2⟩, fun _ => ⟨h.data, h.reg2⟩⟩

/-- Parameters are no registers. -/
lemma step_shadowed {chans chans' : List (Chan F)} {op : AbsencOp F}
    (h : ∀ chan ∈ chans, Shadowed chan) (hspared : AllSpared clock chans op)
    (hstep : absencStep clock chans op = some chans') : ∀ chan ∈ chans', Shadowed chan := by
  cases op with
  | set i params =>
    cases hstep
    intro chan hmem
    obtain ⟨j, hj, rfl⟩ := List.mem_iff_getElem.1 hmem
    rw [List.getElem_modify]
    split_ifs with hij
    · obtain ⟨hcs, hdata, hreg2, hnone⟩ := h _ (List.getElem_mem (by simpa using hj))
      exact ⟨hcs, hdata, hreg2, hnone⟩
    · exact h _ (List.getElem_mem _)
  | write =>
    cases hstep
    intro chan hmem
    obtain ⟨old, hold, rfl⟩ := List.mem_map.1 hmem
    exact (h old hold).writeChan (hspared old hold)

/-- Shadows, registers and settings. For any mixture of channels and in every run of writes whose
channels are spared, with any settings between them: all channels agree behind the next write if and
only if all are spared by it. -/
theorem agrees_iff {chans₀ chans : List (Chan F)} (h₀ : ∀ chan ∈ chans₀, Fresh chan)
    (h : Reach (absencStep clock) (AllSpared clock) chans₀ chans) :
    List.Forall₂ (Agrees clock) chans (hm2AbsencWrite clock chans) ↔
      AllSpared clock chans .write := by
  have hshadowed : ∀ chan ∈ chans, Shadowed chan :=
    h.invariant (fun chan hmem => (h₀ chan hmem).shadowed)
      fun hs hspared hstep => step_shadowed hs hspared hstep
  rw [hm2AbsencWrite, List.forall₂_map_right_iff, List.forall₂_same]
  exact forall₂_congr fun chan hmem => agrees_writeChan_iff (hshadowed chan hmem)

/-- A clock of 100 MHz, with frequencies that are whole numbers. -/
def hundredMegahertz : Clock ℕ where
  scale k f := BitVec.ofNat 32 (k * (f * 1000) / 100000000)
  eightMicroseconds := 800

/-- An encoder as it is set up. -/
def newChan (myinst : Gtag) (frequency numReadBits : ℕ) (filter : BitVec 32) : Chan ℕ where
  myinst := myinst
  params := { floatParam := frequency, timerNum := 0, u32Param := filter }
  numReadBits := BitVec.ofNat 32 numReadBits
  cs := { shadow := 0, hw := 0 }
  data := { shadow := 0, hw := 0 }
  reg2 := { shadow := 0, hw := 0 }

lemma fresh_newChan (myinst : Gtag) (frequency numReadBits : ℕ) (filter : BitVec 32) :
    Fresh (newChan myinst frequency numReadBits filter) := ⟨rfl, rfl, rfl⟩

/-- A second write, behind a change of the frequency of the first channel. -/
theorem agrees_ssi_biss : ∃ chans, Reach (absencStep hundredMegahertz) (AllSpared hundredMegahertz)
      [newChan .ssi 500 24 0, newChan .biss 500 32 0] chans ∧
    (hm2AbsencWrite hundredMegahertz chans).map (·.cs.hw) ≠ chans.map (·.cs.hw) ∧
    List.Forall₂ (Agrees hundredMegahertz) chans (hm2AbsencWrite hundredMegahertz chans) := by
  have hspared : ∀ chans : List (Chan ℕ), (∀ chan ∈ chans, chan.myinst ≠ .fabs) →
      AllSpared hundredMegahertz chans .write :=
    fun chans hkind chan hmem hinst => absurd hinst (hkind chan hmem)
  have hwrite : Reach (absencStep hundredMegahertz) (AllSpared hundredMegahertz)
      [newChan .ssi 500 24 0, newChan .biss 500 32 0] _ :=
    Reach.refl.tail (hspared _ (by decide)) rfl
  have hset := hwrite.tail (a := (.set 0 ⟨250, 0, 0⟩ : AbsencOp ℕ)) trivial rfl
  refine ⟨_, hset, by decide, (agrees_iff ?_ hset).2 (hspared _ (by decide))⟩
  intro chan hmem
  rcases List.mem_pair.1 hmem with rfl | rfl <;> exact fresh_newChan _ _ _ _

/-- The first write of a Fanuc channel. -/
theorem agrees_fabs : ¬ ∀ (clock : Clock ℕ) (chans₀ chans : List (Chan ℕ)),
    (∀ chan ∈ chans₀, Fresh chan) → Reach (absencStep clock) (fun _ _ => True) chans₀ chans →
    List.Forall₂ (Agrees clock) chans (hm2AbsencWrite clock chans) := by
  intro hall
  have hagrees := hall hundredMegahertz [newChan .fabs 1024 64 15] _
    (fun chan hmem => List.mem_singleton.1 hmem ▸ fresh_newChan _ _ _ _) Reach.refl
  obtain ⟨-, hdata, -⟩ := (List.forall₂_cons.1 hagrees).1
  exact absurd hdata (show ¬ _ = _ by decide)

end MachinekitHal.Absenc
