import MachinekitHal.Hostmot2.Stepgen
import MachinekitHal.Lib.Folds
import MachinekitHal.Lib.Runs

/-!
The mode and the tables of the hostmot2 step generators.

* `tableByte`, `tableBytes`: the table that the pins describe.
* `Agrees`: the registers are what the pins say.
* `Supported`, `Fresh`: what the pins are to be like for that.
* `updateMode_iff`, `writeMode_iff`: when a write leaves the registers so.
* `mode_follows_iff`: the same for all instances, in every run of such writes.
-/

namespace MachinekitHal.Hm2Stepgen

open Runs Folds

variable {c c' : Channel} {e : Instance} {p : Pins} {width : BitVec 32}

/-! ### Tables -/

/-- Entry `j` of the table. -/
def tableByte (p : Pins) (j : ℕ) : BitVec 32 :=
  ((p.table[j / 4]?).getD 0 >>> (j % 4 * 8)) &&& 0xff

/-- The table, as long as the step type says. -/
def tableBytes (p : Pins) : List (BitVec 32) := (List.range p.stepType.toNat).map (tableByte p)

/-- The exclusive or of the table pins. -/
def tableXor (p : Pins) : BitVec 32 := p.table[0] ^^^ p.table[1] ^^^ p.table[2] ^^^ p.table[3]

/-- A table that the firmware can take. -/
def Supported (width : BitVec 32) (p : Pins) : Prop :=
  p.stepType ≤ 2 ∨ p.stepType ≤ width ∧ p.stepType ≤ 16
  deriving Decidable

/-- The mode register for a step type. -/
def modeOf (width : BitVec 32) (p : Pins) : BitVec 32 :=
  if p.stepType ≤ 2 then p.stepType else if Supported width p then 3 else 0

/-- The registers are what the pins say. -/
structure Agrees (c : Channel) : Prop where
  mode : c.hw.mode = modeOf c.inst.tableWidth c.inst.pin
  table : 2 < c.inst.pin.stepType → Supported c.inst.tableWidth c.inst.pin →
    c.hw.tableLength = c.inst.pin.stepType ∧
      c.hw.tableData.take c.inst.pin.stepType.toNat = tableBytes c.inst.pin

lemma tableWord_eq (hwidth : 2 < e.tableWidth) {k : ℕ} (hk : k < 4) :
    e.tableWord k = some ((e.pin.table[k]?).getD 0) := by
  have hsome : e.pin.table[k]? = some e.pin.table[k] := Vector.getElem?_eq_getElem hk
  rw [Instance.tableWord, if_pos hwidth, hsome, Option.getD_some]

lemma hash_eq (hwidth : 2 < e.tableWidth) : e.hash = some (tableXor e.pin) := by
  rw [Instance.hash, tableWord_eq hwidth (by norm_num), tableWord_eq hwidth (by norm_num),
    tableWord_eq hwidth (by norm_num), tableWord_eq hwidth (by norm_num)]
  rfl

lemma hash_eq_none (hwidth : ¬ 2 < e.tableWidth) : e.hash = none := by
  rw [Instance.hash, Instance.tableWord, if_neg hwidth]
  rfl

/-- The loop puts the table in front of what was sent before. -/
lemma sendTable_eq (hwidth : 2 < e.tableWidth) {j : ℕ} (hj : j ≤ 16) (data : List (BitVec 32)) :
    sendTable e.tableWord j data = some ((List.range j).map (tableByte e.pin) ++ data) := by
  induction j generalizing data with
  | zero => rfl
  | succ j ih =>
    rw [sendTable, tableWord_eq hwidth (by omega), Option.bind_eq_bind, Option.bind_some,
      ih (by omega), List.range_succ, List.map_append, List.append_assoc]
    rfl

lemma tableTurns_eq (hpos : 0 < e.pin.stepType) (hle : e.pin.stepType ≤ 16) :
    e.tableTurns = e.pin.stepType.toNat := by
  have hsub : (e.pin.stepType - 1).toNat = e.pin.stepType.toNat - 1 := by bv_omega
  have hint : (e.pin.stepType - 1).toInt = (e.pin.stepType - 1).toNat :=
    BitVec.toInt_eq_toNat_of_lt (by bv_omega)
  rw [Instance.tableTurns, hint, hsub]
  bv_omega

/-! ### Updates -/

/-- `hm2_stepgen_update_mode` for a step type without a table. -/
lemma updateMode_plain (hplain : c.inst.pin.stepType ≤ 2) :
    updateMode c = some
      { c with inst.writtenStepType := c.inst.pin.stepType, modeReg := c.inst.pin.stepType } :=
  if_pos hplain

/-- With a table that is too long it reads behind the pins, or the loop does not start. -/
lemma updateMode_table (htable : ¬ c.inst.pin.stepType ≤ 2) (hwidth : 2 < c.inst.tableWidth) :
    updateMode c = (sendTable c.inst.tableWord c.inst.tableTurns c.hw.tableData).map fun data =>
      { c with
        inst.writtenStepType := c.inst.pin.stepType
        inst.tableHash := tableXor c.inst.pin
        modeReg := 3
        hw.tableData := data
        hw.tableLength := c.inst.pin.stepType } := by
  have hhash : { c.inst with writtenStepType := c.inst.pin.stepType }.hash
      = some (tableXor c.inst.pin) := hash_eq hwidth
  rw [updateMode]
  dsimp only
  rw [if_neg htable, hhash, Option.bind_eq_bind, Option.bind_some, checkStepType]
  split_ifs
  · exact Option.map_eq_bind.symm
  · exact Option.map_eq_bind.symm

/-- What an update leaves of the instance, and what it notes. -/
lemma updateMode_some (h : updateMode c = some c') :
    c'.inst.pin = c.inst.pin ∧ c'.inst.tableWidth = c.inst.tableWidth ∧
      c'.inst.writtenStepType = c.inst.pin.stepType ∧
      (2 < c.inst.pin.stepType → c'.inst.tableHash = tableXor c.inst.pin) := by
  by_cases hplain : c.inst.pin.stepType ≤ 2
  · rw [updateMode_plain hplain] at h
    cases h
    exact ⟨rfl, rfl, rfl, fun h => absurd hplain (by bv_omega)⟩
  · by_cases hwidth : 2 < c.inst.tableWidth
    · rw [updateMode_table hplain hwidth] at h
      obtain ⟨data, -, rfl⟩ := Option.map_eq_some_iff.1 h
      exact ⟨rfl, rfl, rfl, fun _ => rfl⟩
    · have hnone : { c.inst with writtenStepType := c.inst.pin.stepType }.hash = none :=
        hash_eq_none hwidth
      rw [updateMode] at h
      dsimp only at h
      rw [if_neg hplain, hnone] at h
      cases h

/-- The mode is written. -/
def Channel.sendMode (c : Channel) : Channel := { c with hw.mode := c.modeReg }

/-- An update is right exactly for the supported step types. -/
lemma updateMode_iff (c : Channel) :
    (∃ c', updateMode c = some c' ∧ Agrees c'.sendMode) ↔
      Supported c.inst.tableWidth c.inst.pin := by
  by_cases hplain : c.inst.pin.stepType ≤ 2
  · refine iff_of_true ⟨_, updateMode_plain hplain, ?_, fun htable => ?_⟩ (.inl hplain)
    · exact (if_pos hplain).symm
    · have htable' : 2 < c.inst.pin.stepType := htable
      exact absurd hplain (by bv_omega)
  · have hmode : modeOf c.inst.tableWidth c.inst.pin
        = if Supported c.inst.tableWidth c.inst.pin then 3 else 0 := if_neg hplain
    constructor
    · rintro ⟨c', hc', hagrees⟩
      obtain ⟨hpin, hwidth', -⟩ := updateMode_some hc'
      by_cases hwidth : 2 < c.inst.tableWidth
      · rw [updateMode_table hplain hwidth] at hc'
        obtain ⟨data, -, rfl⟩ := Option.map_eq_some_iff.1 hc'
        by_contra hnot
        have hthree : (3 : BitVec 32) = modeOf c.inst.tableWidth c.inst.pin := hagrees.mode
        rw [hmode, if_neg hnot] at hthree
        exact absurd hthree (by decide)
      · have hnone : { c.inst with writtenStepType := c.inst.pin.stepType }.hash = none :=
          hash_eq_none hwidth
        rw [updateMode] at hc'
        dsimp only at hc'
        rw [if_neg hplain, hnone] at hc'
        cases hc'
    · intro hsup
      obtain ⟨hle, hsixteen⟩ := hsup.resolve_left hplain
      have hwidth : 2 < c.inst.tableWidth := by bv_omega
      have hturns := tableTurns_eq (e := c.inst) (by bv_omega) hsixteen
      have hdata := sendTable_eq hwidth (j := c.inst.tableTurns) (by rw [hturns]; bv_omega)
        c.hw.tableData
      refine ⟨_, (updateMode_table hplain hwidth).trans (congrArg (Option.map _) hdata), ?_, ?_⟩
      · exact (hmode.trans (if_pos hsup)).symm
      · intro _ _
        refine ⟨rfl, ?_⟩
        show ((List.range c.inst.tableTurns).map (tableByte c.inst.pin)
          ++ c.hw.tableData).take c.inst.pin.stepType.toNat = _
        rw [hturns]
        exact List.take_left' (by rw [List.length_map, List.length_range])

/-! ### Writes -/

/-- A change of the table that the exclusive or shows, unless the step type shows it. -/
def Fresh (old new : Pins) : Prop :=
  new.stepType = old.stepType → 2 < new.stepType → tableXor new = tableXor old →
    tableBytes new = tableBytes old

/-- The channel after a write: what is noted is what was sent. -/
structure Sent (c : Channel) : Prop where
  written : c.inst.writtenStepType = c.inst.pin.stepType
  hash : 2 < c.inst.pin.stepType → c.inst.tableHash = tableXor c.inst.pin
  supported : Supported c.inst.tableWidth c.inst.pin
  agrees : Agrees c

/-- The pins are set. -/
def Channel.setPins (c : Channel) (p : Pins) : Channel := { c with inst.pin := p }

lemma sent_of_update (h : updateMode c = some c') (hagrees : Agrees c'.sendMode) :
    Sent c'.sendMode := by
  obtain ⟨hpin, hwidth, hwritten, hhash⟩ := updateMode_some h
  have hsup := (updateMode_iff c).1 ⟨c', h, hagrees⟩
  refine ⟨?_, fun htable => ?_, ?_, hagrees⟩
  · exact hwritten.trans (congrArg Pins.stepType hpin).symm
  · have htable' : 2 < c'.inst.pin.stepType := htable
    rw [hpin] at htable'
    exact (hhash htable').trans (congrArg tableXor hpin).symm
  · show Supported c'.inst.tableWidth c'.inst.pin
    rwa [hpin, hwidth]

lemma writeMode_changed (h : modeChanged c.inst = some true) :
    writeMode c = (updateMode c).map Channel.sendMode := by
  rw [writeMode, h, Option.map_eq_bind]
  rfl

lemma writeMode_unchanged (h : modeChanged c.inst = some false) : writeMode c = some c := by
  rw [writeMode, h]
  rfl

/-- A write that updates the mode. -/
lemma writeMode_iff_of_changed (h : modeChanged c.inst = some true) :
    (∃ c', writeMode c = some c' ∧ Agrees c') ↔ Supported c.inst.tableWidth c.inst.pin := by
  rw [← updateMode_iff, writeMode_changed h]
  constructor
  · rintro ⟨c', hc', hagrees⟩
    obtain ⟨c'', hc'', rfl⟩ := Option.map_eq_some_iff.1 hc'
    exact ⟨c'', hc'', hagrees⟩
  · rintro ⟨c'', hc'', hagrees⟩
    exact ⟨_, by rw [hc'', Option.map_some], hagrees⟩

/-- The same step type as at the last write, and the same exclusive or: the write is right exactly
if the table is the same. -/
lemma writeMode_iff_of_same (h : Sent c) (htype : p.stepType = c.inst.pin.stepType)
    (htable : 2 < p.stepType) (hxor : tableXor p = tableXor c.inst.pin) :
    (∃ c', writeMode (c.setPins p) = some c' ∧ Agrees c') ↔
      tableBytes p = tableBytes c.inst.pin := by
  have hsup : Supported c.inst.tableWidth p := by
    have hold := h.supported
    rwa [Supported, ← htype] at hold
  have hwidth : 2 < c.inst.tableWidth := by
    obtain ⟨hle, -⟩ := hsup.resolve_left (by bv_omega)
    bv_omega
  have hunchanged : modeChanged (c.setPins p).inst = some false := by
    have hhash : (c.setPins p).inst.hash = some (tableXor p) := hash_eq hwidth
    have hsame : tableXor p = c.inst.tableHash := by rw [hxor, h.hash (htype ▸ htable)]
    rw [modeChanged, hhash, if_neg, if_pos]
    · exact congrArg some (decide_eq_false (not_not.2 hsame))
    · exact htable
    · exact not_not.2 (htype.trans h.written.symm)
  rw [writeMode_unchanged hunchanged]
  have hold := h.agrees.table (htype ▸ htable) h.supported
  constructor
  · rintro ⟨c', hc', hagrees⟩
    cases hc'
    have hdata : c.hw.tableData.take p.stepType.toNat = tableBytes p :=
      (hagrees.table htable hsup).2
    rw [← hdata, htype, hold.2]
  · intro hbytes
    refine ⟨_, rfl, ?_, fun _ _ => ⟨hold.1.trans htype.symm, ?_⟩⟩
    · have hmode := h.agrees.mode
      simp only [modeOf, Supported, ← htype] at hmode
      exact hmode
    · show c.hw.tableData.take p.stepType.toNat = tableBytes p
      rw [hbytes, htype, hold.2]

/-- What is there after a write, if it was right before. -/
lemma writeMode_iff (h : Sent c) (p : Pins) :
    (∃ c', writeMode (c.setPins p) = some c' ∧ Agrees c') ↔
      Supported c.inst.tableWidth p ∧ Fresh c.inst.pin p := by
  by_cases htype : p.stepType = c.inst.pin.stepType
  · have hsup : Supported c.inst.tableWidth p := by
      have hold := h.supported
      rwa [Supported, ← htype] at hold
    by_cases htable : 2 < p.stepType
    · by_cases hxor : tableXor p = tableXor c.inst.pin
      · rw [writeMode_iff_of_same h htype htable hxor]
        exact ⟨fun hbytes => ⟨hsup, fun _ _ _ => hbytes⟩, fun hfresh => hfresh.2 htype htable hxor⟩
      · have hchanged : modeChanged (c.setPins p).inst = some true := by
          have hwidth : 2 < c.inst.tableWidth := by
            obtain ⟨hle, -⟩ := hsup.resolve_left (by bv_omega)
            bv_omega
          have hhash : (c.setPins p).inst.hash = some (tableXor p) := hash_eq hwidth
          have hother : tableXor p ≠ c.inst.tableHash := by
            rwa [h.hash (htype ▸ htable)]
          rw [modeChanged, hhash, if_neg, if_pos]
          · exact congrArg some (decide_eq_true hother)
          · exact htable
          · exact not_not.2 (htype.trans h.written.symm)
        rw [writeMode_iff_of_changed hchanged]
        exact iff_of_true hsup ⟨hsup, fun _ _ heq => absurd heq hxor⟩
    · have hunchanged : modeChanged (c.setPins p).inst = some false := by
        rw [modeChanged, if_neg, if_neg]
        · exact htable
        · exact not_not.2 (htype.trans h.written.symm)
      have hplain : p.stepType ≤ 2 := by bv_omega
      refine iff_of_true ⟨_, writeMode_unchanged hunchanged, ?_, fun h => absurd h htable⟩
        ⟨hsup, fun _ h => absurd h htable⟩
      have hmode := h.agrees.mode
      rw [modeOf, if_pos (htype ▸ hplain), ← htype] at hmode
      exact hmode.trans (if_pos hplain).symm
  · have hchanged : modeChanged (c.setPins p).inst = some true :=
      if_pos fun heq => htype (heq.trans h.written)
    rw [writeMode_iff_of_changed hchanged]
    exact ⟨fun hsup => ⟨hsup, fun heq => absurd heq htype⟩, fun h => h.1⟩

lemma modeChanged_false (h : modeChanged e = some false) :
    e.pin.stepType = e.writtenStepType ∧ (2 < e.pin.stepType → e.hash = some e.tableHash) := by
  rw [modeChanged] at h
  split_ifs at h with htype htable
  · cases h
  · obtain ⟨hash, hhash, heq⟩ := Option.map_eq_some_iff.1 h
    exact ⟨not_not.1 htype, fun _ => hhash.trans
      (congrArg some (not_not.1 (of_decide_eq_false heq)))⟩
  · exact ⟨not_not.1 htype, fun h => absurd h htable⟩

/-- After a write that is right, what is noted is again what was sent. -/
lemma sent_of_write (h : Sent c) (hwrite : writeMode (c.setPins p) = some c')
    (hagrees : Agrees c') : Sent c' := by
  obtain ⟨hsup, -⟩ := (writeMode_iff h p).1 ⟨c', hwrite, hagrees⟩
  rcases hchanged : modeChanged (c.setPins p).inst with - | ⟨-⟩ | -
  · rw [writeMode, hchanged] at hwrite
    cases hwrite
  · rw [writeMode_unchanged hchanged] at hwrite
    cases hwrite
    obtain ⟨htype, hhash⟩ := modeChanged_false hchanged
    refine ⟨htype.symm, fun htable => ?_, hsup, hagrees⟩
    have hwidth : 2 < c.inst.tableWidth := by
      have htable' : 2 < p.stepType := htable
      obtain ⟨hle, -⟩ := hsup.resolve_left (by bv_omega)
      bv_omega
    have hsome : (c.setPins p).inst.hash = some (tableXor p) := hash_eq hwidth
    exact Option.some.inj ((hhash htable).symm.trans hsome)
  · rw [writeMode_changed hchanged] at hwrite
    obtain ⟨c'', hupdate, rfl⟩ := Option.map_eq_some_iff.1 hwrite
    exact sent_of_update hupdate hagrees

/-! ### Runs -/

/-- The pins that were set since the last write, and how the modes are written. -/
inductive Action where
  | write (p : ℕ → Pins)
  | forceWrite (p : ℕ → Pins)

/-- The pins of all instances are set. -/
def setAll (cs : ℕ → Channel) (p : ℕ → Pins) (i : ℕ) : Channel := (cs i).setPins (p i)

/-- `hm2_stepgen_write`, or `hm2_stepgen_force_write` behind a watchdog bite. -/
def step (n : ℕ) (cs : ℕ → Channel) : Action → Option (ℕ → Channel)
  | .write p => writeModes n (setAll cs p)
  | .forceWrite p => forceWriteMode n (setAll cs p)

/-- Supported step types, and no change of a table that the exclusive or does not show. -/
def Shown (n : ℕ) (cs : ℕ → Channel) : Action → Prop
  | .write p => ∀ i < n,
      Supported (cs i).inst.tableWidth (p i) ∧ Fresh (cs i).inst.pin (p i)
  | .forceWrite p => ∀ i < n, Supported (cs i).inst.tableWidth (p i)

variable {n : ℕ} {cs cs' : ℕ → Channel}

/-- An update whose mode is written. -/
def forceMode (c : Channel) : Option Channel := (updateMode c).map Channel.sendMode

/-- The modes may as well be written one by one. -/
lemma forceWriteMode_iff_each (cs cs' : ℕ → Channel) :
    forceWriteMode n cs = some cs' ↔ Each n (fun _ => forceMode) cs cs' := by
  rw [forceWriteMode]
  constructor
  · intro h
    obtain ⟨cs₁, hcs₁, hsend⟩ := Option.bind_eq_some_iff.1 h
    obtain ⟨hin, hout⟩ := (foldlM_iff_each (fun _ => updateMode) _ _).1 hcs₁
    cases hsend
    refine ⟨fun i hi => ?_, fun i hi => ?_⟩
    · have hupdate : updateMode (cs i) = some (cs₁ i) := hin i hi
      dsimp only
      rw [forceMode, hupdate, Option.map_some, if_pos hi]
      rfl
    · dsimp only
      rw [if_neg hi, hout i hi]
  · rintro ⟨hin, hout⟩
    obtain ⟨cs₁, heach⟩ := exists_each (f := fun _ => updateMode) fun i hi => by
      obtain ⟨c', hc', -⟩ := Option.map_eq_some_iff.1 (hin i hi)
      exact ⟨c', hc'⟩
    refine Option.bind_eq_some_iff.2 ⟨cs₁, (foldlM_iff_each (fun _ => updateMode) _ _).2 heach, ?_⟩
    refine congrArg some (funext fun i => ?_)
    split_ifs with hi
    · have hforce : forceMode (cs i) = some (cs' i) := hin i hi
      have hupdate : updateMode (cs i) = some (cs₁ i) := heach.1 i hi
      rw [forceMode, hupdate, Option.map_some] at hforce
      exact Option.some.inj hforce
    · rw [heach.2 i hi, hout i hi]

lemma forceMode_iff (c : Channel) :
    (∃ c', forceMode c = some c' ∧ Agrees c') ↔ Supported c.inst.tableWidth c.inst.pin := by
  rw [← updateMode_iff]
  constructor
  · rintro ⟨c', hc', hagrees⟩
    obtain ⟨c'', hc'', rfl⟩ := Option.map_eq_some_iff.1 hc'
    exact ⟨c'', hc'', hagrees⟩
  · rintro ⟨c'', hc'', hagrees⟩
    exact ⟨c''.sendMode, by rw [forceMode, hc'', Option.map_some], hagrees⟩

/-- The step of all instances: right exactly if the pins are such. -/
lemma step_iff (h : ∀ i < n, Sent (cs i)) (a : Action) :
    (∃ cs', step n cs a = some cs' ∧ ∀ i < n, Agrees (cs' i)) ↔ Shown n cs a := by
  cases a with
  | write p =>
    simp only [step, writeModes, foldlM_iff_each fun _ => writeMode]
    rw [exists_each_iff (P := fun _ => Agrees)]
    exact forall₂_congr fun i hi => writeMode_iff (h i hi) (p i)
  | forceWrite p =>
    simp only [step, forceWriteMode_iff_each]
    rw [exists_each_iff (P := fun _ => Agrees)]
    exact forall₂_congr fun i _ => forceMode_iff _

lemma sent_of_force (h : forceMode c = some c') (hagrees : Agrees c') : Sent c' := by
  obtain ⟨c'', hupdate, rfl⟩ := Option.map_eq_some_iff.1 h
  exact sent_of_update hupdate hagrees

/-- A step that is right keeps what is noted. -/
lemma sent_step (h : ∀ i < n, Sent (cs i)) {a : Action} (hstep : step n cs a = some cs')
    (hagrees : ∀ i < n, Agrees (cs' i)) : ∀ i < n, Sent (cs' i) := by
  intro i hi
  cases a with
  | write p =>
    have heach := (foldlM_iff_each (fun _ => writeMode) _ _).1 hstep
    exact sent_of_write (h i hi) (heach.1 i hi) (hagrees i hi)
  | forceWrite p =>
    have heach := (forceWriteMode_iff_each _ _).1 hstep
    exact sent_of_force (heach.1 i hi) (hagrees i hi)

/-- **In every run of writes of this kind the next write leaves the registers as the pins say, and
reads no table pin that is not there, exactly if it is of this kind too.** -/
theorem mode_follows_iff {cs₀ init : ℕ → Channel}
    (hinit : ∀ i < n, (init i).inst.pin.stepType = 0) (hstart : forceWriteMode n init = some cs₀)
    (h : Reach (step n) (Shown n) cs₀ cs) (a : Action) :
    (∃ cs', step n cs a = some cs' ∧ ∀ i < n, Agrees (cs' i)) ↔ Shown n cs a := by
  have hsent : ∀ i < n, Sent (cs i) := by
    refine Reach.invariant (P := fun cs => ∀ i < n, Sent (cs i)) (fun i hi => ?_)
      (fun {cs a cs'} hsent hshown hstep => ?_) h
    · have heach := (forceWriteMode_iff_each _ _).1 hstart
      have hplain : (init i).inst.pin.stepType ≤ 2 := by
        rw [hinit i hi]
        decide
      obtain ⟨c', hc', hagrees⟩ := (forceMode_iff (init i)).2 (.inl hplain)
      cases hc'.symm.trans (heach.1 i hi)
      exact sent_of_force hc' hagrees
    · obtain ⟨cs'', hcs'', hagrees⟩ := (step_iff hsent a).2 hshown
      cases hcs''.symm.trans hstep
      exact sent_step hsent hstep hagrees
  exact step_iff hsent a

/-- A step generator with eight pins: the number of the last one has the bit of an output. -/
def eightWide : Channel where
  inst := { quiet with tableWidth := 0x88 }
  modeReg := 0
  hw := { mode := 0, tableData := [], tableLength := 0 }

/-- A table of `entries` entries, from one word. -/
def tablePins (entries word : BitVec 32) : Pins :=
  { quiet.pin with stepType := entries, table := #v[word, 0, 0, 0] }

/-- A table of five entries. -/
theorem mode_follows_five : ∃ cs₀ cs',
    forceWriteMode 1 (fun _ => eightWide) = some cs₀ ∧
      step 1 cs₀ (.write fun _ => tablePins 5 0x04030201) = some cs' ∧
      ∀ i < 1, Agrees (cs' i) := by
  obtain ⟨cs₀, hstart⟩ : ∃ cs₀, forceWriteMode 1 (fun _ => eightWide) = some cs₀ := ⟨_, rfl⟩
  obtain ⟨cs', hstep, hagrees⟩ := (mode_follows_iff (fun i _ => rfl) hstart Reach.refl
    (.write fun _ => tablePins 5 0x04030201)).2 fun i hi => by
      cases hstart
      obtain rfl : i = 0 := Nat.lt_one_iff.1 hi
      exact ⟨by decide, fun h => absurd h (by decide)⟩
  exact ⟨cs₀, cs', hstart, hstep, hagrees⟩

/-- A table of 17 entries: the entry behind the table pins is read. -/
theorem mode_unsupported :
    ¬ ∀ (n : ℕ) (cs₀ init : ℕ → Channel) (p : ℕ → Pins),
      (∀ i < n, (init i).inst.pin.stepType = 0) → forceWriteMode n init = some cs₀ →
      ∃ cs', step n cs₀ (.write p) = some cs' ∧ ∀ i < n, Agrees (cs' i) := by
  intro hall
  obtain ⟨cs', hstep, -⟩ := hall 1 _ (fun _ => eightWide) (fun _ => tablePins 17 0x04030201)
    (fun i _ => rfl) rfl
  cases hstep

/-- A table of nine entries for a firmware with eight: the mode is not 0 but 3. -/
example : (writeMode { eightWide with
    inst := { quiet with tableWidth := 8, pin := tablePins 9 0x04030201 } }).map
      (fun c => c.hw.mode) = some 3 := by
  decide

end MachinekitHal.Hm2Stepgen
