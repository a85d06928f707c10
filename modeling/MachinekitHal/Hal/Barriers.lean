import MachinekitHal.Hal.SignalLinkage

/-!
Memory barriers of signals and pins.

A signal that demands a barrier hands it on to the pins linked to it: when a pin is linked,
and when the barriers of the signal are set.

* `Halhdr.demand`: what inheritance is for: the barriers the signal demands are added to
  those of the pin.
* `BarriersOk`: every linked pin has the barriers its signal demands of it.
* `barrier_inheritance`: this holds in every state as long as no signal demands a write
  barrier, but no read barrier, of a pin that writes, and no pin is denied by hand what its
  signal demands.
* `barrier_inheritance_writeBarrier`: a write barrier is inherited as the read barrier is.
-/

namespace MachinekitHal

open Store Runs

/-- `HAL_MAX_NAME_LEN`. -/
def halMaxNameLen : ℕ := 127

/-- The flags after `halg_object_setbarriers`: unset for `0`, left as they are for `-1`. -/
def Halhdr.setBarriers (hh : Halhdr) (readBarrier writeBarrier : ℤ) : Halhdr :=
  { hh with
    rmb := if -1 < readBarrier then readBarrier ≠ 0 else hh.rmb
    wmb := if -1 < writeBarrier then writeBarrier ≠ 0 else hh.wmb }

namespace Hal

variable (h : Hal)

/-- `halg_object_setbarriers` on the pin at `off`. -/
def setbarriersPin (off : ℕ) (readBarrier writeBarrier : ℤ) : Option Errno × Hal :=
  match h.pinAt off with
  | none => (some .EINVAL, h)
  | some pin =>
    if !pin.hdr.valid || pin.hdr.legacy then (some .EINVAL, h)
    else (none, { h with
      pins := modify Obj.off off
        (fun o => { o with hdr := o.hdr.setBarriers readBarrier writeBarrier }) h.pins })

/-- The barriers of the signal at `off` are set. -/
def setSigFlags (off : ℕ) (readBarrier writeBarrier : ℤ) : Hal :=
  { h with
    sigs := modify Obj.off off
      (fun o => { o with hdr := o.hdr.setBarriers readBarrier writeBarrier }) h.sigs }

/-- `halg_object_setbarriers` on the signal at `off`, which propagates to the pins. -/
def setbarriersSig (off : ℕ) (readBarrier writeBarrier : ℤ) : Option Errno × Hal :=
  match h.sigAt off with
  | none => (some .EINVAL, h)
  | some sig =>
    if !sig.hdr.valid then (some .EINVAL, h)
    else (none, (h.setSigFlags off readBarrier writeBarrier).propagateBarriers
      { sig with hdr := sig.hdr.setBarriers readBarrier writeBarrier })

/-- `halg_signal_setbarriers`. -/
def halgSignalSetbarriers (name : String) (readBarrier writeBarrier : ℤ) : Option Errno × Hal :=
  if h.locked halLockConfig then (some .EPERM, h) else
  if halMaxNameLen < name.length then (some .EINVAL, h) else
  match findByName name h.sigs with
  | none => (some .ENOENT, h)
  | some sig =>
    let h := (h.setbarriersSig sig.off readBarrier writeBarrier).2
    -- now propagate any changes to linked pins
    (none, h.propagateBarriers
      { sig with hdr := sig.hdr.setBarriers readBarrier writeBarrier })

end Hal

/-- An operation on pins and signals or their barriers. -/
inductive BarrierAct where
  | link (a : LinkAct)
  | signalSetbarriers (name : String) (readBarrier writeBarrier : ℤ)
  | setSig (off : ℕ) (readBarrier writeBarrier : ℤ)
  | setPin (off : ℕ) (readBarrier writeBarrier : ℤ)

/-- One operation; new descriptors are in free memory. -/
def barrierStep (h : Hal) : BarrierAct → Option Hal
  | .link a => if linkAlloc h a then linkStep h a else none
  | .signalSetbarriers name readBarrier writeBarrier =>
    some (h.halgSignalSetbarriers name readBarrier writeBarrier).2
  | .setSig off readBarrier writeBarrier =>
    some (h.setbarriersSig off readBarrier writeBarrier).2
  | .setPin off readBarrier writeBarrier =>
    some (h.setbarriersPin off readBarrier writeBarrier).2

/-- The pin writes to its signal. -/
def HalPinDir.writes : HalPinDir → Bool
  | .halOut | .halIo => true
  | _ => false

/-- The pin reads from its signal. -/
def HalPinDir.reads : HalPinDir → Bool
  | .halIn | .halIo => true
  | _ => false

/-- What inheritance is for: the header of a pin of direction `dir` with the barriers added
that the header of the signal demands. -/
def Halhdr.demand (pin sig : Halhdr) (dir : HalPinDir) : Halhdr :=
  { pin with rmb := pin.rmb || (sig.rmb && dir.reads), wmb := pin.wmb || (sig.wmb && dir.writes) }

/-- The pin has the barriers that the signal demands of it. -/
def Covers (pin sig : Halhdr) (dir : HalPinDir) : Prop :=
  (sig.rmb = true → dir.reads = true → pin.rmb = true) ∧
    (sig.wmb = true → dir.writes = true → pin.wmb = true)
  deriving Decidable

/-- Every linked pin has the barriers its signal demands of it. -/
def BarriersOk (h : Hal) : Prop :=
  ∀ p ∈ h.pins, p.hdr.valid = true → ∀ g ∈ h.sigs, g.hdr.valid = true →
    p.body.signal = g.off → Covers p.hdr g.hdr p.body.dir

/-- A pin that writes is linked to the signal at `off`. -/
def Hal.hasWriter (h : Hal) (off : ℕ) : Bool :=
  h.pins.any fun p => p.hdr.valid && pinLinkedTo off p && p.body.dir.writes

/-- A signal that demands a write barrier of a pin demands a read barrier, too. -/
def Hal.demandsBoth (h : Hal) (off : ℕ) (hh : Halhdr) : Bool :=
  !(hh.wmb && !hh.rmb) || !h.hasWriter off

/-- The condition on an operation: no signal demands a write barrier, but no read barrier, of
a pin that writes, and no pin is denied what its signal demands. -/
def barrierOk (h : Hal) : BarrierAct → Bool
  | .link (.link pinName sigName) =>
    match findByName pinName h.pins, findByName sigName h.sigs with
    | some pin, some sig =>
      h.demandsBoth sig.off sig.hdr &&
        (!(sig.hdr.wmb && !sig.hdr.rmb) || !pin.body.dir.writes)
    | _, _ => true
  | .link _ => true
  | .signalSetbarriers name readBarrier writeBarrier =>
    (findByName name h.sigs).all fun sig =>
      h.demandsBoth sig.off (sig.hdr.setBarriers readBarrier writeBarrier)
  | .setSig off readBarrier writeBarrier =>
    (h.sigAt off).all fun sig =>
      h.demandsBoth sig.off (sig.hdr.setBarriers readBarrier writeBarrier)
  | .setPin off readBarrier writeBarrier =>
    (h.pinAt off).all fun pin =>
      h.sigs.all fun sig => !(sig.hdr.valid && pinLinkedTo sig.off pin) ||
        decide (Covers (pin.hdr.setBarriers readBarrier writeBarrier) sig.hdr pin.body.dir)

/-! ### Inheritance -/

variable {h h' h₀ : Hal}

/-- The header inherited is the one demanded, unless a pin that writes is linked to a signal
with a write barrier and no read barrier. -/
lemma Halhdr.inherit_eq_demand_iff (pin sig : Halhdr) (dir : HalPinDir) :
    pin.inherit sig dir = pin.demand sig dir
      ↔ (dir.writes = true → sig.wmb = true → sig.rmb = true) := by
  obtain ⟨id, ownerId, name, refcnt, legacy, valid, rmb, wmb⟩ := pin
  cases dir <;> cases hr : sig.rmb <;> cases hw : sig.wmb <;>
    simp [Halhdr.inherit, Halhdr.demand, HalPinDir.reads, HalPinDir.writes, hr, hw]

/-- Inheritance changes nothing but the barriers. -/
@[simp] lemma Halhdr.inherit_valid (pin sig : Halhdr) (dir : HalPinDir) :
    (pin.inherit sig dir).valid = pin.valid := by
  cases dir <;> rfl

/-- What is demanded is covered. -/
lemma covers_demand (pin sig : Halhdr) (dir : HalPinDir) : Covers (pin.demand sig dir) sig dir := by
  constructor
  · intro hr hd
    simp [Halhdr.demand, hr, hd]
  · intro hw hd
    simp [Halhdr.demand, hw, hd]

/-- The pin after the barriers of the signal were propagated. -/
def inheritedFrom (sig : Obj Sig) (p : Obj Pin) : Obj Pin :=
  if p.hdr.valid && pinLinkedTo sig.off p then { p with hdr := p.hdr.inherit sig.hdr p.body.dir }
  else p

/-- The pin with the barriers added that the signal demands of it. -/
def demandedBy (sig : Obj Sig) (p : Obj Pin) : Obj Pin :=
  if p.hdr.valid && pinLinkedTo sig.off p then { p with hdr := p.hdr.demand sig.hdr p.body.dir }
  else p

/-- Propagating barriers changes the linked pins, and nothing else. -/
lemma propagateBarriers_pins (hnd : (h.pins.map Obj.off).Nodup) (sig : Obj Sig) :
    (h.propagateBarriers sig).pins = h.pins.map (inheritedFrom sig) := by
  rw [Hal.propagateBarriers, Hal.foreachPinBySignal, halgForeach_modify
    (f := fun p => { p with hdr := p.hdr.inherit sig.hdr p.body.dir }) (fun _ _ => rfl)
    (fun _ => rfl) hnd]
  rfl

lemma propagateBarriers_eq (sig : Obj Sig) :
    ∃ pins, h.propagateBarriers sig = { h with pins := pins } := by
  refine halgForeach_rule (P := fun t => ∃ pins, t = { h with pins := pins }) ?_ ⟨h.pins, rfl⟩
  rintro _ p ⟨pins, rfl⟩ - - -
  exact ⟨_, rfl⟩

/-- Inheritance adds the barriers demanded, and changes nothing else, exactly if the signal
does not demand a write barrier, but no read barrier, of a pin that writes. -/
theorem propagateBarriers_iff (hnd : (h.pins.map Obj.off).Nodup) (sig : Obj Sig) :
    h.propagateBarriers sig = { h with pins := h.pins.map (demandedBy sig) }
      ↔ h.demandsBoth sig.off sig.hdr = true := by
  have hboth : h.demandsBoth sig.off sig.hdr = true ↔ ∀ p ∈ h.pins, p.hdr.valid = true →
      pinLinkedTo sig.off p = true → p.body.dir.writes = true → sig.hdr.wmb = true →
        sig.hdr.rmb = true := by
    simp only [Hal.demandsBoth, Hal.hasWriter, Bool.or_eq_true, Bool.not_eq_true',
      Bool.and_eq_false_iff, List.any_eq_false, Bool.and_eq_true, not_and]
    constructor
    · rintro ((hw | hr) | hno) p hp hv hl hd hwt
      · rw [hw] at hwt
        exact absurd hwt Bool.false_ne_true
      · simpa using hr
      · exact absurd hd (by simpa using hno p hp ⟨hv, hl⟩)
    · intro hall
      by_cases hw : sig.hdr.wmb = true
      · by_cases hr : sig.hdr.rmb = true
        · exact .inl (.inr (by simp [hr]))
        · exact .inr fun p hp hvl hd => hr (hall p hp hvl.1 hvl.2 hd hw)
      · exact .inl (.inl (by simpa using hw))
  obtain ⟨pins, hpins⟩ := propagateBarriers_eq (h := h) sig
  have hmap : pins = h.pins.map (inheritedFrom sig) := by
    rw [← propagateBarriers_pins hnd, hpins]
  have heq : h.propagateBarriers sig = { h with pins := h.pins.map (demandedBy sig) }
      ↔ h.pins.map (inheritedFrom sig) = h.pins.map (demandedBy sig) := by
    rw [hpins, hmap]
    constructor
    · exact fun he => congrArg Hal.pins he
    · intro he
      rw [he]
  rw [heq, hboth, List.map_inj_left]
  refine forall₂_congr fun p _ => ?_
  rw [inheritedFrom, demandedBy]
  by_cases hs : (p.hdr.valid && pinLinkedTo sig.off p) = true
  · rw [if_pos hs, if_pos hs]
    simp only [Bool.and_eq_true] at hs
    rw [show ((⟨p.off, p.hdr.inherit sig.hdr p.body.dir, p.body⟩ : Obj Pin)
      = ⟨p.off, p.hdr.demand sig.hdr p.body.dir, p.body⟩)
        ↔ p.hdr.inherit sig.hdr p.body.dir = p.hdr.demand sig.hdr p.body.dir by simp,
      Halhdr.inherit_eq_demand_iff]
    exact ⟨fun hd _ _ => hd, fun hd => hd hs.1 hs.2⟩
  · rw [if_neg hs, if_neg hs]
    simp only [Bool.and_eq_true, not_and] at hs
    exact ⟨fun _ hv hl => absurd hl (hs hv), fun _ => rfl⟩

/-! ### The invariant -/

/-- Every pin linked to a signal has the barriers the signal demands of it, except for the
signal at `e` while it is being linked or changed. -/
structure BarrierInv (e : Option ℕ) (h : Hal) : Prop where
  pinKeys : (h.pins.map Obj.off).Nodup
  sigKeys : (h.sigs.map Obj.off).Nodup
  sigNe : ∀ g ∈ h.sigs, g.off ≠ 0
  covered : ∀ p ∈ h.pins, p.hdr.valid = true → ∀ g ∈ h.sigs, g.hdr.valid = true →
    p.body.signal = g.off → some g.off ≠ e → Covers p.hdr g.hdr p.body.dir

namespace BarrierInv

variable {e : Option ℕ}

/-- Pins may be unlinked, and signals without barriers may be added. -/
lemma mono (hI : BarrierInv e h) {e' : Option ℕ} (hpk : (h'.pins.map Obj.off).Nodup)
    (hsk : (h'.sigs.map Obj.off).Nodup) (hne : ∀ g ∈ h'.sigs, g.off ≠ 0)
    (hp : ∀ p' ∈ h'.pins, p'.hdr.valid = true →
      p'.body.signal = 0 ∨ some p'.body.signal = e' ∨ ∃ p ∈ h.pins, p.hdr = p'.hdr ∧
        p.body.signal = p'.body.signal ∧ p.body.dir = p'.body.dir)
    (hs : ∀ g' ∈ h'.sigs, g'.hdr.valid = true →
      (g'.hdr.rmb = false ∧ g'.hdr.wmb = false) ∨ ∃ g ∈ h.sigs, g.hdr = g'.hdr ∧ g.off = g'.off)
    (he : ∀ off, some off ≠ e' → some off ≠ e) : BarrierInv e' h' := by
  refine ⟨hpk, hsk, hne, ?_⟩
  intro p' hp' hv g' hg' hgv hl hex
  rcases hs g' hg' hgv with ⟨hr, hw⟩ | ⟨g, hg, hgh, hgo⟩
  · exact ⟨fun h => absurd (hr ▸ h) Bool.false_ne_true,
      fun h => absurd (hw ▸ h) Bool.false_ne_true⟩
  · rcases hp p' hp' hv with h0 | hs' | ⟨p, hpm, hph, hps, hpd⟩
    · exact absurd (hl ▸ h0) (hne g' hg')
    · exact absurd (hl ▸ hs') hex
    · rw [← hph, ← hgh, ← hpd]
      exact hI.covered p hpm (hph ▸ hv) g hg (hgh ▸ hgv) (by rw [hps, hl, hgo])
        (he _ (hgo ▸ hex))

/-- Propagating the barriers of a signal restores the invariant for it. -/
lemma propagate (sig : Obj Sig) (hI : BarrierInv (some sig.off) h)
    (hhdr : ∀ g ∈ h.sigs, g.off = sig.off → g.hdr = sig.hdr)
    (hboth : h.demandsBoth sig.off sig.hdr = true) : BarrierInv none (h.propagateBarriers sig) := by
  rw [(propagateBarriers_iff hI.pinKeys sig).2 hboth]
  have hkeys : (h.pins.map (demandedBy sig)).map Obj.off = h.pins.map Obj.off := by
    rw [List.map_map]
    refine List.map_congr_left fun p _ => ?_
    rw [Function.comp_apply, demandedBy]
    split_ifs <;> rfl
  refine ⟨hkeys.symm ▸ hI.pinKeys, hI.sigKeys, hI.sigNe, ?_⟩
  intro p' hp' hv g hg hgv hl _
  obtain ⟨p, hp, rfl⟩ := List.mem_map.1 hp'
  by_cases hs : (p.hdr.valid && pinLinkedTo sig.off p) = true
  · rw [demandedBy, if_pos hs] at hl ⊢
    simp only [Bool.and_eq_true, pinLinkedTo, beq_iff_eq] at hs
    rw [hhdr g hg (hl.symm.trans hs.2)]
    exact covers_demand p.hdr sig.hdr p.body.dir
  · rw [demandedBy, if_neg hs] at hv hl ⊢
    refine hI.covered p hp hv g hg hgv hl fun hoff => hs ?_
    simp [hv, pinLinkedTo, hl, Option.some.inj hoff]

lemma unlinkPin (hI : BarrierInv none h) (off : ℕ) : BarrierInv none (h.unlinkPin off) := by
  rw [Hal.unlinkPin]
  split
  · exact hI
  · next pin _ =>
      split_ifs
      · refine hI.mono ?_ ?_ ?_ ?_ ?_ fun _ hoff => hoff
        · simp only [Hal.modifyPin, Hal.modifySig_pins, Hal.setCell_pins]
          rw [keys_modify]
          · exact hI.pinKeys
          · exact fun _ => rfl
        · simp only [Hal.modifyPin_sigs, Hal.modifySig, Hal.setCell_sigs]
          rw [keys_modify]
          · exact hI.sigKeys
          · exact fun _ => rfl
        · simp only [Hal.modifyPin_sigs, Hal.modifySig, Hal.setCell_sigs]
          exact forall_modify (fun g hg _ => hI.sigNe g hg) fun g hg _ => hI.sigNe g hg
        · simp only [Hal.modifyPin, Hal.modifySig_pins, Hal.setCell_pins]
          exact forall_modify (fun p hp _ _ => .inr (.inr ⟨p, hp, rfl, rfl, rfl⟩))
            fun p _ _ _ => .inl rfl
        · simp only [Hal.modifyPin_sigs, Hal.modifySig, Hal.setCell_sigs]
          exact forall_modify (fun g hg _ _ => .inr ⟨g, hg, rfl, rfl⟩)
            fun g hg _ _ => .inr ⟨g, hg, rfl, rfl⟩
      · exact hI

/-- Pins and signals disappear. -/
lemma fewer (hI : BarrierInv none h) {pins : List (Obj Pin)} {sigs : List (Obj Sig)}
    (hpk : (pins.map Obj.off).Nodup) (hsk : (sigs.map Obj.off).Nodup)
    (hne : ∀ g ∈ sigs, g.off ≠ 0) (hp : ∀ p ∈ pins, p.hdr.valid = true → p ∈ h.pins)
    (hs : ∀ g ∈ sigs, g.hdr.valid = true → g ∈ h.sigs) :
    BarrierInv none { h with pins := pins, sigs := sigs } :=
  hI.mono hpk hsk hne (fun p hpm hv => .inr (.inr ⟨p, hp p hpm hv, rfl, rfl, rfl⟩))
    (fun g hg hv => .inr ⟨g, hs g hg hv, rfl, rfl⟩) fun _ hoff => hoff

lemma freePinStruct (hI : BarrierInv none h) (off : ℕ) : BarrierInv none (h.freePinStruct off) := by
  have hU := hI.unlinkPin off
  exact hU.fewer (by rw [keys_free]; exact hU.pinKeys) hU.sigKeys hU.sigNe
    (fun _ hp hv => mem_of_mem_free hp hv) fun _ hg _ => hg

lemma freeSigStruct (hI : BarrierInv none h) (sig : Obj Sig) :
    BarrierInv none (h.freeSigStruct sig).2 := by
  have hU : BarrierInv none (h.foreachPinBySignal sig.off fun off h => h.unlinkPin off) :=
    halgForeach_rule (fun _ p hs _ _ _ => hs.unlinkPin p.off) hI
  refine hU.fewer hU.pinKeys (by rw [keys_free]; exact hU.sigKeys) ?_ (fun _ hp _ => hp)
    fun _ hg hv => mem_of_mem_free hg hv
  exact forall_modify (fun g hg _ => hU.sigNe g hg)
    fun g hg _ => by rw [Obj.release_off]; exact hU.sigNe g hg

lemma sweep (hI : BarrierInv none h) :
    BarrierInv none { h with pins := sweep h.pins, sigs := sweep h.sigs } :=
  hI.fewer (nodup_sweep hI.pinKeys) (nodup_sweep hI.sigKeys)
    (fun g hg => hI.sigNe g (mem_sweep.1 hg).1) (fun _ hp _ => (mem_sweep.1 hp).1)
    fun _ hg _ => (mem_sweep.1 hg).1

lemma addPin (hI : BarrierInv none h) {h₁ : Hal} (new : Obj Pin)
    (hoff : new.off ∉ h.pins.map Obj.off) (hsig : new.body.signal = 0)
    (hpins : h₁.pins = addObject new h.pins)
    (hsigs : h₁.sigs = h.sigs) : BarrierInv none h₁ := by
  refine hI.mono ?_ (hsigs ▸ hI.sigKeys) (hsigs ▸ hI.sigNe) ?_ ?_ fun _ hoff => hoff
  · rw [hpins]
    exact nodup_addObject hI.pinKeys hoff
  · intro p hp _
    rcases mem_addObject.1 (hpins ▸ hp) with rfl | hp
    · exact .inl hsig
    · exact .inr (.inr ⟨p, hp, rfl, rfl, rfl⟩)
  · exact fun g hg _ => .inr ⟨g, hsigs ▸ hg, rfl, rfl⟩

/-- A new signal demands nothing. -/
lemma addSig (hI : BarrierInv none h) {new : Obj Sig} (hoff : new.off ∉ h.sigs.map Obj.off)
    (h0 : new.off ≠ 0) (hb : new.hdr.rmb = false ∧ new.hdr.wmb = false) :
    BarrierInv none { h with sigs := addObject new h.sigs } := by
  refine hI.mono hI.pinKeys (nodup_addObject hI.sigKeys hoff) ?_
    (fun p hp _ => .inr (.inr ⟨p, hp, rfl, rfl, rfl⟩)) ?_ fun _ hoff => hoff
  · intro g hg
    rcases mem_addObject.1 hg with rfl | hg
    · exact h0
    · exact hI.sigNe g hg
  · intro g hg _
    rcases mem_addObject.1 hg with rfl | hg
    · exact .inl hb
    · exact .inr ⟨g, hg, rfl, rfl⟩

/-- A pin whose descriptor is changed stays as it is, or refers to the signal at `e'`. -/
lemma modifyPin (hI : BarrierInv e h) (e' : Option ℕ) (off : ℕ) {f : Pin → Pin}
    (hdir : ∀ p, (f p).dir = p.dir) (hsig : ∀ p, (f p).signal = p.signal ∨ some (f p).signal = e')
    (he : ∀ off, some off ≠ e' → some off ≠ e) : BarrierInv e' (h.modifyPin off f) := by
  refine hI.mono ?_ hI.sigKeys hI.sigNe ?_ (fun g hg _ => .inr ⟨g, hg, rfl, rfl⟩) he
  · rw [Hal.modifyPin, keys_modify]
    · exact hI.pinKeys
    · exact fun _ => rfl
  · refine forall_modify (fun p hp _ _ => .inr (.inr ⟨p, hp, rfl, rfl, rfl⟩)) fun p hp _ _ => ?_
    rcases hsig p.body with hs | hs
    · exact .inr (.inr ⟨p, hp, rfl, hs.symm, (hdir p.body).symm⟩)
    · exact .inr (.inl hs)

/-- The descriptor of a signal has no part in it. -/
lemma modifySig (hI : BarrierInv e h) (off : ℕ) (f : Sig → Sig) :
    BarrierInv e (h.modifySig off f) := by
  refine hI.mono hI.pinKeys ?_ ?_ (fun p hp _ => .inr (.inr ⟨p, hp, rfl, rfl, rfl⟩)) ?_
    fun _ hoff => hoff
  · rw [Hal.modifySig, keys_modify]
    · exact hI.sigKeys
    · exact fun _ => rfl
  · exact forall_modify (fun g hg _ => hI.sigNe g hg) fun g hg _ => hI.sigNe g hg
  · exact forall_modify (fun g hg _ _ => .inr ⟨g, hg, rfl, rfl⟩)
      fun g hg _ _ => .inr ⟨g, hg, rfl, rfl⟩

/-- Nor has the cell of a pin. -/
lemma setCell (hI : BarrierInv e h) (pin : Obj Pin) (ref : DataRef) :
    BarrierInv e (h.setCell pin ref) := by
  rw [Hal.setCell]
  split
  · exact ⟨hI.pinKeys, hI.sigKeys, hI.sigNe, hI.covered⟩
  · exact hI

/-- A new link, which hands the barriers of the signal on. -/
lemma linkPin (hI : BarrierInv none h) {pin : Obj Pin} {sig : Obj Sig} (hp : pin ∈ h.pins)
    (hg : sig ∈ h.sigs) (hboth : h.demandsBoth sig.off sig.hdr = true)
    (hnew : (!(sig.hdr.wmb && !sig.hdr.rmb) || !pin.body.dir.writes) = true) :
    BarrierInv none (h.linkPin pin sig).2 := by
  have h1 : BarrierInv none ((h.setCell pin (.value sig.off)).modifyPin pin.off
      fun p => { p with dataPtr := .value sig.off }) :=
    (hI.setCell _ _).modifyPin none _ (fun _ => rfl) (fun _ => .inl rfl) fun _ hoff => hoff
  rw [Hal.linkPin]
  dsimp only
  split
  · exact h1
  · next v _ =>
      have h3 := (h1.modifySig sig.off fun g => { g.count pin.body.dir with value := v }).modifyPin
        (some sig.off) pin.off (f := fun p => { p with signal := sig.off })
        (fun _ => rfl) (fun _ => .inr rfl) (fun _ _ hoff => by cases hoff)
      refine h3.propagate _ ?_ ?_
      · intro g' hg' hgo
        obtain ⟨a, ha, rfl⟩ := mem_modify.1 hg'
        simp only [Hal.modifyPin_sigs, Hal.setCell_sigs] at ha
        split_ifs at hgo ⊢ with hk
        · rw [eq_of_key hI.sigKeys ha hg hk]
        · exact absurd hgo hk
      · -- the pins that write are those from before, and perhaps the new one
        by_cases hw : (sig.hdr.wmb && !sig.hdr.rmb) = true
        · rw [hw] at hnew
          rw [Hal.demandsBoth, hw] at hboth ⊢
          simp only [Bool.not_true, Bool.false_or, Bool.not_eq_true', Hal.hasWriter,
            List.any_eq_false] at hboth hnew ⊢
          intro q hq hsel
          simp only [Hal.modifyPin, Hal.modifySig_pins, Hal.setCell_pins] at hq
          obtain ⟨b, hb, rfl⟩ := mem_modify.1 hq
          obtain ⟨a, ha, rfl⟩ := mem_modify.1 hb
          by_cases hk : a.off = pin.off
          · rw [eq_of_key hI.pinKeys ha hp hk] at hsel
            simp [hnew] at hsel
          · refine hboth a ha ?_
            simpa [hk] using hsel
        · rw [Hal.demandsBoth]
          simp [Bool.not_eq_true _ ▸ hw]

lemma halgLink (hI : BarrierInv none h) (pinName sigName : String)
    (hok : barrierOk h (.link (.link pinName sigName)) = true) :
    BarrierInv none (h.halgLink pinName sigName).2 := by
  rw [Hal.halgLink]
  split_ifs
  · exact hI
  · exact hI
  · exact hI
  · cases hfp : findByName pinName h.pins with
    | none => exact hI
    | some pin =>
      cases hfg : findByName sigName h.sigs with
      | none => exact hI
      | some sig =>
        simp only [barrierOk, hfp, hfg, Bool.and_eq_true] at hok
        simp only
        split_ifs
        · exact hI
        · exact hI
        · exact hI
        · exact hI
        · exact hI
        · exact hI.linkPin (findByName_mem hfp).1 (findByName_mem hfg).1 hok.1 hok.2

lemma halgPinNewfv (hI : BarrierInv none h) {mem : Option Alloc} (hm : h.fresh mem = true)
    (type : HalType) (dir : HalPinDir) (dataPtrAddr : Option ℤ) (ownerId : ℤ)
    (defval : HalDataU) (name : String) :
    BarrierInv none (h.halgPinNewfv mem type dir dataPtrAddr ownerId defval name).2 := by
  rw [Hal.halgPinNewfv]
  split
  · exact hI
  split
  · exact hI
  split
  · exact hI
  split
  · exact hI
  split
  · exact hI
  split
  · exact hI
  split
  · exact hI
  split
  · exact hI
  next new hn =>
  obtain ⟨m, rfl, hoff, -, -, hbody⟩ := halgCreateObject_eq hn
  have hfresh : new.off ∉ h.pins.map Obj.off := by
    intro hmem
    refine (h.fresh_some hm).2 ?_
    simp only [Hal.offsets, List.mem_append]
    exact .inl (.inl (.inl (.inr (hoff ▸ hmem))))
  refine hI.addPin (Hal.newPin new dataPtrAddr) hfresh ?_ (by simp) (by simp)
  simp [Hal.newPin, hbody]

lemma halgSignalNew (hI : BarrierInv none h) {mem : Option Alloc} (hm : h.fresh mem = true)
    (name : String) (type : HalType) : BarrierInv none (h.halgSignalNew mem name type).2 := by
  rw [Hal.halgSignalNew]
  split_ifs
  · exact hI
  · exact hI
  · exact hI
  · split
    · exact hI
    · next new hn =>
        obtain ⟨m, rfl, hoff, -, -, -⟩ := halgCreateObject_eq hn
        obtain ⟨h0, hfresh⟩ := h.fresh_some hm
        have hno : new.off ∉ h.sigs.map Obj.off := by
          intro hmem
          refine hfresh ?_
          simp only [Hal.offsets, List.mem_append]
          exact .inl (.inl (.inr (hoff ▸ hmem)))
        have hadd : BarrierInv none { h with sigs := addObject new h.sigs } :=
          hI.addSig hno (hoff ▸ h0) (halgCreateObject_barriers hn)
        cases type
        case halBit => exact hadd
        case halS32 => exact hadd
        case halU32 => exact hadd
        case halFloat => exact hadd
        all_goals exact hI

/-- `halg_object_setbarriers` on a pin that is not denied what its signal demands. -/
lemma setbarriersPin (hI : BarrierInv none h) (off : ℕ) (rb wb : ℤ)
    (hok : barrierOk h (.setPin off rb wb) = true) :
    BarrierInv none (h.setbarriersPin off rb wb).2 := by
  rw [Hal.setbarriersPin]
  cases hat : h.pinAt off with
  | none => exact hI
  | some pin =>
    obtain ⟨hp, rfl⟩ := (at?_eq_some hI.pinKeys).1 hat
    simp only [barrierOk, hat, Option.all_some, List.all_eq_true] at hok
    dsimp only
    split_ifs with hrefused
    · exact hI
    · refine ⟨?_, hI.sigKeys, hI.sigNe, ?_⟩
      · rw [keys_modify]
        · exact hI.pinKeys
        · exact fun _ => rfl
      · refine forall_modify (fun p hpm _ => hI.covered p hpm) fun p hpm hpo => ?_
        obtain rfl := eq_of_key hI.pinKeys hpm hp hpo
        intro _ g hg hgv hl _
        have hc := hok g hg
        rw [show (g.hdr.valid && pinLinkedTo g.off p) = true by
          simp [hgv, pinLinkedTo, show p.body.signal = g.off from hl]] at hc
        simpa using hc

/-- The state before the barriers of a signal are propagated. -/
lemma setSigFlags (hI : BarrierInv none h) (off : ℕ) (rb wb : ℤ) :
    BarrierInv (some off) (h.setSigFlags off rb wb) := by
  refine ⟨hI.pinKeys, ?_, ?_, ?_⟩
  · rw [Hal.setSigFlags, keys_modify]
    · exact hI.sigKeys
    · exact fun _ => rfl
  · exact forall_modify (fun g hg _ => hI.sigNe g hg) fun g hg _ => hI.sigNe g hg
  · intro p hp hv
    refine forall_modify (fun g hg _ hgv hl _ => ?_) fun g _ hgo _ _ hex => ?_
    · exact hI.covered p hp hv g hg hgv hl (by simp)
    · exact absurd (congrArg some hgo) hex

/-- The flags that are set are those that are propagated. -/
lemma hdr_setSigFlags (hI : BarrierInv none h) {sig : Obj Sig} (hg : sig ∈ h.sigs) (rb wb : ℤ) :
    ∀ g ∈ (h.setSigFlags sig.off rb wb).sigs, g.off = sig.off →
      g.hdr = sig.hdr.setBarriers rb wb := by
  intro g' hg' hgo
  obtain ⟨a, ha, rfl⟩ := mem_modify.1 hg'
  split_ifs at hgo ⊢ with hk
  · rw [eq_of_key hI.sigKeys ha hg hk]
  · exact absurd hgo hk

/-- `halg_object_setbarriers` on a signal: the barriers are set and propagated. -/
lemma setbarriersSig (hI : BarrierInv none h) {sig : Obj Sig} (hg : sig ∈ h.sigs) (rb wb : ℤ)
    (hboth : h.demandsBoth sig.off (sig.hdr.setBarriers rb wb) = true) :
    BarrierInv none (h.setbarriersSig sig.off rb wb).2 := by
  rw [Hal.setbarriersSig, Hal.sigAt, (at?_eq_some hI.sigKeys).2 ⟨hg, rfl⟩]
  dsimp only
  split_ifs
  · exact hI
  · exact (hI.setSigFlags sig.off rb wb).propagate
      { sig with hdr := sig.hdr.setBarriers rb wb } (hI.hdr_setSigFlags hg rb wb) hboth

/-- Propagating once more changes nothing. -/
lemma propagateAgain (hI : BarrierInv none h) (sig : Obj Sig)
    (hhdr : ∀ g ∈ h.sigs, g.off = sig.off → g.hdr = sig.hdr)
    (hboth : h.demandsBoth sig.off sig.hdr = true) : BarrierInv none (h.propagateBarriers sig) :=
  propagate sig ⟨hI.pinKeys, hI.sigKeys, hI.sigNe,
    fun p hp hv g hg hgv hl _ => hI.covered p hp hv g hg hgv hl (by simp)⟩ hhdr hboth

/-- `halg_signal_setbarriers`. -/
lemma halgSignalSetbarriers (hI : BarrierInv none h) (name : String) (rb wb : ℤ)
    (hok : barrierOk h (.signalSetbarriers name rb wb) = true) :
    BarrierInv none (h.halgSignalSetbarriers name rb wb).2 := by
  rw [Hal.halgSignalSetbarriers]
  split_ifs
  · exact hI
  · exact hI
  · cases hf : findByName name h.sigs with
    | none => exact hI
    | some sig =>
      obtain ⟨hg, hgv⟩ := findByName_mem hf
      simp only [barrierOk, hf, Option.all_some] at hok
      have h1 := hI.setbarriersSig hg rb wb hok
      have heq : (h.setbarriersSig sig.off rb wb).2
          = (h.setSigFlags sig.off rb wb).propagateBarriers
            { sig with hdr := sig.hdr.setBarriers rb wb } := by
        rw [Hal.setbarriersSig, Hal.sigAt, (at?_eq_some hI.sigKeys).2 ⟨hg, rfl⟩]
        simp [hgv]
      refine h1.propagateAgain { sig with hdr := sig.hdr.setBarriers rb wb } ?_ ?_
      · obtain ⟨pins, hpins⟩ := propagateBarriers_eq (h := h.setSigFlags sig.off rb wb)
          { sig with hdr := sig.hdr.setBarriers rb wb }
        rw [heq, hpins]
        exact hI.hdr_setSigFlags hg rb wb
      · have hw : (h.setbarriersSig sig.off rb wb).2.hasWriter sig.off = h.hasWriter sig.off := by
          rw [heq, Hal.hasWriter, Hal.hasWriter,
            propagateBarriers_pins (hI.setSigFlags sig.off rb wb).pinKeys, List.any_map]
          refine List.any_congr rfl fun p => ?_
          rw [Function.comp_apply, inheritedFrom]
          split_ifs
          · simp [pinLinkedTo]
          · rfl
        rw [Hal.demandsBoth, hw]
        exact hok

lemma step {a : BarrierAct} (hI : BarrierInv none h) (hok : barrierOk h a = true)
    (hs : barrierStep h a = some h') : BarrierInv none h' := by
  cases a with
  | link a =>
    rw [barrierStep] at hs
    split_ifs at hs with halloc
    cases a with
    | pinNew mem type dir dataPtrAddr ownerId defval name =>
      exact Option.some.inj hs ▸ hI.halgPinNewfv halloc type dir dataPtrAddr ownerId defval name
    | pinDelete off =>
      simp only [linkStep] at hs
      split at hs
      · split_ifs at hs
        exact Option.some.inj hs ▸ hI.freePinStruct off
      · cases hs
    | link pinName sigName => exact Option.some.inj hs ▸ hI.halgLink pinName sigName hok
    | unlink pinName =>
      refine Option.some.inj hs ▸ ?_
      rw [Hal.halgUnlink]
      split_ifs
      · exact hI
      · exact hI
      · split
        · exact hI
        · exact hI.unlinkPin _
    | signalNew mem name type => exact Option.some.inj hs ▸ hI.halgSignalNew halloc name type
    | signalDelete name =>
      refine Option.some.inj hs ▸ ?_
      rw [Hal.halgSignalDelete]
      split_ifs
      · exact hI
      · exact hI
      · split
        · exact hI
        · exact hI.freeSigStruct _
    | sweep => exact Option.some.inj hs ▸ hI.sweep
  | signalSetbarriers name rb wb =>
    exact Option.some.inj hs ▸ hI.halgSignalSetbarriers name rb wb hok
  | setSig off rb wb =>
    refine Option.some.inj hs ▸ ?_
    cases hat : h.sigAt off with
    | none =>
      rw [Hal.setbarriersSig, hat]
      exact hI
    | some sig =>
      obtain ⟨hg, rfl⟩ := (at?_eq_some hI.sigKeys).1 hat
      simp only [barrierOk, hat, Option.all_some] at hok
      exact hI.setbarriersSig hg rb wb hok
  | setPin off rb wb => exact Option.some.inj hs ▸ hI.setbarriersPin off rb wb hok

end BarrierInv

/-! ### Runs -/

/-- **Barrier inheritance.** In every run in which no signal demands a write barrier, but no
read barrier, of a pin that writes, and no pin is denied by hand what its signal demands,
every linked pin has the barriers its signal demands of it. In every state, inheritance adds
the barriers demanded and changes nothing else exactly if the signal does not demand a write
barrier, but no read barrier, of a pin that writes. -/
theorem barrier_inheritance (h0 : h₀.unwired)
    (hr : Reach barrierStep (fun h a => barrierOk h a = true) h₀ h) :
    BarriersOk h ∧ ∀ sig,
      (h.propagateBarriers sig = { h with pins := h.pins.map (demandedBy sig) }
        ↔ h.demandsBoth sig.off sig.hdr = true) := by
  have hI : BarrierInv none h := by
    refine hr.invariant ?_ fun hI hok hs => hI.step hok hs
    obtain ⟨hp, hs⟩ := h0
    refine ⟨?_, ?_, ?_, ?_⟩ <;> simp [hp, hs]
  refine ⟨fun p hp hv g hg hgv hl => ?_, propagateBarriers_iff hI.pinKeys⟩
  exact hI.covered p hp hv g hg hgv hl (by simp)

/-- Both barriers are set on a signal with a writer; a reader is linked afterwards. -/
def bothBarriers : List BarrierAct :=
  [.link (.pinNew (some ⟨128, 2⟩) .halS32 .halOut none 1 0 "out"),
    .link (.pinNew (some ⟨256, 3⟩) .halS32 .halIn none 1 0 "in"),
    .link (.signalNew (some ⟨384, 4⟩) "sig" .halS32), .link (.link "out" "sig"),
    .signalSetbarriers "sig" 1 1, .link (.link "in" "sig")]

/-- Either pin gets the barrier of its side. -/
theorem barrier_inheritance_bothBarriers : ∃ h,
    run barrierStep barrierOk oneComp bothBarriers = some h ∧
    (h.pins.map fun p => (p.body.dir, p.hdr.rmb, p.hdr.wmb))
      = [(.halIn, true, false), (.halOut, false, true)] ∧ BarriersOk h := by
  have hs : (run barrierStep barrierOk oneComp bothBarriers).map
      (fun h => h.pins.map fun p => (p.body.dir, p.hdr.rmb, p.hdr.wmb))
      = some [(.halIn, true, false), (.halOut, false, true)] := by decide
  obtain ⟨h, hs, hv, hr⟩ := run_map hs
  exact ⟨h, hs, hv, (barrier_inheritance ⟨rfl, rfl⟩ hr).1⟩

/-- Only the write barrier is set on a signal with a writer. -/
def writeBarrier : List BarrierAct :=
  [.link (.pinNew (some ⟨128, 2⟩) .halS32 .halOut none 1 0 "out"),
    .link (.signalNew (some ⟨384, 4⟩) "sig" .halS32), .link (.link "out" "sig"),
    .signalSetbarriers "sig" 0 1]

/-- A pin that writes inherits the read barrier of the signal as its write barrier: the write
barrier of the signal alone leaves it without one. -/
theorem barrier_inheritance_writeBarrier : ¬ ∀ h₀ h : Hal, h₀.unwired →
    Reach barrierStep (fun _ _ => true = true) h₀ h → BarriersOk h := by
  intro hall
  have hs : (run barrierStep (fun _ _ => true) oneComp writeBarrier).map
      (fun h => decide (∃ p ∈ h.pins, p.hdr.valid = true ∧ ∃ g ∈ h.sigs, g.hdr.valid = true ∧
        p.body.signal = g.off ∧ ¬ Covers p.hdr g.hdr p.body.dir)) = some true := by decide
  obtain ⟨h, -, hv, hr⟩ := run_map hs
  obtain ⟨p, hp, hpv, g, hg, hgv, hl, hno⟩ := of_decide_eq_true hv
  exact hno (hall _ h ⟨rfl, rfl⟩ hr p hp hpv g hg hgv hl)

end MachinekitHal
