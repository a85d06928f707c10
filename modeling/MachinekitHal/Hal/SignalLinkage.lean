import MachinekitHal.Lib.Runs
import MachinekitHal.Hal.Linkage

/-!
Pins and signals over whole runs.

* `LinkAct`, `linkStep`: creating, deleting, linking and unlinking pins and signals as
  steps, with garbage collection between them.
* `PinLinkage`, `SignalLinkage`: what is true of the counts, the links and the data pointers.
-/

namespace MachinekitHal

open Store

/-- The operations on pins and signals. -/
inductive LinkAct where
  | pinNew (mem : Option Alloc) (type : HalType) (dir : HalPinDir) (dataPtrAddr : Option ℤ)
      (ownerId : ℤ) (defval : HalDataU) (name : String)
  | pinDelete (off : ℕ)
  | link (pinName sigName : String)
  | unlink (pinName : String)
  | signalNew (mem : Option Alloc) (name : String) (type : HalType)
  | signalDelete (name : String)
  | sweep

/-- One operation, whether it succeeds or fails. A pin is deleted through a reference
to a valid pin. -/
def linkStep (h : Hal) : LinkAct → Option Hal
  | .pinNew mem type dir dataPtrAddr ownerId defval name =>
    some (h.halgPinNewfv mem type dir dataPtrAddr ownerId defval name).2
  | .pinDelete off =>
    match h.pinAt off with
    | some p => if p.hdr.valid then some (h.freePinStruct off) else none
    | none => none
  | .link pinName sigName => some (h.halgLink pinName sigName).2
  | .unlink pinName => some (h.halgUnlink pinName).2
  | .signalNew mem name type => some (h.halgSignalNew mem name type).2
  | .signalDelete name => some (h.halgSignalDelete name).2
  | .sweep => some { h with pins := sweep h.pins, sigs := sweep h.sigs }

/-- New descriptors are in free memory. -/
def linkAlloc (h : Hal) : LinkAct → Bool
  | .pinNew mem .. => h.fresh mem
  | .signalNew mem .. => h.fresh mem
  | _ => true

/-- New descriptors are in free memory, and a new legacy pin has a cell of its own. -/
def linkOwnCell (h : Hal) : LinkAct → Bool
  | .pinNew mem _ _ dataPtrAddr .. => h.fresh mem && h.freshCell dataPtrAddr
  | .signalNew mem .. => h.fresh mem
  | _ => true

/-- Garbage collection keeps the invariant: no valid pin is linked to what goes. -/
lemma Linkage.sweep {h : Hal} (hL : Linkage h) :
    Linkage { h with pins := sweep h.pins, sigs := sweep h.sigs } := by
  have hpins : Linkage { h with pins := MachinekitHal.sweep h.pins } := by
    refine hL.fewerPins (nodup_sweep hL.pinKeys) ?_ ?_
    · intro p hp hv
      exact ⟨p, (mem_sweep.1 hp).1, hv, rfl, rfl, rfl, rfl⟩
    · intro sel g _
      rw [linkCount, MachinekitHal.sweep, List.countP_filter]
      refine List.countP_congr fun p _ => ?_
      cases p.hdr.valid <;> simp
  refine hpins.fewerSigs (nodup_sweep hL.sigKeys) ?_ ?_ ?_
  · exact fun g hg => hL.sigNe g (mem_sweep.1 hg).1
  · exact fun g hg _ => (mem_sweep.1 hg).1
  · exact fun g hg hgv _ => mem_sweep.2 ⟨hg, hgv⟩

/-- Every operation keeps the invariant. -/
lemma Linkage.step {h h' : Hal} {a : LinkAct} (hL : Linkage h) (hok : linkOwnCell h a = true)
    (hs : linkStep h a = some h') : Linkage h' := by
  cases a with
  | pinNew mem type dir dataPtrAddr ownerId defval name =>
    simp only [linkOwnCell, Bool.and_eq_true] at hok
    cases hs
    exact hL.halgPinNewfv hok.1 hok.2 type dir ownerId defval name
  | pinDelete off =>
    simp only [linkStep] at hs
    cases hat : h.pinAt off with
    | none => simp [hat] at hs
    | some p =>
      obtain ⟨hp, rfl⟩ := (at?_eq_some hL.pinKeys).1 hat
      simp only [hat] at hs
      split_ifs at hs with hv
      cases hs
      exact hL.freePinStruct hp hv
  | link pinName sigName =>
    cases hs
    exact hL.halgLink pinName sigName
  | unlink pinName =>
    cases hs
    exact hL.halgUnlink pinName
  | signalNew mem name type =>
    cases hs
    exact hL.halgSignalNew hok name type
  | signalDelete name =>
    cases hs
    exact hL.halgSignalDelete name
  | sweep =>
    cases hs
    exact hL.sweep

/-- The link state of all pins and signals, but for the data pointers of the components. -/
structure PinLinkage (h : Hal) : Prop where
  /-- the counts are the numbers of valid pins linked to the signal -/
  counts : ∀ g ∈ h.sigs, g.hdr.valid = true →
    g.body.readers = linkCount (fun d => d = .halIn ∨ d = .halIo) g.off h.pins ∧
    g.body.writers = linkCount (fun d => d = .halOut) g.off h.pins ∧
    g.body.bidirs = linkCount (fun d => d = .halIo) g.off h.pins
  /-- one writer at most, and none beside a bidir -/
  writers : ∀ g ∈ h.sigs, g.hdr.valid = true →
    g.body.writers ≤ 1 ∧ (g.body.writers = 1 → g.body.bidirs = 0)
  /-- a pin is linked exactly when it names a valid signal of its type -/
  linked : ∀ p ∈ h.pins, p.hdr.valid = true → (pinIsLinked p = true ↔
    ∃ g ∈ h.sigs, g.hdr.valid = true ∧ g.off = p.body.signal ∧ g.body.type = p.body.type)
  /-- a linked pin points to the value of its signal, an unlinked one to its dummy signal -/
  dataPtr : ∀ p ∈ h.pins, p.hdr.valid = true →
    p.body.dataPtr = if pinIsLinked p then .value p.body.signal else .dummysig p.off
  /-- no valid pin refers to a signal that is gone -/
  noDangling : ∀ p ∈ h.pins, p.hdr.valid = true → p.body.signal ≠ 0 →
    ∃ g ∈ h.sigs, g.hdr.valid = true ∧ g.off = p.body.signal

/-- The link state of all pins and signals. -/
structure SignalLinkage (h : Hal) : Prop extends PinLinkage h where
  /-- the data pointer of the component of a legacy pin points to where that of the pin does -/
  cell : ∀ p ∈ h.pins, p.hdr.valid = true → p.hdr.legacy = true → ∃ comp,
    h.findOwningComp p.hdr.ownerId.toInt = some comp ∧
    p.body.dataPtrAddr.bind h.cells = some ⟨comp.body.shmemBase,
      if pinIsLinked p then .value p.body.signal else .dummysig p.off⟩

/-- The invariant says all of it. -/
lemma Linkage.signalLinkage {h : Hal} (hL : Linkage h) : SignalLinkage h := by
  have hptr : ∀ p ∈ h.pins, p.hdr.valid = true →
      p.body.dataPtr = if pinIsLinked p then .value p.body.signal else .dummysig p.off := by
    intro p hp hv
    rcases (hL.pins p hp hv).link with ⟨_, hd⟩ | ⟨g, _, _, hgo, _, hd⟩
    · simp [pinIsLinked, hd]
    · simp [pinIsLinked, hd, hgo]
  refine ⟨⟨?_, ?_, ?_, hptr, ?_⟩, ?_⟩
  · intro g hg hv
    have hok := hL.sigs g hg hv
    refine ⟨?_, hok.writers, hok.bidirs⟩
    rw [hok.readers, linkCount, linkCount, Int.natCast_inj]
    refine List.countP_congr fun p hp => ?_
    -- a valid pin has a direction
    cases hpv : p.hdr.valid with
    | false => simp
    | true =>
      have hdir := (hL.pins p hp hpv).dir
      cases hd : p.body.dir <;> simp_all [HalPinDir.hasIn, halValidDir]
  · exact fun g hg hv => ⟨(hL.sigs g hg hv).oneWriter, (hL.sigs g hg hv).noBidir⟩
  · intro p hp hv
    have hok := hL.pins p hp hv
    rw [hok.pinIsLinked_iff hL.sigNe]
    constructor
    · intro hs
      rcases hok.link with ⟨h0, _⟩ | ⟨g, hg, hgv, hgo, hgt, _⟩
      · exact absurd h0 hs
      · exact ⟨g, hg, hgv, hgo, hgt⟩
    · rintro ⟨g, hg, _, hgo, _⟩
      exact hgo ▸ hL.sigNe g hg
  · intro p hp hv hs
    rcases (hL.pins p hp hv).link with ⟨h0, _⟩ | ⟨g, hg, hgv, hgo, _⟩
    · exact absurd h0 hs
    · exact ⟨g, hg, hgv, hgo⟩
  · intro p hp hv hl
    obtain ⟨a, comp, ha, hc, hcell⟩ := (hL.pins p hp hv).cell hl
    refine ⟨comp, hc, ?_⟩
    rw [ha, Option.bind_some, hcell, ← hptr p hp hv]

open Runs

/-- A HAL without pins and signals. -/
def Hal.unwired (h : Hal) : Prop := h.pins = [] ∧ h.sigs = []

lemma Linkage.of_unwired {h : Hal} (h0 : h.unwired) : Linkage h := by
  obtain ⟨hp, hs⟩ := h0
  refine ⟨?_, ?_, ?_, ?_, ?_, ?_⟩ <;> simp [hp, hs]

/-- A HAL with one component. -/
def oneComp : Hal :=
  { lock := 0, halSize := 4096
    comps := [⟨64, ⟨1, 0, "comp", 0, false, true, false, false⟩, ⟨.typeRt, .compReady, 8192⟩⟩]
    insts := [], pins := [], sigs := [], functs := [], threads := [], functEntryFree := []
    cells := fun _ => none }

end MachinekitHal
