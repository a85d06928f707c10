import MachinekitHal.Hal.SignalLinkage

/-!
Links and counts in every state reached, whatever the data pointers of legacy pins are.

The links do not depend on these data pointers: with all pins taken as v2 pins, every
operation does the same to links and counts, and there `Linkage` has no condition on them.

* `Hal.asV2`: the state with all pins as v2 pins.
* `asV2_unlinkPin`, `asV2_halgLink`, …: it commutes with each operation.
* `linkage_asV2`: the links and counts of every state reached are in order.
* `signal_linkage`: so are the data pointers, those of components as long as no two valid legacy
  pins are given one; `signal_linkage_sharedCell` shows two pins that are.
-/

namespace MachinekitHal

open Store Runs

/-! ### All pins as v2 pins -/

/-- A pin as a v2 pin: without the data pointer of its component. -/
def Obj.asV2 (p : Obj Pin) : Obj Pin :=
  { p with hdr := { p.hdr with legacy := false }, body := { p.body with dataPtrAddr := none } }

/-- All pins as v2 pins. -/
def Hal.asV2 (h : Hal) : Hal := { h with pins := h.pins.map Obj.asV2, cells := fun _ => none }

variable {α : Type}

/-- A change of objects that keeps names and validity is none for the look-up. -/
lemma findByName_map {T : Obj α → Obj α} (hname : ∀ o, (T o).hdr.name = o.hdr.name)
    (hvalid : ∀ o, (T o).hdr.valid = o.hdr.valid) (name : String) (l : List (Obj α)) :
    findByName name (l.map T) = (findByName name l).map T := by
  have hsel : ((fun o : Obj α => o.hdr.valid && o.hdr.name == name) ∘ T) =
      fun o => o.hdr.valid && o.hdr.name == name := by
    funext o
    simp only [Function.comp_apply, hname, hvalid]
  rw [findByName, findByName, List.find?_map, hsel]

/-- Writing commutes with a change that keeps the offsets. -/
lemma modify_map {T F : Obj α → Obj α} (hoff : ∀ o, (T o).off = o.off)
    (hF : ∀ o, T (F o) = F (T o)) (off : ℕ) (l : List (Obj α)) :
    (modify Obj.off off F l).map T = modify Obj.off off F (l.map T) := by
  rw [Store.modify, Store.modify, List.map_map, List.map_map]
  refine List.map_congr_left fun o _ => ?_
  by_cases hk : o.off = off <;> simp [hk, hoff, hF]

lemma addObject_map {T : Obj α → Obj α} (hname : ∀ o, (T o).hdr.name = o.hdr.name)
    (hvalid : ∀ o, (T o).hdr.valid = o.hdr.valid) (new : Obj α) (l : List (Obj α)) :
    (addObject new l).map T = addObject (T new) (l.map T) := by
  induction l with
  | nil => rfl
  | cons o l ih =>
    rw [List.map_cons, addObject, addObject, hname, hname, hvalid]
    split
    · rfl
    · rw [List.map_cons, ih]

namespace Hal

variable (h : Hal)

@[simp] lemma asV2_findByName (name : String) :
    findByName name h.asV2.pins = (findByName name h.pins).map Obj.asV2 :=
  findByName_map (T := Obj.asV2) (fun _ => rfl) (fun _ => rfl) name h.pins

@[simp] lemma asV2_pinAt (off : ℕ) : h.asV2.pinAt off = (h.pinAt off).map Obj.asV2 :=
  at?_map (T := Obj.asV2) (fun _ => rfl) off h.pins

@[simp] lemma asV2_setCell (pin : Obj Pin) (ref : DataRef) : (h.setCell pin ref).asV2 = h.asV2 := by
  rw [setCell]
  split <;> rfl

@[simp] lemma setCell_asV2 (pin : Obj Pin) (ref : DataRef) : h.setCell pin.asV2 ref = h := rfl

lemma asV2_modifyPin {f : Pin → Pin} (hf : ∀ p, f { p with dataPtrAddr := none } =
    { f p with dataPtrAddr := none }) (off : ℕ) :
    (h.modifyPin off f).asV2 = h.asV2.modifyPin off f := by
  rw [modifyPin, modifyPin, asV2, asV2]
  congr 1
  refine modify_map (T := Obj.asV2) (fun _ => rfl) (fun o => ?_) off h.pins
  rw [Obj.asV2, Obj.asV2, hf]

@[simp] lemma asV2_modifySig (off : ℕ) (f : Sig → Sig) :
    (h.modifySig off f).asV2 = h.asV2.modifySig off f := rfl

@[simp] lemma asV2_pinValue (pin : Obj Pin) : h.asV2.pinValue pin.asV2 = h.pinValue pin := rfl

@[simp] lemma pinIsLinked_asV2 (pin : Obj Pin) : pinIsLinked pin.asV2 = pinIsLinked pin := rfl

lemma asV2_unlinkPin (off : ℕ) : (h.unlinkPin off).asV2 = h.asV2.unlinkPin off := by
  rw [unlinkPin, unlinkPin, asV2_pinAt]
  cases h.pinAt off with
  | none => rfl
  | some pin =>
    simp only [Option.map_some]
    by_cases hl : pinIsLinked pin = true
    · rw [if_pos hl, if_pos ((pinIsLinked_asV2 pin).trans hl), setCell_asV2,
        asV2_modifyPin _ fun _ => rfl, asV2_modifySig, asV2_setCell]
      rfl
    · rw [if_neg hl, if_neg fun hn => hl ((pinIsLinked_asV2 pin).symm.trans hn)]

lemma asV2_halgFreeObject (off : ℕ) :
    ({ h with pins := halgFreeObject off h.pins } : Hal).asV2 =
      { h.asV2 with pins := halgFreeObject off h.asV2.pins } := by
  rw [asV2, asV2]
  congr 1
  refine modify_map (T := Obj.asV2) (fun _ => rfl) (fun o => ?_) off h.pins
  rw [Obj.release, Obj.release]
  change Obj.asV2 (if o.hdr.refcnt ≠ 0 then _ else _) = if o.hdr.refcnt ≠ 0 then _ else _
  split <;> rfl

lemma asV2_freePinStruct (off : ℕ) : (h.freePinStruct off).asV2 = h.asV2.freePinStruct off := by
  rw [freePinStruct, freePinStruct, ← asV2_unlinkPin]
  exact asV2_halgFreeObject _ off

lemma asV2_foreachPinBySignal (sig : ℕ) {cb : ℕ → Hal → Hal}
    (hcb : ∀ off h, (cb off h).asV2 = cb off h.asV2) :
    (h.foreachPinBySignal sig cb).asV2 = h.asV2.foreachPinBySignal sig cb :=
  halgForeach_map (e := Hal.asV2) (T := Obj.asV2) (fun _ => rfl) (fun _ => rfl) (fun _ => rfl) hcb h

lemma asV2_freeSigStruct (sig : Obj Sig) :
    (h.freeSigStruct sig).2.asV2 = (h.asV2.freeSigStruct sig).2 := by
  have hall : (h.foreachPinBySignal sig.off fun off h => h.unlinkPin off).asV2 =
      h.asV2.foreachPinBySignal sig.off fun off h => h.unlinkPin off :=
    h.asV2_foreachPinBySignal sig.off fun off h => h.asV2_unlinkPin off
  rw [freeSigStruct, freeSigStruct, ← hall]
  rfl

/-- `halg_signal_propagate_barriers`. -/
lemma asV2_propagateBarriers (sig : Obj Sig) :
    (h.propagateBarriers sig).asV2 = h.asV2.propagateBarriers sig := by
  refine h.asV2_foreachPinBySignal sig.off fun off h => ?_
  rw [propagateBarriersCb, propagateBarriersCb, asV2, asV2]
  congr 1
  refine modify_map (T := Obj.asV2) (fun _ => rfl) (fun o => ?_) off h.pins
  cases hd : o.body.dir <;> simp [Obj.asV2, Halhdr.inherit, hd]

lemma asV2_linkPin (pin : Obj Pin) (sig : Obj Sig) :
    (h.linkPin pin sig).2.asV2 = (h.asV2.linkPin pin.asV2 sig).2 := by
  have hpoint : ((h.setCell pin (.value sig.off)).modifyPin pin.off
      fun p => { p with dataPtr := .value sig.off }).asV2 =
      (h.asV2.setCell pin.asV2 (.value sig.off)).modifyPin pin.asV2.off
        fun p => { p with dataPtr := .value sig.off } := by
    rw [asV2_modifyPin _ fun _ => rfl, asV2_setCell, setCell_asV2]
    rfl
  have hvalue : (if pin.asV2.body.dir = .halOut ∨
        sig.body.readers + sig.body.writers + sig.body.bidirs = 0 then
      copyValue pin.asV2.body.type sig.body.value (((h.asV2.setCell pin.asV2
        (.value sig.off)).modifyPin pin.asV2.off
          fun p => { p with dataPtr := .value sig.off }).pinValue pin.asV2)
      else some sig.body.value) =
      if pin.body.dir = .halOut ∨ sig.body.readers + sig.body.writers + sig.body.bidirs = 0 then
        copyValue pin.body.type sig.body.value (((h.setCell pin (.value sig.off)).modifyPin pin.off
          fun p => { p with dataPtr := .value sig.off }).pinValue pin)
      else some sig.body.value := by
    rw [← hpoint, asV2_pinValue]
    rfl
  rw [linkPin, linkPin]
  simp only [hvalue]
  rw [← hpoint]
  cases (if pin.body.dir = .halOut ∨
        sig.body.readers + sig.body.writers + sig.body.bidirs = 0 then
      copyValue pin.body.type sig.body.value (((h.setCell pin (.value sig.off)).modifyPin pin.off
        fun p => { p with dataPtr := .value sig.off }).pinValue pin)
      else some sig.body.value) with
  | none => rfl
  | some v =>
    simp only
    rw [asV2_propagateBarriers, asV2_modifyPin _ fun _ => rfl, asV2_modifySig]
    rfl

/-! ### Each operation -/

/-- A check that changes nothing when it fails. -/
lemma asV2_check {c : Prop} [Decidable c] {e : Option Errno} {x y : Option Errno × Hal}
    (hxy : x.2.asV2 = y.2) :
    (if c then (e, h) else x).2.asV2 = (if c then (e, h.asV2) else y).2 := by
  by_cases hc : c
  · rw [if_pos hc, if_pos hc]
  · rw [if_neg hc, if_neg hc]
    exact hxy

lemma asV2_halgLink (pinName sigName : String) :
    (h.halgLink pinName sigName).2.asV2 = (h.asV2.halgLink pinName sigName).2 := by
  rw [halgLink, halgLink, asV2_findByName]
  refine h.asV2_check (h.asV2_check (h.asV2_check ?_))
  cases findByName pinName h.pins with
  | none => rfl
  | some pin =>
    have hsigs : h.asV2.sigs = h.sigs := rfl
    rw [hsigs]
    cases findByName sigName h.sigs with
    | none => rfl
    | some sig =>
      refine h.asV2_check (h.asV2_check (h.asV2_check (h.asV2_check (h.asV2_check ?_))))
      exact h.asV2_linkPin pin sig

lemma asV2_halgUnlink (pinName : String) :
    (h.halgUnlink pinName).2.asV2 = (h.asV2.halgUnlink pinName).2 := by
  rw [halgUnlink, halgUnlink, asV2_findByName]
  refine h.asV2_check (h.asV2_check ?_)
  cases findByName pinName h.pins with
  | none => rfl
  | some pin => exact h.asV2_unlinkPin pin.off

lemma asV2_halgSignalNew (mem : Option Alloc) (name : String) (type : HalType) :
    (h.halgSignalNew mem name type).2.asV2 = (h.asV2.halgSignalNew mem name type).2 := by
  rw [halgSignalNew, halgSignalNew]
  refine h.asV2_check (h.asV2_check (h.asV2_check ?_))
  cases halgCreateObject mem 0 name
      { type := type, value := 0, readers := 0, writers := 0, bidirs := 0 : Sig } with
  | none => rfl
  | some new => cases type <;> rfl

lemma asV2_halgSignalDelete (name : String) :
    (h.halgSignalDelete name).2.asV2 = (h.asV2.halgSignalDelete name).2 := by
  rw [halgSignalDelete, halgSignalDelete]
  refine h.asV2_check (h.asV2_check ?_)
  have hsigs : h.asV2.sigs = h.sigs := rfl
  rw [hsigs]
  cases findByName name h.sigs with
  | none => rfl
  | some sig => exact h.asV2_freeSigStruct sig

lemma asV2_addPin (new : Obj Pin) (dataPtrAddr : Option ℤ) :
    Hal.asV2 { h.setCell (newPin new dataPtrAddr) (.dummysig new.off) with
      pins := addObject (newPin new dataPtrAddr)
        (h.setCell (newPin new dataPtrAddr) (.dummysig new.off)).pins } =
    { h.asV2.setCell (newPin new none) (.dummysig new.off) with
      pins := addObject (newPin new none)
        (h.asV2.setCell (newPin new none) (.dummysig new.off)).pins } := by
  have hadd : ∀ s : Hal, Hal.asV2 { s with pins := addObject (newPin new dataPtrAddr) s.pins } =
      { s.asV2 with pins := addObject (newPin new none) s.asV2.pins } := by
    intro s
    rw [asV2, asV2]
    congr 1
    exact addObject_map (T := Obj.asV2) (fun _ => rfl) (fun _ => rfl) _ s.pins
  rw [hadd, asV2_setCell]
  rfl

/-- `halg_pin_newfv`: a new legacy pin is a new v2 pin, or there is none. -/
lemma asV2_halgPinNewfv (mem : Option Alloc) (type : HalType) (dir : HalPinDir)
    (dataPtrAddr : Option ℤ) (ownerId : ℤ) (defval : HalDataU) (name : String) :
    (h.halgPinNewfv mem type dir dataPtrAddr ownerId defval name).2.asV2 = h.asV2 ∨
    (h.halgPinNewfv mem type dir dataPtrAddr ownerId defval name).2.asV2 =
      (h.asV2.halgPinNewfv mem type dir none ownerId defval name).2 := by
  rw [halgPinNewfv, halgPinNewfv]
  by_cases h1 : h.locked halLockLoad = true
  · exact .inl (by rw [if_pos h1])
  rw [if_neg h1, if_neg (show ¬ h.asV2.locked halLockLoad = true from h1)]
  cases fmtAp 128 name with
  | none => exact .inl rfl
  | some stored =>
    simp only [asV2_findByName, Option.isSome_map]
    by_cases h2 : (!halValidType type) = true
    · exact .inl (by rw [if_pos h2])
    rw [if_neg h2, if_neg h2]
    by_cases h3 : (!halValidDir dir) = true
    · exact .inl (by rw [if_pos h3])
    rw [if_neg h3, if_neg h3]
    by_cases h4 : (findByName stored h.pins).isSome = true
    · exact .inl (by rw [if_pos h4])
    rw [if_neg h4, if_neg h4]
    have howner : h.asV2.findOwningComp ownerId = h.findOwningComp ownerId := rfl
    rw [howner]
    cases h.findOwningComp ownerId with
    | none => exact .inl rfl
    | some comp =>
      simp only
      by_cases h5 : (!(dataPtrAddr.all h.shmchk)) = true
      · exact .inl (by rw [if_pos h5])
      rw [if_neg h5, if_neg (by simp)]
      cases halgCreateObject mem ownerId stored
          { dataPtrAddr := none, dataPtr := .dummysig 0, signal := 0, dummysig := defval
            type := type, dir := dir : Pin } with
      | none => exact .inl rfl
      | some new =>
        exact .inr (h.asV2_addPin new dataPtrAddr)

/-! ### Every state reached -/

/-- Every operation keeps this. -/
lemma linkage_asV2_step {h h' : Hal} {a : LinkAct} (hL : Linkage h.asV2)
    (hok : linkAlloc h a = true) (hs : linkStep h a = some h') : Linkage h'.asV2 := by
  have hfresh : ∀ mem, h.asV2.fresh mem = h.fresh mem := by
    intro mem
    have hoffs : h.asV2.offsets = h.offsets := by
      rw [offsets, offsets, asV2, List.map_map]
      rfl
    rw [fresh, fresh, hoffs]
  cases a with
  | pinNew mem type dir dataPtrAddr ownerId defval name =>
    cases hs
    rcases h.asV2_halgPinNewfv mem type dir dataPtrAddr ownerId defval name with he | he
    · rw [he]
      exact hL
    · rw [he]
      exact hL.halgPinNewfv ((hfresh mem).trans hok) rfl type dir ownerId defval name
  | pinDelete off =>
    simp only [linkStep] at hs
    cases hat : h.pinAt off with
    | none => simp [hat] at hs
    | some p =>
      simp only [hat] at hs
      split_ifs at hs with hv
      cases hs
      have hat' : h.asV2.pinAt off = some p.asV2 := by
        rw [asV2_pinAt, hat]
        rfl
      obtain ⟨hp, hoff⟩ := (at?_eq_some hL.pinKeys).1 hat'
      rw [asV2_freePinStruct, ← hoff]
      exact hL.freePinStruct hp hv
  | link pinName sigName =>
    cases hs
    rw [asV2_halgLink]
    exact hL.halgLink pinName sigName
  | unlink pinName =>
    cases hs
    rw [asV2_halgUnlink]
    exact hL.halgUnlink pinName
  | signalNew mem name type =>
    cases hs
    rw [asV2_halgSignalNew]
    exact hL.halgSignalNew ((hfresh mem).trans hok) name type
  | signalDelete name =>
    cases hs
    rw [asV2_halgSignalDelete]
    exact hL.halgSignalDelete name
  | sweep =>
    cases hs
    have hsweep : ({ h with pins := sweep h.pins, sigs := sweep h.sigs } : Hal).asV2 =
        { h.asV2 with pins := sweep h.asV2.pins, sigs := sweep h.asV2.sigs } := by
      have hfilter : (sweep h.pins).map Obj.asV2 = sweep (h.pins.map Obj.asV2) := by
        rw [MachinekitHal.sweep, MachinekitHal.sweep, List.filter_map]
        rfl
      rw [asV2, asV2]
      congr 1
    rw [hsweep]
    exact hL.sweep

end Hal

/-- Links and counts are in order in every state reached, if new descriptors are in free
memory. -/
lemma linkage_asV2 {h₀ h : Hal} (h0 : h₀.unwired)
    (hr : Reach linkStep (fun h a => linkAlloc h a = true) h₀ h) : Linkage h.asV2 := by
  refine hr.invariant (P := fun h => Linkage h.asV2) ?_ fun hL hok hs =>
    Hal.linkage_asV2_step hL hok hs
  refine Linkage.of_unwired ⟨?_, h0.2⟩
  rw [Hal.asV2, h0.1]
  rfl

/-- A valid pin is linked if it has a signal. -/
lemma Linkage.pinIsLinked_asV2 {h : Hal} (hL : Linkage h.asV2) {p : Obj Pin} (hp : p ∈ h.pins)
    (hv : p.hdr.valid = true) : pinIsLinked p = true ↔ p.body.signal ≠ 0 :=
  (hL.pins p.asV2 (List.mem_map_of_mem hp) hv).pinIsLinked_iff hL.sigNe

/-- The offsets of the pins are distinct. -/
lemma Linkage.pinKeys_asV2 {h : Hal} (hL : Linkage h.asV2) : (h.pins.map Obj.off).Nodup := by
  have hk := hL.pinKeys
  rwa [Hal.asV2, List.map_map] at hk

/-! ### Signal linkage -/

/-- The data pointers of the components apart, nothing depends on them. -/
lemma PinLinkage.of_asV2 {h : Hal} (hl : PinLinkage h.asV2) : PinLinkage h where
  counts g hg hv := by
    have hcounts := hl.counts g hg hv
    simp only [linkCount, Hal.asV2, List.countP_map] at hcounts
    exact hcounts
  writers := hl.writers
  linked p hp := hl.linked p.asV2 (List.mem_map_of_mem hp)
  dataPtr p hp := hl.dataPtr p.asV2 (List.mem_map_of_mem hp)
  noDangling p hp := hl.noDangling p.asV2 (List.mem_map_of_mem hp)

/-- **Signal linkage.** In every run from a HAL without pins and signals the counts, the links and
the data pointers of the pins are right in every state; and so are those of the components, if
each legacy pin is given one that no other valid pin uses. -/
theorem signal_linkage {h₀ : Hal} (h0 : h₀.unwired) :
    (∀ h, Reach linkStep (fun h a => linkAlloc h a = true) h₀ h → PinLinkage h) ∧
    ∀ h, Reach linkStep (fun h a => linkOwnCell h a = true) h₀ h → SignalLinkage h := by
  refine ⟨fun h hr => .of_asV2 (linkage_asV2 h0 hr).signalLinkage.toPinLinkage, fun h hr => ?_⟩
  have hL : Linkage h := hr.invariant (Linkage.of_unwired h0) fun hL hok hs => hL.step hok hs
  exact hL.signalLinkage

/-- A legacy writer and a reader are linked to one signal; the writer is replaced by
another, in the memory of the first. -/
def rewire : List LinkAct :=
  [.pinNew (some ⟨128, 2⟩) .halS32 .halOut (some 2048) 1 7 "out",
    .pinNew (some ⟨256, 3⟩) .halS32 .halIn none 1 0 "in",
    .signalNew (some ⟨384, 4⟩) "sig" .halS32,
    .link "out" "sig", .link "in" "sig", .pinDelete 128, .sweep,
    .pinNew (some ⟨128, 5⟩) .halS32 .halOut (some 2048) 1 9 "out", .link "out" "sig"]

/-- A reader and the second writer are counted. -/
theorem signal_linkage_rewire : ∃ h, run linkStep linkOwnCell oneComp rewire = some h ∧
    (h.sigs.map fun g => (g.body.readers, g.body.writers)) = [(1, 1)] ∧ SignalLinkage h := by
  have hs : (run linkStep linkOwnCell oneComp rewire).map
      (fun h => h.sigs.map fun g => (g.body.readers, g.body.writers)) = some [(1, 1)] := by
    decide
  obtain ⟨h, hs, hv, hr⟩ := run_map hs
  exact ⟨h, hs, hv, (signal_linkage ⟨rfl, rfl⟩).2 h hr⟩

/-- Two pins with one data pointer. -/
def sharedCell : List LinkAct :=
  [.pinNew (some ⟨128, 2⟩) .halS32 .halIn (some 2048) 1 0 "a",
    .pinNew (some ⟨256, 3⟩) .halS32 .halIn (some 2048) 1 0 "b"]

/-- The first of them. -/
def firstPin : Obj Pin :=
  ⟨128, ⟨2, 1, "a", 0, true, true, false, false⟩,
    ⟨some 2048, .dummysig 128, 0, 0, .halS32, .halIn⟩⟩

/-- `halg_pin_newfv` reports a data pointer that is in use, but takes it: the first of
two pins that share one is unlinked, and the pointer designates the dummy signal of
the second. -/
theorem signal_linkage_sharedCell : ¬ ∀ h₀ h : Hal, h₀.unwired →
    Reach linkStep (fun h a => linkAlloc h a = true) h₀ h → SignalLinkage h := by
  intro hall
  have hs : (run linkStep linkAlloc oneComp sharedCell).map (fun h => (h.pins.head?, h.cells 2048))
      = some (some firstPin, some ⟨8192, .dummysig 256⟩) := by decide
  obtain ⟨h, -, hv, hr⟩ := run_map hs
  obtain ⟨hpins, hcell⟩ := Prod.mk.inj hv
  have hp : firstPin ∈ h.pins := List.mem_of_head? hpins
  obtain ⟨comp, _, hc⟩ := (hall _ h ⟨rfl, rfl⟩ hr).cell firstPin hp rfl rfl
  have hun : pinIsLinked firstPin = false := by decide
  rw [show firstPin.body.dataPtrAddr = some 2048 from rfl, Option.bind_some, hcell, hun] at hc
  simp [firstPin] at hc

end MachinekitHal
